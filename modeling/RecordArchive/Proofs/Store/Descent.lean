import RecordArchive.Proofs.Store.Tree

/-!
# Names that lead downwards

Names of a path are read one after the other, and may lead up as well as down.  What they
lead to from a directory is inside it wherever that directory is, or it depends on where it is:
`below_iff` says when a path stays below the one that it is joined to, and `below_join_iff` when a
file stays in a directory that is itself named by such a path.
-/

namespace RecordArchive.FileTree

/-- One place is inside the directory at another, however deep. -/
def Below (outer inner : Place) : Prop := outer <+: inner ∧ inner ≠ outer

instance (outer inner : Place) : Decidable (Below outer inner) :=
  inferInstanceAs (Decidable (outer <+: inner ∧ inner ≠ outer))

/-- What a name leads to from a place inside some directory, unless it leads out of that. -/
def follow? (inner : Place) (name : List Char) : Option Place :=
  if name = Path.up ∧ inner = [] then none else some (follow inner name)

/-- What names lead to from a place inside some directory, unless they lead out of that on
the way. -/
def descend? (inner : Place) (names : List (List Char)) : Option Place := names.foldlM follow? inner

variable {t : FileTree} {outer inner place next : Place} {name last : List Char}
  {names more : List (List Char)} {base part : List Char}

theorem below_append_iff (outer inner : Place) : Below outer (outer ++ inner) ↔ inner ≠ [] := by
  show outer <+: outer ++ inner ∧ outer ++ inner ≠ outer ↔ inner ≠ []
  simp

theorem below_append_append_iff (start outer inner : Place) :
    Below (start ++ outer) (start ++ inner) ↔ Below outer inner := by
  show start ++ outer <+: start ++ inner ∧ start ++ inner ≠ start ++ outer ↔
    outer <+: inner ∧ inner ≠ outer
  rw [List.prefix_append_right_inj, ne_eq, List.append_right_inj]

theorem below_concat_iff (outer inner : Place) (name : String) :
    Below outer (inner ++ [name]) ↔ outer <+: inner := by
  constructor
  · rintro ⟨hbegins, hne⟩
    exact (List.prefix_concat_iff.mp hbegins).resolve_left (Ne.symm hne)
  · intro hbegins
    refine ⟨hbegins.trans (List.prefix_append inner [name]), ?_⟩
    rintro rfl
    have hlength := hbegins.length_le
    rw [List.length_append, List.length_singleton] at hlength
    omega

/-! ## Places that names lead to -/

theorem follow_self (hpassed : (name.isEmpty || name == Path.self) = true) (place : Place) :
    follow place name = place := by
  rw [follow, if_pos hpassed]

theorem follow_of_isName (h : Path.IsName name) (place : Place) :
    follow place name = place ++ [String.ofList name] := by
  have hpassed : ¬(name.isEmpty || name == Path.self) = true := by simp [h.ne_nil, h.ne_self]
  rw [follow, if_neg hpassed, if_neg h.ne_up]

theorem follow_cases (place : Place) (name : List Char) : follow place name = place ∨
    follow place name = place.dropLast ∨ follow place name = place ++ [String.ofList name] := by
  unfold follow
  by_cases hpassed : (name.isEmpty || name == Path.self) = true
  · rw [if_pos hpassed]
    exact Or.inl rfl
  · rw [if_neg hpassed]
    by_cases hup : name = Path.up
    · rw [if_pos hup]
      exact Or.inr (Or.inl rfl)
    · rw [if_neg hup]
      exact Or.inr (Or.inr rfl)

/-- How deep a name leads depends on how deep it starts. -/
theorem length_follow (place : Place) (name : List Char) : (follow place name).length =
    if (name.isEmpty || name == Path.self) = true then place.length
    else if name = Path.up then place.length - 1
    else place.length + 1 := by
  unfold follow
  by_cases hpassed : (name.isEmpty || name == Path.self) = true
  · rw [if_pos hpassed, if_pos hpassed]
  · rw [if_neg hpassed, if_neg hpassed]
    by_cases hup : name = Path.up
    · rw [if_pos hup, if_pos hup, List.length_dropLast]
    · rw [if_neg hup, if_neg hup, List.length_append, List.length_singleton]

theorem isKept_iff : (!name.isEmpty && name != Path.self) = true ↔
    ¬(name.isEmpty || name == Path.self) = true := by
  rw [Bool.not_eq_true, Bool.or_eq_false_iff]
  simp [bne]

/-- Empty names and those of the directory itself lead nowhere else. -/
theorem foldl_follow_filter (place : Place) (names : List (List Char)) :
    (names.filter fun name => !name.isEmpty && name != Path.self).foldl follow place =
      names.foldl follow place := by
  have hsame (place : Place) (name : List Char) :
      (if (!name.isEmpty && name != Path.self) = true then follow place name else place) =
        follow place name := by
    by_cases hpassed : (name.isEmpty || name == Path.self) = true
    · rw [follow_self hpassed, ite_self]
    · rw [if_pos (isKept_iff.mpr hpassed)]
  rw [List.foldl_filter]
  simp only [hsame]

/-- A relative path goes on from where the path leads that it is joined to. -/
theorem resolve_join (h : Path.isAbsolute part = false) (t : FileTree) (base : List Char) :
    t.resolve (Path.join base part) = (Text.segments '/' part).foldl follow (t.resolve base) := by
  obtain ⟨front, hsegments, hfront⟩ := Path.segments_join base h
  have hstart : t.start (Path.join base part) = t.start base := by
    rw [start, start, Path.isAbsolute_join h]
  rw [resolve, hsegments, List.foldl_append, hstart, ← foldl_follow_filter _ front, hfront,
    Path.components, foldl_follow_filter]
  rfl

/-- An absolute path leads to the same place whatever it is joined to. -/
theorem resolve_join_of_isAbsolute (h : Path.isAbsolute part = true) (t : FileTree)
    (base : List Char) : t.resolve (Path.join base part) = t.resolve part := by
  rw [Path.join, h, Bool.true_or, if_pos rfl]

theorem notMem_follow {x : String} (h : x ∉ place) (hname : String.ofList name ≠ x) :
    x ∉ follow place name := by
  rcases follow_cases place name with heq | heq | heq
  · rw [heq]
    exact h
  · rw [heq]
    exact fun hmem => h (List.dropLast_subset place hmem)
  · rw [heq, List.mem_append, List.mem_singleton]
    exact not_or.mpr ⟨h, hname.symm⟩

theorem notMem_foldl_follow {x : String} (h : x ∉ place)
    (hnames : ∀ name ∈ names, String.ofList name ≠ x) : x ∉ names.foldl follow place := by
  induction names generalizing place with
  | nil => exact h
  | cons name rest ih =>
    obtain ⟨hname, hrest⟩ := List.forall_mem_cons.mp hnames
    exact ih (notMem_follow h hname) hrest

/-! ## Descents -/

theorem follow?_of_ne (h : name ≠ Path.up ∨ inner ≠ []) (name_eq : follow inner name = next) :
    follow? inner name = some next := by
  rw [follow?, if_neg (fun hout => h.elim (· hout.1) (· hout.2)), name_eq]

/-- A name that does not lead out of a directory leads to the same place inside it wherever
the directory is. -/
theorem follow_append (h : follow? inner name = some next) (start : Place) :
    follow (start ++ inner) name = start ++ next := by
  unfold follow? at h
  by_cases hout : name = Path.up ∧ inner = []
  · rw [if_pos hout] at h
    cases h
  rw [if_neg hout] at h
  rw [← Option.some.inj h]
  unfold follow
  by_cases hpassed : (name.isEmpty || name == Path.self) = true
  · rw [if_pos hpassed, if_pos hpassed]
  rw [if_neg hpassed, if_neg hpassed]
  by_cases hup : name = Path.up
  · have hinner : inner ≠ [] := fun hnil => hout ⟨hup, hnil⟩
    rw [if_pos hup, if_pos hup, List.dropLast_append_of_ne_nil hinner]
  · rw [if_neg hup, if_neg hup, List.append_assoc]

theorem descend?_cons (inner : Place) (name : List Char) (rest : List (List Char)) :
    descend? inner (name :: rest) = (follow? inner name).bind (descend? · rest) :=
  List.foldlM_cons

theorem descend?_append (inner : Place) (names more : List (List Char)) :
    descend? inner (names ++ more) = (descend? inner names).bind (descend? · more) :=
  List.foldlM_append

theorem follow?_self (hpassed : (name.isEmpty || name == Path.self) = true) (inner : Place) :
    follow? inner name = some inner := by
  have hup : name ≠ Path.up := by
    rintro rfl
    cases hpassed
  rw [follow?, if_neg (fun hout => hup hout.1), follow_self hpassed]

/-- Empty names and those of the directory itself make no difference to a descent. -/
theorem descend?_filter (inner : Place) (names : List (List Char)) :
    descend? inner (names.filter fun name => !name.isEmpty && name != Path.self) =
      descend? inner names := by
  have hsame (inner : Place) (name : List Char) :
      (if (!name.isEmpty && name != Path.self) = true then follow? inner name else pure inner) =
        follow? inner name := by
    by_cases hpassed : (name.isEmpty || name == Path.self) = true
    · rw [follow?_self hpassed]
      exact ite_self _
    · rw [if_pos (isKept_iff.mpr hpassed)]
  unfold descend?
  rw [List.foldlM_filter]
  simp only [hsame]

theorem foldl_follow_of_descend? (h : descend? inner names = some next) (start : Place) :
    names.foldl follow (start ++ inner) = start ++ next := by
  induction names generalizing inner with
  | nil => rw [← Option.some.inj h, List.foldl_nil]
  | cons name rest ih =>
    rw [descend?_cons] at h
    obtain ⟨middle, hfirst, hrest⟩ := Option.bind_eq_some_iff.mp h
    rw [List.foldl_cons, follow_append hfirst, ih hrest]

/-- A relative path that descends leads to the same place inside whatever it is joined to. -/
theorem resolve_join_of_descend? (h : Path.isAbsolute part = false)
    (hinner : descend? [] (Text.segments '/' part) = some inner) (t : FileTree)
    (base : List Char) : t.resolve (Path.join base part) = t.resolve base ++ inner := by
  have hplace := foldl_follow_of_descend? hinner (t.resolve base)
  rw [List.append_nil] at hplace
  rw [resolve_join h, hplace]

/-- A descent may begin deeper. -/
theorem descend?_of_descend? (h : descend? inner names = some next) (start : Place) :
    descend? (start ++ inner) names = some (start ++ next) := by
  induction names generalizing inner with
  | nil =>
    rw [← Option.some.inj h]
    rfl
  | cons name rest ih =>
    rw [descend?_cons] at h ⊢
    obtain ⟨middle, hfirst, hrest⟩ := Option.bind_eq_some_iff.mp h
    have hfollow := follow_append hfirst start
    have hstays : name ≠ Path.up ∨ start ++ inner ≠ [] := by
      by_cases hup : name = Path.up
      · refine Or.inr fun hnil => ?_
        rw [follow?, if_pos ⟨hup, (List.append_eq_nil_iff.mp hnil).2⟩] at hfirst
        cases hfirst
      · exact Or.inl hup
    rw [follow?_of_ne hstays hfollow]
    exact ih hrest

/-- Names lead out of a directory only if some name leads up. -/
theorem isSome_descend?_of_notMem (h : Path.up ∉ names) (inner : Place) :
    (descend? inner names).isSome = true := by
  induction names generalizing inner with
  | nil => rfl
  | cons name rest ih =>
    obtain ⟨hname, hrest⟩ := List.ne_and_not_mem_of_not_mem_cons h
    rw [descend?_cons, follow?_of_ne (Or.inl hname.symm) rfl]
    exact ih hrest (follow inner name)

/-- Names of a descent lead downwards, and so do those before them. -/
theorem exists_descend?_of_prefix (h : descend? inner names = some next) (hmore : more <+: names) :
    ∃ middle, descend? inner more = some middle := by
  obtain ⟨rest, rfl⟩ := hmore
  rw [descend?_append] at h
  obtain ⟨middle, hmiddle, -⟩ := Option.bind_eq_some_iff.mp h
  exact ⟨middle, hmiddle⟩

/-- Names that lead out of a directory do not lead back unless they name it. -/
theorem notMem_of_descend?_eq_none {x : String} (h : descend? inner names = none)
    (hnames : ∀ name ∈ names, String.ofList name ≠ x) : x ∉ names.foldl follow (x :: inner) := by
  induction names generalizing inner with
  | nil => cases h
  | cons name rest ih =>
    obtain ⟨hname, hrest⟩ := List.forall_mem_cons.mp hnames
    rw [List.foldl_cons]
    rw [descend?_cons] at h
    cases hfirst : follow? inner name with
    | some middle =>
      rw [hfirst] at h
      have hfollow : follow (x :: inner) name = x :: middle := follow_append hfirst [x]
      rw [hfollow]
      exact ih h hrest
    | none =>
      have hout : name = Path.up ∧ inner = [] := by
        by_contra hstays
        rw [follow?, if_neg hstays] at hfirst
        cases hfirst
      rw [hout.1, hout.2]
      exact notMem_foldl_follow List.not_mem_nil hrest

/-! ## Whatever the directory -/

/-- There are more names than any list has. -/
theorem exists_fresh (names : List (List Char)) : ∃ name, Path.IsName name ∧ name ∉ names := by
  let name := List.replicate (names.flatten.length + 3) 'x'
  have hlength : name.length = names.flatten.length + 3 := List.length_replicate
  have hne {other : List Char} (h : other.length ≤ names.flatten.length + 2) : name ≠ other := by
    rintro rfl
    omega
  refine ⟨name, ⟨hne (Nat.zero_le _), fun hmem => ?_, hne (Nat.le_add_left 1 _),
    hne (Nat.le_add_left 2 _)⟩, fun hmem => ?_⟩
  · exact absurd (List.eq_of_mem_replicate hmem) (by decide)
  · have hle := (List.sublist_flatten_of_mem hmem).length_le
    omega

theorem resolve_slash (h : Path.IsName name) (t : FileTree) :
    t.resolve ('/' :: name) = [String.ofList name] := by
  have hsegments : Text.segments '/' ('/' :: name) = [[], name] := by
    rw [Text.segments, if_pos rfl, h.segments_eq]
  show (Text.segments '/' ('/' :: name)).foldl follow [] = [String.ofList name]
  rw [hsegments, List.foldl_cons, List.foldl_cons, List.foldl_nil, follow_of_isName h]
  rfl

/-- There is a directory that names do not lead back to. -/
theorem exists_root (names : List (List Char)) : ∃ (root : String) (x : String),
    (∀ t : FileTree, t.resolve root.toList = [x]) ∧ ∀ name ∈ names, String.ofList name ≠ x := by
  obtain ⟨fresh, hfresh, hnotMem⟩ := exists_fresh names
  refine ⟨String.ofList ('/' :: fresh), String.ofList fresh, fun t => ?_, fun name hmem heq => ?_⟩
  · rw [String.toList_ofList, resolve_slash hfresh]
  · rw [String.ofList_inj] at heq
    exact hnotMem (heq ▸ hmem)

/-- A path leads below every directory that it is joined to if it is relative and descends, and
only then. -/
theorem below_iff : (∀ (t : FileTree) (root : String),
      Below (t.resolve root.toList) (t.resolve (Path.join root.toList part))) ↔
    Path.isAbsolute part = false ∧
      ∃ inner, descend? [] (Text.segments '/' part) = some inner ∧ inner ≠ [] := by
  constructor
  · intro hall
    have hpart : Path.isAbsolute part = false := by
      -- An absolute path is not below itself.
      by_contra habsolute
      have hself := hall {} (String.ofList part)
      rw [String.toList_ofList, resolve_join_of_isAbsolute (eq_true_of_ne_false habsolute)] at hself
      exact hself.2 rfl
    obtain ⟨root, x, hroot, hnames⟩ := exists_root (Text.segments '/' part)
    have hbelow := hall {} root
    cases hdescent : descend? [] (Text.segments '/' part) with
    | none =>
      have hlost := notMem_of_descend?_eq_none hdescent hnames
      rw [resolve_join hpart, hroot] at hbelow
      exact absurd (hbelow.1.subset List.mem_cons_self) hlost
    | some inner =>
      rw [resolve_join_of_descend? hpart hdescent, below_append_iff] at hbelow
      exact ⟨hpart, inner, rfl, hbelow⟩
  · rintro ⟨hpart, inner, hdescent, hne⟩ t root
    rw [resolve_join_of_descend? hpart hdescent, below_append_iff]
    exact hne

/-- The file of a relative path below a directory that is below another: it stays in the first
wherever the other is if the names before its own end there without leading out of the other, and
only then. -/
theorem below_join_iff (hbase : Path.isAbsolute base = false)
    (hinner : descend? [] (Text.segments '/' base) = some inner)
    (hpart : Path.isAbsolute part = false)
    (hsegments : Text.segments '/' part = names ++ [last]) (hlast : Path.IsName last) :
    (∀ (t : FileTree) (root : String), Below (t.resolve (Path.join root.toList base))
      (t.resolve (Path.join (Path.join root.toList base) part))) ↔
      ∃ deeper, descend? inner names = some deeper ∧ inner <+: deeper := by
  have houter (t : FileTree) (root : String) :=
    resolve_join_of_descend? hbase hinner t root.toList
  have hfile (t : FileTree) (root : String) :
      t.resolve (Path.join (Path.join root.toList base) part) =
        names.foldl follow (t.resolve root.toList ++ inner) ++ [String.ofList last] := by
    rw [resolve_join hpart, houter, hsegments, List.foldl_append, List.foldl_cons, List.foldl_nil,
      follow_of_isName hlast]
  have hstays {deeper : Place} (hdeeper : descend? inner names = some deeper) (t : FileTree)
      (root : String) : Below (t.resolve (Path.join root.toList base))
        (t.resolve (Path.join (Path.join root.toList base) part)) ↔ inner <+: deeper := by
    rw [houter, hfile, foldl_follow_of_descend? hdeeper, List.append_assoc,
      below_append_append_iff, below_concat_iff]
  constructor
  · intro hall
    obtain ⟨root, x, hroot, hnames⟩ := exists_root names
    have hbelow := hall {} root
    cases hdeeper : descend? inner names with
    | none =>
      have hlost := notMem_of_descend?_eq_none hdeeper hnames
      rw [houter, hfile, hroot, below_concat_iff] at hbelow
      exact absurd (hbelow.subset List.mem_cons_self) hlost
    | some deeper => exact ⟨deeper, rfl, (hstays hdeeper {} root).mp hbelow⟩
  · rintro ⟨deeper, hdeeper, hbegins⟩ t root
    exact (hstays hdeeper t root).mpr hbegins

end RecordArchive.FileTree
