import RecordArchive.Proofs.Store.Paths
import RecordArchive.Store.FileTree

/-!
# Walking and digging

A path is followed name by name through directories, and directories that are missing are made
on the way.  Following it again leads to the same place without making anything, as long as no
directory is taken away: `walk_makeDirectories` and `makeDirectories_of_walk`.  Names that no
file stands in the way of can always be dug: `makeDirectories_names`.
-/

namespace RecordArchive.FileTree

variable {t t' : FileTree} {place next : Place} {name : List Char} {names : List (List Char)}

/-! ## Entries -/

theorem entry?_put (t : FileTree) (hne : place ≠ []) (entry : Entry) (other : Place) :
    FileTree.entry? (t.put place entry) other =
      if other = place then some entry else t.entry? other := by
  by_cases heq : other = place
  · subst heq
    rw [if_pos rfl]
    cases other with
    | nil => exact absurd rfl hne
    | cons first rest => exact Dictionary.find?_insert_self _ _ _
  · rw [if_neg heq]
    cases other with
    | nil => rfl
    | cons first rest => exact Dictionary.find?_insert_of_ne heq _ _

/-- A tree that has become another one by making directories. -/
structure Digs (t t' : FileTree) : Prop where
  here_eq : t'.here = t.here
  entry?_eq : ∀ place, t'.entry? place = t.entry? place ∨
    t.entry? place = none ∧ t'.entry? place = some .directory

/-- Every directory of a tree is one of another, which starts at the same place. -/
structure Opens (t t' : FileTree) : Prop where
  here_eq : t'.here = t.here
  directory : ∀ place, t.entry? place = some .directory → t'.entry? place = some .directory

theorem Digs.refl (t : FileTree) : t.Digs t := ⟨rfl, fun _ => Or.inl rfl⟩

theorem Digs.trans {t'' : FileTree} (h : t.Digs t') (h' : t'.Digs t'') : t.Digs t'' := by
  refine ⟨h'.here_eq.trans h.here_eq, fun place => ?_⟩
  rcases h'.entry?_eq place with hsame | ⟨hnone, hmade⟩
  · rw [hsame]
    exact h.entry?_eq place
  · rcases h.entry?_eq place with hsame | ⟨-, hdirectory⟩
    · exact Or.inr ⟨hsame ▸ hnone, hmade⟩
    · rw [hdirectory] at hnone
      cases hnone

theorem Digs.opens (h : t.Digs t') : t.Opens t' := by
  refine ⟨h.here_eq, fun place hplace => ?_⟩
  rcases h.entry?_eq place with hsame | ⟨hnone, -⟩
  · rw [hsame, hplace]
  · rw [hplace] at hnone
    cases hnone

theorem Opens.trans {t'' : FileTree} (h : t.Opens t') (h' : t'.Opens t'') : t.Opens t'' :=
  ⟨h'.here_eq.trans h.here_eq, fun place hplace => h'.directory place (h.directory place hplace)⟩

/-- Making directories leaves the files as they are. -/
theorem Digs.file_iff (h : t.Digs t') (place : Place) (content : Bytes) :
    t'.entry? place = some (.file content) ↔ t.entry? place = some (.file content) := by
  rcases h.entry?_eq place with hsame | ⟨hnone, hmade⟩
  · rw [hsame]
  · rw [hnone, hmade]
    simp

theorem Opens.start_eq (h : t.Opens t') (path : List Char) : t'.start path = t.start path := by
  rw [start, start, h.here_eq]

/-- A file that is written where no directory stands takes none away. -/
theorem opens_put (hne : place ≠ []) (h : t.entry? place ≠ some .directory) (entry : Entry) :
    t.Opens (t.put place entry) := by
  refine ⟨rfl, fun other hother => ?_⟩
  have hother' : other ≠ place := by
    rintro rfl
    exact h hother
  rw [entry?_put t hne, if_neg hother', hother]

theorem digs_put_directory (hne : place ≠ []) (h : t.entry? place = none) :
    t.Digs (t.put place .directory) := by
  refine ⟨rfl, fun other => ?_⟩
  rw [entry?_put t hne]
  by_cases hother : other = place
  · rw [if_pos hother, hother]
    exact Or.inr ⟨h, rfl⟩
  · rw [if_neg hother]
    exact Or.inl rfl

/-! ## Walks -/

/-- The place that a name leads to, whatever is there. -/
def follow (place : Place) (name : List Char) : Place :=
  if name.isEmpty || name == Path.self then place
  else if name = Path.up then place.dropLast
  else place ++ [String.ofList name]

/-- The place that a path names, whatever is there. -/
def resolve (t : FileTree) (path : List Char) : Place :=
  (Text.segments '/' path).foldl follow (t.start path)

/-- The directory that names lead to one after the other. -/
def walk (t : FileTree) (place : Place) (names : List (List Char)) : Except PathFault Place :=
  names.foldlM t.enter place

theorem walk_cons (t : FileTree) (place : Place) (name : List Char) (rest : List (List Char)) :
    t.walk place (name :: rest) = (t.enter place name >>= fun next => t.walk next rest) :=
  List.foldlM_cons

theorem walk_cons_of_ok (h : t.enter place name = .ok next) (rest : List (List Char)) :
    t.walk place (name :: rest) = t.walk next rest := by
  rw [walk_cons, h]
  rfl

/-- A name of its own leads to the directory of that name. -/
theorem enter_directory (hpassed : ¬(name.isEmpty || name == Path.self) = true)
    (hup : name ≠ Path.up) (h : t.entry? (place ++ [String.ofList name]) = some .directory) :
    t.enter place name = .ok (place ++ [String.ofList name]) := by
  unfold enter
  simp only [hpassed, hup, h, if_false, Bool.false_eq_true]

/-- A directory that can be entered is one, or it is passed over, or it is the one above. -/
theorem enter_cases (h : t.enter place name = .ok next) : next = follow place name ∧
    ((name.isEmpty || name == Path.self) = true ∨ name = Path.up ∨
      t.entry? (place ++ [String.ofList name]) = some .directory) := by
  unfold enter at h
  unfold follow
  by_cases hpassed : (name.isEmpty || name == Path.self) = true
  · rw [if_pos hpassed] at h ⊢
    exact ⟨(Except.ok.inj h).symm, Or.inl hpassed⟩
  rw [if_neg hpassed] at h ⊢
  by_cases hup : name = Path.up
  · rw [if_pos hup] at h ⊢
    exact ⟨(Except.ok.inj h).symm, Or.inr (Or.inl hup)⟩
  rw [if_neg hup] at h ⊢
  cases hentry : t.entry? (place ++ [String.ofList name]) with
  | none => simp [hentry] at h
  | some entry =>
    cases entry with
    | file content => simp [hentry] at h
    | directory =>
      simp only [hentry, Except.ok.injEq] at h
      exact ⟨h.symm, Or.inr (Or.inr rfl)⟩

theorem enter_mono (hopens : t.Opens t') (h : t.enter place name = .ok next) :
    t'.enter place name = .ok next := by
  obtain ⟨hnext, hname⟩ := enter_cases h
  rw [hnext, follow]
  by_cases hpassed : (name.isEmpty || name == Path.self) = true
  · rw [enter, if_pos hpassed, if_pos hpassed]
  rw [if_neg hpassed]
  by_cases hup : name = Path.up
  · rw [enter, if_neg hpassed, if_pos hup, if_pos hup]
  have hentry := (hname.resolve_left hpassed).resolve_left hup
  rw [if_neg hup, enter_directory hpassed hup (hopens.directory _ hentry)]

theorem walk_mono (hopens : t.Opens t') (h : t.walk place names = .ok next) :
    t'.walk place names = .ok next := by
  induction names generalizing place with
  | nil => exact h
  | cons name rest ih =>
    cases henter : t.enter place name with
    | error fault =>
      rw [walk_cons, henter] at h
      cases h
    | ok inner =>
      rw [walk_cons_of_ok henter] at h
      rw [walk_cons_of_ok (enter_mono hopens henter), ih h]

/-- Empty names and those of the directory itself make no difference to a walk. -/
theorem walk_filter (t : FileTree) (place : Place) (names : List (List Char)) :
    t.walk place (names.filter fun name => !name.isEmpty && name != Path.self) =
      t.walk place names := by
  induction names generalizing place with
  | nil => rfl
  | cons name rest ih =>
    by_cases hpassed : (name.isEmpty || name == Path.self) = true
    · have hdropped : (!name.isEmpty && name != Path.self) = false := by
        rcases Bool.or_eq_true_iff.mp hpassed with hname | hname <;> simp [bne, hname]
      have henter : t.enter place name = .ok place := by rw [enter, if_pos hpassed]
      rw [List.filter_cons, hdropped, if_neg Bool.false_ne_true, walk_cons_of_ok henter, ih]
    · have hkept : (!name.isEmpty && name != Path.self) = true := by
        rw [Bool.not_eq_true, Bool.or_eq_false_iff] at hpassed
        simp [bne, hpassed.1, hpassed.2]
      rw [List.filter_cons, hkept, if_pos rfl, walk_cons, walk_cons]
      exact congrArg _ (funext fun inner => ih inner)

theorem eq_foldl_of_walk (h : t.walk place names = .ok next) : next = names.foldl follow place := by
  induction names generalizing place with
  | nil => exact (Except.ok.inj h).symm
  | cons name rest ih =>
    cases henter : t.enter place name with
    | error fault =>
      rw [walk_cons, henter] at h
      cases h
    | ok inner =>
      rw [walk_cons_of_ok henter] at h
      rw [ih h, List.foldl_cons, (enter_cases henter).1]

/-! ## Making directories -/

theorem makeDirectory_cases (t : FileTree) (place : Place) (name : List Char) :
    (∃ next, t.enter place name = .ok next ∧ t.makeDirectory place name = (.ok next, t)) ∨
      (t.enter place name = .error .notFound ∧
        t.makeDirectory place name = (.ok (place ++ [String.ofList name]),
          t.put (place ++ [String.ofList name]) .directory)) ∨
      ∃ fault, t.enter place name = .error fault ∧ fault ≠ .notFound ∧
        t.makeDirectory place name = (.error fault, t) := by
  unfold makeDirectory
  cases henter : t.enter place name with
  | ok next => exact Or.inl ⟨next, rfl, rfl⟩
  | error fault =>
    cases fault with
    | notFound => exact Or.inr (Or.inl ⟨rfl, rfl⟩)
    | notDirectory | isDirectory | nameTooLong | zeroCharacter =>
      exact Or.inr (Or.inr ⟨_, rfl, by simp, rfl⟩)

/-- What is not found is nowhere, under a name of its own. -/
theorem enter_eq_notFound_iff : t.enter place name = .error .notFound ↔
    ¬(name.isEmpty || name == Path.self) = true ∧ name ≠ Path.up ∧
      t.entry? (place ++ [String.ofList name]) = none ∧ isTooLong (String.ofList name) = false := by
  by_cases hpassed : (name.isEmpty || name == Path.self) = true
  · simp [enter, hpassed]
  by_cases hup : name = Path.up
  · rw [enter, if_neg hpassed, if_pos hup]
    simp [hup]
  rw [enter, if_neg hpassed, if_neg hup]
  simp only [hpassed, hup, not_false_eq_true, true_and, ne_eq]
  cases hentry : t.entry? (place ++ [String.ofList name]) with
  | some entry => cases entry <;> simp
  | none =>
    simp only [true_and]
    by_cases hlong : isTooLong (String.ofList name) = true
    · simp [hlong]
    · simp [hlong]

theorem digs_makeDirectory (t : FileTree) (place : Place) (name : List Char) :
    t.Digs (t.makeDirectory place name).2 := by
  rcases t.makeDirectory_cases place name with ⟨next, -, hmake⟩ | ⟨henter, hmake⟩ |
    ⟨fault, -, -, hmake⟩
  · rw [hmake]
    exact Digs.refl t
  · rw [hmake]
    exact digs_put_directory (by simp) (enter_eq_notFound_iff.mp henter).2.2.1
  · rw [hmake]
    exact Digs.refl t

theorem makeDirectories_cons_of_ok {inner : FileTree}
    (h : t.makeDirectory place name = (.ok next, inner)) (rest : List (List Char)) :
    t.makeDirectories place (name :: rest) = inner.makeDirectories next rest := by
  rw [makeDirectories, h]

theorem digs_makeDirectories (t : FileTree) (place : Place) (names : List (List Char)) :
    t.Digs (t.makeDirectories place names).2 := by
  induction names generalizing t place with
  | nil => exact Digs.refl t
  | cons name rest ih =>
    have hfirst := t.digs_makeDirectory place name
    unfold makeDirectories
    cases hmake : t.makeDirectory place name with
    | mk answer inner =>
      rw [hmake] at hfirst
      cases answer with
      | error fault => exact hfirst
      | ok next => exact hfirst.trans (ih inner next)

/-- A directory that has been made can be entered. -/
theorem enter_makeDirectory (h : t.makeDirectory place name = (.ok next, t')) :
    t'.enter place name = .ok next := by
  rcases t.makeDirectory_cases place name with ⟨inner, henter, hmake⟩ | ⟨henter, hmake⟩ |
    ⟨fault, -, -, hmake⟩
  · rw [hmake] at h
    obtain ⟨hanswer, rfl⟩ := Prod.mk.inj h
    rw [henter, hanswer]
  · rw [hmake] at h
    obtain ⟨hanswer, rfl⟩ := Prod.mk.inj h
    obtain ⟨hpassed, hup, -, -⟩ := enter_eq_notFound_iff.mp henter
    have hmade : FileTree.entry? (t.put (place ++ [String.ofList name]) .directory)
        (place ++ [String.ofList name]) = some .directory := by
      rw [entry?_put t (by simp), if_pos rfl]
    rw [enter_directory hpassed hup hmade]
    exact hanswer
  · rw [hmake] at h
    cases h

theorem walk_makeDirectories (h : t.makeDirectories place names = (.ok next, t')) :
    t'.walk place names = .ok next := by
  induction names generalizing t place with
  | nil =>
    obtain ⟨hanswer, rfl⟩ := Prod.mk.inj h
    exact hanswer
  | cons name rest ih =>
    rw [makeDirectories] at h
    cases hmake : t.makeDirectory place name with
    | mk answer inner =>
      cases answer with
      | error fault =>
        rw [hmake] at h
        cases h
      | ok step =>
        rw [hmake] at h
        have hrest : inner.makeDirectories step rest = (.ok next, t') := h
        have hdigs := inner.digs_makeDirectories step rest
        rw [hrest] at hdigs
        rw [walk_cons_of_ok (enter_mono hdigs.opens (enter_makeDirectory hmake)), ih hrest]

theorem makeDirectories_of_walk (h : t.walk place names = .ok next) :
    t.makeDirectories place names = (.ok next, t) := by
  induction names generalizing place with
  | nil => exact congrArg (·, t) h
  | cons name rest ih =>
    cases henter : t.enter place name with
    | error fault =>
      rw [walk_cons, henter] at h
      cases h
    | ok inner =>
      have hmake : t.makeDirectory place name = (.ok inner, t) := by rw [makeDirectory, henter]
      rw [walk_cons_of_ok henter] at h
      rw [makeDirectories_cons_of_ok hmake, ih h]

theorem makeDirectories_append (h : t.makeDirectories place names = (.ok next, t'))
    (rest : List (List Char)) :
    t.makeDirectories place (names ++ rest) = t'.makeDirectories next rest := by
  induction names generalizing t place with
  | nil =>
    obtain ⟨hanswer, rfl⟩ := Prod.mk.inj h
    rw [List.nil_append, Except.ok.inj hanswer]
  | cons name more ih =>
    rw [makeDirectories] at h
    cases hmake : t.makeDirectory place name with
    | mk answer inner =>
      cases answer with
      | error fault =>
        rw [hmake] at h
        cases h
      | ok step =>
        rw [hmake] at h
        rw [List.cons_append, makeDirectories_cons_of_ok hmake, ih h]

/-- Names are dug one inside the other where no file is in the way, and nothing else is. -/
theorem makeDirectories_names (hnames : ∀ name ∈ names, Path.IsName name)
    (hshort : ∀ name ∈ names, isTooLong (String.ofList name) = false)
    (hfree : ∀ front, front ≠ [] → front <+: names →
      ∀ content, t.entry? (place ++ front.map String.ofList) ≠ some (.file content)) :
    ∃ made, t.makeDirectories place names = (.ok (place ++ names.map String.ofList), made) ∧
      ∀ other, made.entry? other = t.entry? other ∨
        ∃ front, front ≠ [] ∧ front <+: names ∧ other = place ++ front.map String.ofList := by
  induction names generalizing t place with
  | nil => exact ⟨t, by rw [List.map_nil, List.append_nil]; rfl, fun _ => Or.inl rfl⟩
  | cons name rest ih =>
    obtain ⟨hname, hrest⟩ := List.forall_mem_cons.mp hnames
    obtain ⟨hlength, hlengths⟩ := List.forall_mem_cons.mp hshort
    have hpassed : ¬(name.isEmpty || name == Path.self) = true := by
      simp [hname.ne_nil, hname.ne_self]
    have hhere : [name] <+: name :: rest := ⟨rest, rfl⟩
    have hnofile := hfree [name] (by simp) hhere
    rw [List.map_singleton] at hnofile
    -- The first name leads to a directory, which is there or is made.
    obtain ⟨inner, hmake, hdigs, hinner⟩ : ∃ inner,
        t.makeDirectory place name = (.ok (place ++ [String.ofList name]), inner) ∧
          t.Digs inner ∧ ∀ other, other ≠ place ++ [String.ofList name] →
            inner.entry? other = t.entry? other := by
      cases hentry : t.entry? (place ++ [String.ofList name]) with
      | some entry =>
        cases entry with
        | file content => exact absurd hentry (hnofile content)
        | directory =>
          have henter := enter_directory hpassed hname.ne_up hentry
          exact ⟨t, by rw [makeDirectory, henter], Digs.refl t, fun _ _ => rfl⟩
      | none =>
        have henter := enter_eq_notFound_iff.mpr ⟨hpassed, hname.ne_up, hentry, hlength⟩
        refine ⟨t.put (place ++ [String.ofList name]) .directory, by rw [makeDirectory, henter],
          digs_put_directory (by simp) hentry, fun other hother => ?_⟩
        rw [entry?_put t (by simp), if_neg hother]
    have hnext : ∀ front, front ≠ [] → front <+: rest → ∀ content,
        inner.entry? (place ++ [String.ofList name] ++ front.map String.ofList) ≠
          some (.file content) := by
      intro front _ hbegins content
      rw [ne_eq, hdigs.file_iff, List.append_assoc]
      exact hfree (name :: front) (by simp) (List.cons_prefix_cons.mpr ⟨rfl, hbegins⟩) content
    obtain ⟨made, hmade, hothers⟩ := ih hrest hlengths hnext
    refine ⟨made, ?_, fun other => ?_⟩
    · rw [makeDirectories_cons_of_ok hmake, hmade, List.append_assoc]
      rfl
    · rcases hothers other with hsame | ⟨front, hne, hbegins, heq⟩
      · by_cases hfirst : other = place ++ [String.ofList name]
        · exact Or.inr ⟨[name], by simp, hhere, hfirst⟩
        · exact Or.inl (hsame.trans (hinner other hfirst))
      · refine Or.inr ⟨name :: front, by simp, List.cons_prefix_cons.mpr ⟨rfl, hbegins⟩, ?_⟩
        rw [heq, List.append_assoc]
        rfl

/-! ## Places of files -/

/-- A path leads to a file through the directories before its last name, and by that name. -/
theorem locate_eq_ok_iff {path last : List Char}
    (hsegments : Text.segments '/' path = names ++ [last]) : t.locate path = .ok place ↔
      checkText path = .ok () ∧ (last.isEmpty || last == Path.self || last == Path.up) = false ∧
        isTooLong (String.ofList last) = false ∧ ∃ inner,
          t.walk (t.start path) names = .ok inner ∧ place = inner ++ [String.ofList last] := by
  unfold locate
  simp only [hsegments, List.dropLast_concat, List.getLast?_concat, Option.getD_some]
  cases hcheck : checkText path with
  | error fault => simp [bind, Except.bind]
  | ok u =>
    show (t.walk (t.start path) names >>= _) = _ ↔ _
    cases hwalk : t.walk (t.start path) names with
    | error fault => simp [bind, Except.bind]
    | ok inner =>
      simp only [bind, Except.bind, true_and, Except.ok.injEq, exists_eq_left']
      by_cases hnone : (last.isEmpty || last == Path.self || last == Path.up) = true
      · simp [hnone]
      by_cases hlong : isTooLong (String.ofList last) = true
      · simp [hnone, hlong]
      rw [if_neg hnone, if_neg hlong]
      rw [Bool.not_eq_true] at hnone hlong
      simp [hnone, hlong, pure, Except.pure, eq_comm]

theorem exists_segments (path : List Char) :
    ∃ names last, Text.segments '/' path = names ++ [last] := by
  rcases (Text.segments '/' path).eq_nil_or_concat' with hnil | ⟨names, last, h⟩
  · exact absurd hnil (Text.segments_ne_nil '/' path)
  · exact ⟨names, last, h⟩

theorem locate_mono {path : List Char} (hopens : t.Opens t') (h : t.locate path = .ok place) :
    t'.locate path = .ok place := by
  obtain ⟨names, last, hsegments⟩ := exists_segments path
  obtain ⟨hcheck, hlast, hshort, inner, hwalk, hplace⟩ := (locate_eq_ok_iff hsegments).mp h
  refine (locate_eq_ok_iff hsegments).mpr ⟨hcheck, hlast, hshort, inner, ?_, hplace⟩
  rw [hopens.start_eq]
  exact walk_mono hopens hwalk

/-- The place of a file is the one that its path names whatever is there. -/
theorem resolve_of_locate {path : List Char} (h : t.locate path = .ok place) :
    t.resolve path = place := by
  obtain ⟨names, last, hsegments⟩ := exists_segments path
  obtain ⟨-, hlast, -, inner, hwalk, rfl⟩ := (locate_eq_ok_iff hsegments).mp h
  obtain ⟨hpassed, hup⟩ := Bool.or_eq_false_iff.mp hlast
  rw [resolve, hsegments, List.foldl_append, ← eq_foldl_of_walk hwalk, List.foldl_cons,
    List.foldl_nil, follow, hpassed, if_neg Bool.false_ne_true, if_neg (beq_eq_false_iff_ne.mp hup)]

theorem locate_of_walk {path last : List Char} (hcheck : checkText path = .ok ())
    (hsegments : Text.segments '/' path = names ++ [last]) (hlast : Path.IsName last)
    (hshort : isTooLong (String.ofList last) = false)
    (hwalk : t.walk (t.start path) names = .ok place) :
    t.locate path = .ok (place ++ [String.ofList last]) := by
  refine (locate_eq_ok_iff hsegments).mpr ⟨hcheck, ?_, hshort, place, hwalk, rfl⟩
  simp [hlast.ne_nil, hlast.ne_self, hlast.ne_up]

theorem read_of_locate {path : String} {content : Bytes} (hlocate : t.locate path.toList = .ok place)
    (hentry : t.entry? place = some (.file content)) : t.read path = .ok content := by
  simp [read, hlocate, hentry, bind, Except.bind, pure, Except.pure]

theorem write_of_locate {path : List Char} (hlocate : t.locate path = .ok place)
    (hfree : t.entry? place ≠ some .directory) (content : Bytes) :
    t.write path content = .ok (t.put place (.file content)) := by
  cases hentry : t.entry? place with
  | none => simp [write, hlocate, hentry, bind, Except.bind, pure, Except.pure]
  | some entry =>
    cases entry with
    | directory => exact absurd hentry hfree
    | file old => simp [write, hlocate, hentry, bind, Except.bind, pure, Except.pure]

/-! ## Texts of paths -/

theorem utf8ByteSize_le_of_sublist {cs cs' : List Char} (h : cs.Sublist cs') :
    (String.ofList cs).utf8ByteSize ≤ (String.ofList cs').utf8ByteSize := by
  have hcons (c : Char) (rest : List Char) : (String.ofList (c :: rest)).utf8ByteSize =
      c.utf8Size + (String.ofList rest).utf8ByteSize := by
    rw [String.ofList_cons, String.utf8ByteSize_append, String.utf8ByteSize_singleton]
  induction h with
  | slnil => exact Nat.le_refl _
  | cons c _ ih =>
    rw [hcons]
    omega
  | cons_cons c _ ih =>
    rw [hcons, hcons]
    omega

/-- A path has a text that a path can have if it is a part of one that has. -/
theorem checkText_of_sublist {cs cs' : List Char} (hsub : cs.Sublist cs')
    (h : checkText cs' = .ok ()) : checkText cs = .ok () := by
  have hsize := utf8ByteSize_le_of_sublist hsub
  unfold checkText at h ⊢
  by_cases hzero' : cs'.contains '\x00' = true
  · rw [if_pos hzero'] at h
    cases h
  rw [if_neg hzero'] at h
  by_cases hlong' : greatestPath < (String.ofList cs').utf8ByteSize
  · rw [if_pos hlong'] at h
    cases h
  have hzero : ¬cs.contains '\x00' = true := by
    rw [List.contains_iff_mem] at hzero' ⊢
    exact fun hmem => hzero' (hsub.subset hmem)
  rw [if_neg hzero, if_neg (by omega)]

end RecordArchive.FileTree
