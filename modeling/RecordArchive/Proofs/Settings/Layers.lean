import RecordArchive.Proofs.Dictionary
import RecordArchive.Settings.Layer

/-!
# What an upper layer leaves of a lower one

Merging looks at tables alone, entry by entry.  An upper layer hides a lower one if it sets
all that the lower one sets, where it is left open which names count as one.  The main
statements are `find?_mergeEntries`, what is found after merging, `hides_merge`, that what
hides two layers hides the two merged, and `merge_eq_of_hides`, that nothing is left of a
layer that is hidden name by name.
-/

namespace RecordArchive

namespace Json

/-- The entries of a table are in order, and those of the tables in it. -/
inductive Ordered : Json → Prop
  | table {entries : List (String × Json)} (hsorted : entries.Pairwise fun a b => a.1 < b.1)
      (hentries : ∀ entry ∈ entries, Ordered entry.2) : Ordered (.object entries)
  | value {v : Json} (hvalue : v.isObject = false) : Ordered v

theorem Ordered.sorted {entries : List (String × Json)} (h : Ordered (.object entries)) :
    entries.Pairwise fun a b => a.1 < b.1 := by
  cases h with
  | table hsorted => exact hsorted
  | value hvalue => cases hvalue

theorem Ordered.mem {entries : List (String × Json)} (h : Ordered (.object entries))
    {entry : String × Json} (hmem : entry ∈ entries) : Ordered entry.2 := by
  cases h with
  | table _ hentries => exact hentries entry hmem
  | value hvalue => cases hvalue

theorem ordered_empty : Ordered (.object []) := .table .nil (List.forall_mem_nil _)

theorem ordered_insert {entries : List (String × Json)} (h : Ordered (.object entries))
    (key : String) {v : Json} (hv : Ordered v) :
    Ordered (.object (Dictionary.insert key v entries)) := by
  refine .table (Dictionary.pairwise_insert h.sorted key v) fun entry hmem => ?_
  rcases Dictionary.mem_insert hmem with rfl | hmem
  · exact hv
  · exact h.mem hmem

theorem ordered_ofFields {entries : List (String × Json)}
    (h : ∀ entry ∈ entries, Ordered entry.2) : Ordered (ofFields entries) := by
  have hfold (kept : Dictionary String Json) (hkept : Ordered (.object kept)) :
      Ordered (.object
        (entries.foldl (fun d entry => Dictionary.insert entry.1 entry.2 d) kept)) := by
    induction entries generalizing kept with
    | nil => exact hkept
    | cons entry rest ih =>
      obtain ⟨hentry, hrest⟩ := List.forall_mem_cons.mp h
      exact ih hrest _ (ordered_insert hkept entry.1 hentry)
  exact hfold [] ordered_empty

end Json

namespace Layer

open Json (Ordered)

variable {lower upper : Json} {below entries : List (String × Json)}

/-! ## Merging -/

theorem merge_of_value (h : upper.isObject = false) : merge lower upper = upper := by
  cases upper with
  | object entries => cases h
  | _ => rw [merge]; exact fun _ h => nomatch h

theorem merge_above_value (h : lower.isObject = false) :
    merge lower (.object entries) = .object entries := by
  cases lower with
  | object below => cases h
  | _ => rw [merge]; exact fun _ h => nomatch h

theorem merge_tables (below entries : List (String × Json)) :
    merge (.object below) (.object entries) = .object (mergeEntries below entries) := by
  rw [merge]

theorem pairwise_mergeEntries (h : below.Pairwise fun a b => a.1 < b.1)
    (entries : List (String × Json)) :
    (mergeEntries below entries).Pairwise fun a b => a.1 < b.1 := by
  induction entries generalizing below with
  | nil => exact h
  | cons entry rest ih =>
    rw [mergeEntries]
    exact ih (Dictionary.pairwise_insert h entry.1 _)

/-- What is found under a name where an old value stands below a new one. -/
def above (old new : Option Json) : Option Json :=
  match new with
  | some v => some (match old with
    | some w => merge w v
    | none => v)
  | none => old

theorem find?_mergeEntries (h : entries.Pairwise fun a b => a.1 < b.1)
    (below : List (String × Json)) (key : String) :
    Dictionary.find? key (mergeEntries below entries) =
      above (Dictionary.find? key below) (Dictionary.find? key entries) := by
  induction entries generalizing below with
  | nil => rfl
  | cons entry rest ih =>
    obtain ⟨name, value⟩ := entry
    obtain ⟨hfirst, hrest⟩ := List.pairwise_cons.mp h
    rw [mergeEntries, ih hrest]
    by_cases hkey : key = name
    · subst hkey
      have hnone : Dictionary.find? key rest = none := by
        cases hfind : Dictionary.find? key rest with
        | none => rfl
        | some found =>
          exact absurd (hfirst _ (Dictionary.mem_of_find? hfind)) (String.lt_irrefl key)
      rw [Dictionary.find?_insert_self, hnone, Dictionary.find?, if_pos rfl]
      rfl
    · rw [Dictionary.find?_insert_of_ne hkey, Dictionary.find?, if_neg hkey]

theorem find?_mergeEntries_of_mem (hbelow : below.Pairwise fun a b => a.1 < b.1)
    (hentries : entries.Pairwise fun a b => a.1 < b.1) {key : String} {old new : Json}
    (hold : (key, old) ∈ below) (hnew : (key, new) ∈ entries) :
    Dictionary.find? key (mergeEntries below entries) = some (merge old new) := by
  rw [find?_mergeEntries hentries, Dictionary.find?_of_mem hbelow hold,
    Dictionary.find?_of_mem hentries hnew]
  rfl

theorem isSome_find?_mergeEntries (h : entries.Pairwise fun a b => a.1 < b.1)
    (below : List (String × Json)) (key : String) :
    (Dictionary.find? key (mergeEntries below entries)).isSome =
      ((Dictionary.find? key below).isSome || (Dictionary.find? key entries).isSome) := by
  rw [find?_mergeEntries h]
  cases Dictionary.find? key entries with
  | none => exact (Bool.or_false _).symm
  | some v => exact (Bool.or_true _).symm

theorem merge_empty (h : entries.Pairwise fun a b => a.1 < b.1) :
    merge (.object []) (.object entries) = .object entries := by
  rw [merge_tables]
  refine congrArg Json.object
    (Dictionary.ext_of_find? (pairwise_mergeEntries .nil entries) h fun key => ?_)
  rw [find?_mergeEntries h]
  cases Dictionary.find? key entries <;> rfl

/-- What holds of the entries of both tables, and of those made of both, holds of the
entries of the merged one. -/
theorem forall_mem_mergeEntries {P : String → Json → Prop}
    (hbelow : ∀ entry ∈ below, P entry.1 entry.2)
    (hentries : ∀ entry ∈ entries, P entry.1 entry.2)
    (hboth : ∀ name old new, P name old → (name, new) ∈ entries → P name (merge old new)) :
    ∀ entry ∈ mergeEntries below entries, P entry.1 entry.2 := by
  induction entries generalizing below with
  | nil => exact hbelow
  | cons entry rest ih =>
    obtain ⟨name, value⟩ := entry
    obtain ⟨hvalue, hrest⟩ := List.forall_mem_cons.mp hentries
    rw [mergeEntries]
    refine ih (fun entry hmem => ?_) hrest
      fun name old new hold hnew => hboth name old new hold (List.mem_cons_of_mem _ hnew)
    rcases Dictionary.mem_insert hmem with rfl | hmem
    · cases hfind : Dictionary.find? name below with
      | none => exact hvalue
      | some old =>
        exact hboth name old value (hbelow _ (Dictionary.mem_of_find? hfind)) List.mem_cons_self
    · exact hbelow entry hmem

theorem ordered_merge (hlower : Ordered lower) (hupper : Ordered upper) :
    Ordered (merge lower upper) := by
  induction hupper generalizing lower with
  | value hvalue =>
    rw [merge_of_value hvalue]
    exact .value hvalue
  | @table entries hsorted hentries ih =>
    cases hlower with
    | value hvalue =>
      rw [merge_above_value hvalue]
      exact .table hsorted hentries
    | @table below hbelow hinside =>
      rw [merge_tables]
      exact .table (pairwise_mergeEntries hbelow entries)
        (forall_mem_mergeEntries (P := fun _ v => Ordered v) hinside hentries
          fun name old new hold hnew => ih (name, new) hnew hold)

/-! ## Hiding -/

mutual

/-- Whether all that a lower layer sets is set by an upper one.  Which names count as one
depends on the path that leads to the table.  Tables and other values hide each other. -/
def hides (alike : List String → String → String → Bool) (path : List String) :
    (upper lower : Json) → Bool
  | .object entries, .object below =>
    below.all fun entry =>
      (entries.any fun cover => alike path cover.1 entry.1) &&
        hidesUnder alike path entries entry.1 entry.2
  | _, _ => true

/-- Whether a value is hidden by all that stands under its name. -/
def hidesUnder (alike : List String → String → String → Bool) (path : List String) :
    List (String × Json) → String → Json → Bool
  | [], _, _ => true
  | (cover, upper) :: rest, name, lower =>
    (!alike path cover name || hides alike (path ++ [cover]) upper lower) &&
      hidesUnder alike path rest name lower

end

variable {alike alike' : List String → String → String → Bool} {path : List String}

theorem hidesUnder_iff (entries : List (String × Json)) (name : String) (v : Json) :
    hidesUnder alike path entries name v = true ↔
      ∀ cover ∈ entries, alike path cover.1 name = true →
        hides alike (path ++ [cover.1]) cover.2 v = true := by
  induction entries with
  | nil => simp [hidesUnder]
  | cons cover rest ih =>
    obtain ⟨key, upper⟩ := cover
    rw [hidesUnder, Bool.and_eq_true, ih, List.forall_mem_cons]
    refine and_congr_left fun _ => ?_
    cases alike path key name <;> simp

/-- An entry is hidden by a table that has its name, and in which whatever has its name
hides its value. -/
def HiddenIn (alike : List String → String → String → Bool) (path : List String)
    (entries : List (String × Json)) (name : String) (v : Json) : Prop :=
  (∃ cover ∈ entries, alike path cover.1 name = true) ∧
    ∀ cover ∈ entries, alike path cover.1 name = true →
      hides alike (path ++ [cover.1]) cover.2 v = true

theorem hides_tables_iff :
    hides alike path (.object entries) (.object below) = true ↔
      ∀ entry ∈ below, HiddenIn alike path entries entry.1 entry.2 := by
  simp only [hides, List.all_eq_true, Bool.and_eq_true, List.any_eq_true, hidesUnder_iff,
    HiddenIn]

theorem hides_of_value (h : upper.isObject = false) : hides alike path upper lower = true := by
  cases upper with
  | object entries => cases h
  | _ => simp only [hides]

theorem hides_value (h : lower.isObject = false) : hides alike path upper lower = true := by
  cases lower with
  | object below => cases h
  | _ => cases upper <;> simp only [hides]

/-- What hides two layers hides the two merged. -/
theorem hides_merge {first second : Json} (hupper : Ordered upper)
    (hfirst : hides alike path upper first = true)
    (hsecond : hides alike path upper second = true) :
    hides alike path upper (merge first second) = true := by
  induction hupper generalizing first second path with
  | value hvalue => exact hides_of_value hvalue
  | @table entries hsorted hentries ih =>
    cases second with
    | object later =>
      cases first with
      | object earlier =>
        rw [merge_tables]
        rw [hides_tables_iff] at hfirst hsecond ⊢
        refine forall_mem_mergeEntries hfirst hsecond fun name old new hold hnew => ?_
        refine ⟨hold.1, fun cover hcover hname => ?_⟩
        exact ih cover hcover (hold.2 cover hcover hname)
          ((hsecond (name, new) hnew).2 cover hcover hname)
      | _ => rwa [merge_above_value rfl]
    | _ => rwa [merge_of_value rfl]

/-- Two notions of a name that agree from a path on lead to the same. -/
theorem hides_congr (hupper : Ordered upper)
    (h : ∀ further cover name, alike (path ++ further) cover name =
      alike' (path ++ further) cover name) (lower : Json) :
    hides alike path upper lower = hides alike' path upper lower := by
  induction hupper generalizing lower path with
  | value hvalue => rw [hides_of_value hvalue, hides_of_value hvalue]
  | @table entries hsorted hentries ih =>
    cases lower with
    | object below =>
      have hhere (cover name : String) : alike path cover name = alike' path cover name := by
        simpa using h [] cover name
      have hinside (cover : String × Json) (hcover : cover ∈ entries) (v : Json) :
          hides alike (path ++ [cover.1]) cover.2 v = hides alike' (path ++ [cover.1]) cover.2 v :=
        ih cover hcover (fun further => by simpa using h (cover.1 :: further)) v
      rw [Bool.eq_iff_iff, hides_tables_iff, hides_tables_iff]
      refine forall₂_congr fun entry _ => ?_
      simp only [HiddenIn, hhere]
      refine and_congr_right fun _ => forall₂_congr fun cover hcover => ?_
      rw [hinside cover hcover]
    | _ => rw [hides_value rfl, hides_value rfl]

/-- Nothing is left of a layer that is hidden name by name. -/
theorem merge_eq_of_hides (hupper : Ordered upper) (hlower : Ordered lower)
    (halike : ∀ further cover name, alike (path ++ further) cover name = true → cover = name)
    (h : hides alike path upper lower = true) : merge lower upper = upper := by
  induction hupper generalizing lower path with
  | value hvalue => exact merge_of_value hvalue
  | @table entries hsorted hentries ih =>
    cases hlower with
    | value hvalue => exact merge_above_value hvalue
    | @table below hbelow hinside =>
      rw [merge_tables]
      rw [hides_tables_iff] at h
      refine congrArg Json.object
        (Dictionary.ext_of_find? (pairwise_mergeEntries hbelow entries) hsorted fun key => ?_)
      rw [find?_mergeEntries hsorted]
      cases hold : Dictionary.find? key below with
      | none => cases Dictionary.find? key entries <;> rfl
      | some old =>
        have hmem := Dictionary.mem_of_find? hold
        obtain ⟨⟨cover, hcover, hname⟩, hvalues⟩ := h _ hmem
        have hkey : cover.1 = key := halike [] cover.1 key (by simpa using hname)
        have hfind : Dictionary.find? key entries = some cover.2 :=
          hkey ▸ Dictionary.find?_of_mem hsorted hcover
        rw [hfind]
        refine congrArg some (ih cover hcover (hinside _ hmem) ?_ (hvalues cover hcover hname))
        exact fun further => by simpa using halike (cover.1 :: further)

end Layer

end RecordArchive
