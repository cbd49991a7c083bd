import RecordArchive.Proofs.Settings.Tables
import RecordArchive.Settings.Load

/-!
# Variables beside a file

A file wins over the variables, but the two are put together before their names are
understood.  A setting that has two names may then stand under both of them, and such a
table is refused.  `Settings.names` says when a name in the file and one in a variable are
names of one setting, `Settings.spells` when they are the same name.

The main statement is `ArchiveSettings.file_wins_iff_spelled`: variables that set only what
the file itself sets change nothing exactly if they spell its names as it does.  One half is
`Settings.archive_merge`, that nothing of such variables is left where a reader looks, the
other is `Settings.spells_of_archive`, that a reader accepts no other ones.
-/

namespace RecordArchive

namespace Settings

/-- The names of a setting that has two, by the path of the table in which it stands. -/
def aliases : List String → List String
  | [] => ["runtime", "supervisor_config"]
  | ["runtime"] | ["supervisor_config"] => ["queue_capacity", "channel_size"]
  | ["sink_config", "threshold"] => ["event_collect_secs", "event_collect"]
  | _ => []

/-- The names of alternatives by the path of the table in which they stand, each with what
is left of it in a variable, whose name has no capital letters. -/
def alternatives : List String → List (String × String)
  | ["source_config"] => [("File", "file"), ("InMemory", "inmemory")]
  | ["store_config"] => [("File", "file"), ("InMemory", "inmemory"), ("S3", "s3")]
  | _ => []

/-- Whether a name in the file is what a variable gives. -/
def spells (path : List String) (name given : String) : Bool :=
  name == given || (alternatives path).contains (name, given)

/-- Whether a name in the file and what a variable gives are names of one setting. -/
def names (path : List String) (name given : String) : Bool :=
  spells path name given || ((aliases path).contains name && (aliases path).contains given)

/-! ## Fields of tables in order -/

section

variable {d : List (String × Json)} {fieldNames : List String}

theorem mem_named (h : d.Pairwise fun a b => a.1 < b.1) (fieldNames : List String)
    (entry : String × Json) :
    entry ∈ d.filter (fun entry => fieldNames.contains entry.1) ↔
      Dictionary.find? entry.1 d = some entry.2 ∧ entry.1 ∈ fieldNames := by
  rw [List.mem_filter, ← Dictionary.mem_iff_find? h, List.contains_iff_mem]

theorem fieldIn_eq_none_iff (h : d.Pairwise fun a b => a.1 < b.1) :
    fieldIn d fieldNames = some none ↔
      ∀ name ∈ fieldNames, Dictionary.find? name d = none := by
  have hmem := mem_named h fieldNames
  unfold fieldIn
  generalize d.filter (fun entry => fieldNames.contains entry.1) = found at hmem
  constructor
  · intro hfound name hname
    rcases found with _ | ⟨first, _ | ⟨second, rest⟩⟩
    · cases hvalue : Dictionary.find? name d with
      | none => rfl
      | some w => cases (hmem (name, w)).mpr ⟨hvalue, hname⟩
    · cases hfound
    · cases hfound
  · intro hnone
    rcases found with _ | ⟨entry, rest⟩
    · rfl
    · obtain ⟨hvalue, hname⟩ := (hmem entry).mp List.mem_cons_self
      rw [hnone entry.1 hname] at hvalue
      cases hvalue

theorem fieldIn_eq_some_iff (h : d.Pairwise fun a b => a.1 < b.1) {v : Json} :
    fieldIn d fieldNames = some (some v) ↔
      ∃ name ∈ fieldNames, Dictionary.find? name d = some v ∧
        ∀ other ∈ fieldNames, other ≠ name → Dictionary.find? other d = none := by
  have hmem := mem_named h fieldNames
  have hnodup := (Dictionary.nodup_of_pairwise h).filter fun entry => fieldNames.contains entry.1
  unfold fieldIn
  generalize d.filter (fun entry => fieldNames.contains entry.1) = found at hmem hnodup
  constructor
  · intro hfound
    rcases found with _ | ⟨entry, _ | ⟨second, rest⟩⟩
    · cases hfound
    · obtain rfl := Option.some.inj (Option.some.inj hfound)
      obtain ⟨hfind, hname⟩ := (hmem entry).mp List.mem_cons_self
      refine ⟨entry.1, hname, hfind, fun other hother hne => ?_⟩
      cases hvalue : Dictionary.find? other d with
      | none => rfl
      | some w =>
        have hin := (hmem (other, w)).mpr ⟨hvalue, hother⟩
        exact absurd (congrArg Prod.fst (List.mem_singleton.mp hin)) hne
    · cases hfound
  · rintro ⟨name, hname, hfind, hothers⟩
    have hsame (entry : String × Json) (hentry : entry ∈ found) : entry = (name, v) := by
      obtain ⟨hvalue, hin⟩ := (hmem entry).mp hentry
      by_cases hkey : entry.1 = name
      · rw [hkey, hfind] at hvalue
        exact Prod.ext hkey (Option.some.inj hvalue).symm
      · rw [hothers entry.1 hin hkey] at hvalue
        cases hvalue
    have hin := (hmem (name, v)).mpr ⟨hfind, hname⟩
    rcases found with _ | ⟨first, _ | ⟨second, rest⟩⟩
    · cases hin
    · rw [hsame first List.mem_cons_self]
    · have htwice : first = second := (hsame first List.mem_cons_self).trans
        (hsame second (List.mem_cons_of_mem _ List.mem_cons_self)).symm
      exact absurd (htwice ▸ List.mem_cons_self) (List.nodup_cons.mp hnodup).1

theorem found_of_find? (h : d.Pairwise fun a b => a.1 < b.1) {found : Option Json}
    (hfield : fieldIn d fieldNames = some found) {name : String} (hname : name ∈ fieldNames)
    {v : Json} (hv : Dictionary.find? name d = some v) : found = some v := by
  cases found with
  | none =>
    rw [(fieldIn_eq_none_iff h).mp hfield name hname] at hv
    cases hv
  | some w =>
    obtain ⟨kept, -, hkept, hothers⟩ := (fieldIn_eq_some_iff h).mp hfield
    by_cases hsame : name = kept
    · rw [hsame, hkept] at hv
      exact hv
    · rw [hothers name hname hsame] at hv
      cases hv

/-- Under two of its names at once a field has no meaning. -/
theorem name_unique (h : d.Pairwise fun a b => a.1 < b.1) {found : Option Json}
    (hfield : fieldIn d fieldNames = some found) {name other : String} (hname : name ∈ fieldNames)
    (hother : other ∈ fieldNames) (hone : (Dictionary.find? name d).isSome = true)
    (htwo : (Dictionary.find? other d).isSome = true) : name = other := by
  cases found with
  | none =>
    rw [(fieldIn_eq_none_iff h).mp hfield name hname] at hone
    cases hone
  | some v =>
    obtain ⟨kept, -, -, hothers⟩ := (fieldIn_eq_some_iff h).mp hfield
    have hkept (name : String) (hname : name ∈ fieldNames)
        (hsome : (Dictionary.find? name d).isSome = true) : name = kept := by
      by_contra hne
      rw [hothers name hname hne] at hsome
      cases hsome
    exact (hkept name hname hone).trans (hkept other hother htwo).symm

end

/-! ## Names -/

section

variable {path : List String} {name given : String}

theorem spells_self (path : List String) (name : String) : spells path name name = true := by
  simp [spells]

theorem eq_of_spells (hpath : alternatives path = []) (h : spells path name given = true) :
    name = given := by
  simpa [spells, hpath] using h

theorem names_of_spells (h : spells path name given = true) : names path name given = true := by
  simp [names, h]

theorem spells_or_aliases (h : names path name given = true) :
    spells path name given = true ∨ name ∈ aliases path ∧ given ∈ aliases path := by
  simpa [names] using h

theorem names_eq_spells (hpath : aliases path = []) (name given : String) :
    names path name given = spells path name given := by
  simp [names, hpath]

theorem alternatives_eq_nil (hsource : path ≠ ["source_config"])
    (hstore : path ≠ ["store_config"]) : alternatives path = [] := by
  unfold alternatives
  split
  · exact absurd rfl hsource
  · exact absurd rfl hstore
  · rfl

theorem aliases_eq_nil (hroot : path ≠ []) (hruntime : path ≠ ["runtime"])
    (hsupervisor : path ≠ ["supervisor_config"]) (hlimits : path ≠ ["sink_config", "threshold"]) :
    aliases path = [] := by
  unfold aliases
  split
  · exact absurd rfl hroot
  · exact absurd rfl hruntime
  · exact absurd rfl hsupervisor
  · exact absurd rfl hlimits
  · rfl

end

/-! ## Tables with two names for a setting -/

section

open Json (Ordered)
open Layer (hides merge mergeEntries)

variable {path : List String} {entries below : List (String × Json)} {w v : Json}

/-- In a table at some path, no setting stands under two names at once. -/
def OneName (path : List String) (d : List (String × Json)) : Prop :=
  ∀ name ∈ aliases path, ∀ other ∈ aliases path, (Dictionary.find? name d).isSome = true →
    (Dictionary.find? other d).isSome = true → name = other

/-- Names are spelled as in the file if the merged table has but one name for each setting,
and if they are spelled so in the tables inside it. -/
theorem spells_of_oneName (hw : Ordered w) (hv : Ordered v) (hplain : alternatives path = [])
    (hone : ∀ d, merge v w = .object d → (d.Pairwise fun a b => a.1 < b.1) → OneName path d)
    (hinside : ∀ d, merge v w = .object d → (d.Pairwise fun a b => a.1 < b.1) →
      ∀ name new old, Ordered new → Ordered old → Dictionary.find? name d = some (merge old new) →
        hides names (path ++ [name]) new old = true → hides spells (path ++ [name]) new old = true)
    (h : hides names path w v = true) : hides spells path w v = true := by
  cases hw with
  | value hvalue => exact Layer.hides_of_value hvalue
  | @table entries hsorted hentries =>
    cases hv with
    | value hvalue => exact Layer.hides_value hvalue
    | @table below hbelow hunder =>
      have hmerge := Layer.merge_tables below entries
      have hmerged := Layer.pairwise_mergeEntries hbelow entries
      rw [Layer.hides_tables_iff] at h ⊢
      rintro ⟨given, old⟩ hentry
      obtain ⟨⟨⟨name, new⟩, hcover, hname⟩, hvalues⟩ := h _ hentry
      constructor
      · refine ⟨_, hcover, ?_⟩
        rcases spells_or_aliases hname with hspelled | ⟨hone₁, hone₂⟩
        · exact hspelled
        · have habove : (Dictionary.find? name (mergeEntries below entries)).isSome = true := by
            rw [Layer.isSome_find?_mergeEntries hsorted, Dictionary.find?_of_mem hsorted hcover]
            exact Bool.or_true _
          have hbeneath : (Dictionary.find? given (mergeEntries below entries)).isSome = true := by
            rw [Layer.isSome_find?_mergeEntries hsorted, Dictionary.find?_of_mem hbelow hentry]
            rfl
          rw [hone _ hmerge hmerged name hone₁ given hone₂ habove hbeneath]
          exact spells_self path given
      · rintro ⟨other, upper⟩ hother hspelled
        obtain rfl : other = given := eq_of_spells hplain hspelled
        exact hinside _ hmerge hmerged other upper old (hentries _ hother) (hunder _ hentry)
          (Layer.find?_mergeEntries_of_mem hbelow hsorted hentry hother)
          (hvalues _ hother (names_of_spells hspelled))

/-- Beyond the last table with two names for a setting, there is but one way to spell. -/
theorem spells_of_names (hdeep : ∀ further, aliases (path ++ further) = []) (hw : Ordered w)
    (h : hides names path w v = true) : hides spells path w v = true := by
  rwa [← Layer.hides_congr hw (fun further => names_eq_spells (hdeep further)) v]

/-! ## What readers accept -/

/-- Each field of a table is read by itself. -/
theorem fields_eq_some_iff {dialect : Dialect} {fieldNames : List (List String)}
    {values : List (Option Json)} :
    fields dialect fieldNames (.object entries) = some values ↔
      List.Forall₂ (fun names value => fieldIn entries names = some value) fieldNames values := by
  show fieldNames.mapM (fieldIn entries) = some values ↔ _
  induction fieldNames generalizing values with
  | nil => simp [eq_comm]
  | cons names rest ih =>
    simp only [List.mapM_cons, Option.bind_eq_bind, Option.bind_eq_some_iff, ih,
      List.forall₂_cons_left_iff]
    constructor
    · rintro ⟨value, hvalue, more, hmore, hvalues⟩
      exact ⟨value, more, hvalue, hmore, (Option.some.inj hvalues).symm⟩
    · rintro ⟨value, more, hvalue, hmore, rfl⟩
      exact ⟨value, hvalue, more, hmore, rfl⟩

theorem oneName_of_limits {d : List (String × Json)} (h : d.Pairwise fun a b => a.1 < b.1)
    (hread : (limits? .layered (.object d)).isSome = true) :
    OneName ["sink_config", "threshold"] d := by
  obtain ⟨limits, hlimits⟩ := Option.isSome_iff_exists.mp hread
  obtain ⟨values, hvalues, -⟩ := Option.bind_eq_some_iff.mp hlimits
  cases fields_eq_some_iff.mp hvalues with
  | cons _ hrest =>
    cases hrest with
    | cons _ hrest =>
      cases hrest with
      | cons hfield _ => exact fun name hname other hother => name_unique h hfield hname hother

theorem oneName_of_runtime {d : List (String × Json)} (h : d.Pairwise fun a b => a.1 < b.1)
    (hread : (runtime? .layered (.object d)).isSome = true) : OneName ["runtime"] d := by
  obtain ⟨runtime, hruntime⟩ := Option.isSome_iff_exists.mp hread
  obtain ⟨values, hvalues, -⟩ := Option.bind_eq_some_iff.mp hruntime
  cases fields_eq_some_iff.mp hvalues with
  | cons hfield _ => exact fun name hname other hother => name_unique h hfield hname hother

theorem limits_of_sink {d : List (String × Json)} (h : d.Pairwise fun a b => a.1 < b.1)
    (hread : (sink? .layered (.object d)).isSome = true) {v : Json}
    (hv : Dictionary.find? "threshold" d = some v) : (limits? .layered v).isSome = true := by
  obtain ⟨sink, hsink⟩ := Option.isSome_iff_exists.mp hread
  obtain ⟨values, hvalues, hrest⟩ := Option.bind_eq_some_iff.mp hsink
  have hfields := fields_eq_some_iff.mp hvalues
  split at hrest
  · simp only [List.forall₂_cons] at hfields
    obtain ⟨-, -, -, -, hthreshold, -⟩ := hfields
    obtain rfl := found_of_find? h hthreshold List.mem_cons_self hv
    obtain ⟨bucket, -, hrest⟩ := Option.bind_eq_some_iff.mp hrest
    obtain ⟨limits, hlimits, -⟩ := Option.bind_eq_some_iff.mp hrest
    exact Option.isSome_iff_exists.mpr ⟨limits, hlimits⟩
  · cases hrest

theorem spells_of_runtime {key : String} (hkey : key ∈ aliases []) (hw : Ordered w)
    (hv : Ordered v) (hread : (runtime? .layered (merge v w)).isSome = true)
    (h : hides names [key] w v = true) : hides spells [key] w v = true := by
  obtain ⟨hsame, hplain, hdeep⟩ : aliases [key] = aliases ["runtime"] ∧ alternatives [key] = [] ∧
      ∀ name further, aliases (key :: name :: further) = [] := by
    rcases List.mem_pair.mp hkey with rfl | rfl <;>
      exact ⟨rfl, rfl, fun _ _ => aliases_eq_nil (by simp) (by simp) (by simp) (by simp)⟩
  refine spells_of_oneName hw hv hplain (fun d hd hsorted => ?_)
    (fun _ _ _ name _ _ hnew _ _ => spells_of_names (hdeep name) hnew) h
  rw [OneName, hsame]
  exact oneName_of_runtime hsorted (hd ▸ hread)

theorem spells_of_limits (hw : Ordered w) (hv : Ordered v)
    (hread : (limits? .layered (merge v w)).isSome = true)
    (h : hides names ["sink_config", "threshold"] w v = true) :
    hides spells ["sink_config", "threshold"] w v = true :=
  spells_of_oneName hw hv rfl (fun _ hd hsorted => oneName_of_limits hsorted (hd ▸ hread))
    (fun _ _ _ _ _ _ hnew _ _ => spells_of_names
      (fun _ => aliases_eq_nil (by simp) (by simp) (by simp) (by simp)) hnew) h

theorem spells_of_sink (hw : Ordered w) (hv : Ordered v)
    (hread : (sink? .layered (merge v w)).isSome = true)
    (h : hides names ["sink_config"] w v = true) : hides spells ["sink_config"] w v = true := by
  refine spells_of_oneName hw hv rfl (fun _ _ _ name hname => nomatch hname)
    (fun d hd hsorted name new old hnew hold hfind hnamed => ?_) h
  by_cases hname : name = "threshold"
  · subst hname
    exact spells_of_limits hnew hold (limits_of_sink hsorted (hd ▸ hread) hfind) hnamed
  · exact spells_of_names
      (fun _ => aliases_eq_nil (by simp) (by simp) (by simp) (by simp [hname])) hnew hnamed

/-! ## What readers find -/

/-- Where no alternatives are named, nothing is left of variables that spell all names as
the file does. -/
theorem merge_of_spells (hw : Ordered w) (hv : Ordered v)
    (hpath : ∀ further, alternatives (path ++ further) = [])
    (h : hides spells path w v = true) : merge v w = w :=
  Layer.merge_eq_of_hides hw hv (fun further _ _ => eq_of_spells (hpath further)) h

theorem choice_table (first : String) (content : Json) (rest : List (String × Json)) :
    choice .layered (.object ((first, content) :: rest)) = some (first, some content) := by
  cases rest <;> rfl

/-- The alternative that the file names stands before what the variables add. -/
theorem choice_merge {first : String} {content : Option Json} (hw : Ordered w) (hv : Ordered v)
    (hchoice : choice .layered w = some (first, content))
    (hfirst : ∀ pair ∈ alternatives path, first < pair.2)
    (hdeep : ∀ further, alternatives (path ++ first :: further) = [])
    (h : hides spells path w v = true) : choice .layered (merge v w) = choice .layered w := by
  cases hw with
  | value hvalue => rw [Layer.merge_of_value hvalue]
  | @table entries hsorted hentries =>
    cases hv with
    | value hvalue => rw [Layer.merge_above_value hvalue]
    | @table below hbelow hinside =>
      cases entries with
      | nil => cases hchoice
      | cons head tail =>
        obtain ⟨name, value⟩ := head
        rw [choice_table] at hchoice
        obtain ⟨rfl, -⟩ := Prod.mk.inj (Option.some.inj hchoice)
        rw [Layer.hides_tables_iff] at h
        rw [Layer.merge_tables, choice_table]
        have hkept : Dictionary.find? name (mergeEntries below ((name, value) :: tail)) =
            some value := by
          rw [Layer.find?_mergeEntries hsorted, Dictionary.find?, if_pos rfl]
          cases hold : Dictionary.find? name below with
          | none => rfl
          | some old =>
            have hmem := Dictionary.mem_of_find? hold
            refine congrArg some (merge_of_spells (hentries _ List.mem_cons_self) (hinside _ hmem)
              (fun further => ?_)
              ((h _ hmem).2 (name, value) List.mem_cons_self (spells_self path name)))
            simpa using hdeep further
        have hupper : ∀ entry ∈ (name, value) :: tail, ¬entry.1 < name :=
          List.forall_mem_cons.mpr ⟨String.lt_irrefl name, fun entry hentry =>
            String.lt_asymm ((List.pairwise_cons.mp hsorted).1 entry hentry)⟩
        have hleast : ∀ entry ∈ mergeEntries below ((name, value) :: tail), ¬entry.1 < name := by
          refine Layer.forall_mem_mergeEntries (P := fun key _ => ¬key < name) ?_ hupper
            fun _ _ _ hold _ => hold
          intro entry hentry
          obtain ⟨⟨cover, hcover, hname⟩, -⟩ := h entry hentry
          rcases Bool.or_eq_true_iff.mp hname with hsame | halternative
          · exact eq_of_beq hsame ▸ hupper cover hcover
          · exact String.lt_asymm (hfirst _ (List.contains_iff_mem.mp halternative))
        obtain ⟨rest, hrest⟩ := Dictionary.eq_cons_of_least
          (Layer.pairwise_mergeEntries hbelow _) (Dictionary.mem_of_find? hkept) hleast
        rw [hrest]
        exact choice_table name value rest

theorem choice_of_source (h : (source? .layered w).isSome = true) :
    ∃ first content, choice .layered w = some (first, content) ∧ first ∈ ["File", "InMemory"] := by
  obtain ⟨source, hsource⟩ := Option.isSome_iff_exists.mp h
  obtain ⟨given, hchoice, hrest⟩ := Option.bind_eq_some_iff.mp hsource
  split at hrest
  · exact ⟨_, _, hchoice, by decide⟩
  · exact ⟨_, _, hchoice, by decide⟩
  · cases hrest

theorem choice_of_store (h : (store? .layered w).isSome = true) :
    ∃ first content, choice .layered w = some (first, content) ∧
      first ∈ ["InMemory", "File", "S3"] := by
  obtain ⟨store, hstore⟩ := Option.isSome_iff_exists.mp h
  obtain ⟨given, hchoice, hrest⟩ := Option.bind_eq_some_iff.mp hstore
  split at hrest
  · exact ⟨_, _, hchoice, by decide⟩
  · exact ⟨_, _, hchoice, by decide⟩
  · exact ⟨_, _, hchoice, by decide⟩
  · cases hrest

theorem source_merge (hw : Ordered w) (hv : Ordered v)
    (hread : (source? .layered w).isSome = true)
    (h : hides spells ["source_config"] w v = true) :
    source? .layered (merge v w) = source? .layered w := by
  obtain ⟨first, content, hchoice, hfirst⟩ := choice_of_source hread
  have hless : ∀ first ∈ ["File", "InMemory"], ∀ pair ∈ alternatives ["source_config"],
      first < pair.2 := by decide
  unfold source?
  rw [choice_merge hw hv hchoice (hless first hfirst)
    (fun further => alternatives_eq_nil (by simp) (by simp)) h]

theorem store_merge (hw : Ordered w) (hv : Ordered v)
    (hread : (store? .layered w).isSome = true)
    (h : hides spells ["store_config"] w v = true) :
    store? .layered (merge v w) = store? .layered w := by
  obtain ⟨first, content, hchoice, hfirst⟩ := choice_of_store hread
  have hless : ∀ first ∈ ["InMemory", "File", "S3"], ∀ pair ∈ alternatives ["store_config"],
      first < pair.2 := by decide
  unfold store?
  rw [choice_merge hw hv hchoice (hless first hfirst)
    (fun further => alternatives_eq_nil (by simp) (by simp)) h]

/-! ## All settings -/

/-- Where the names are spelled as in the file, a field is found as it is found there, with
what the variables leave of its value. -/
theorem field_merge {α : Type} (read : Json → Option α) {fieldNames : List String}
    {found : Option Json} (hentries : Ordered (.object entries)) (hbelow : Ordered (.object below))
    (h : hides spells [] (.object entries) (.object below) = true)
    (hfield : fieldIn entries fieldNames = some found)
    (hread : ∀ name ∈ fieldNames, ∀ w v, (name, w) ∈ entries → (name, v) ∈ below →
      hides spells [name] w v = true → read (merge v w) = read w) :
    ∃ later, fieldIn (mergeEntries below entries) fieldNames = some later ∧
      required read later = required read found ∧
        ∀ default, withDefault default read later = withDefault default read found := by
  rw [Layer.hides_tables_iff] at h
  have hsorted := hentries.sorted
  have hmerged := Layer.pairwise_mergeEntries hbelow.sorted entries
  have hnone (name : String) (hname : Dictionary.find? name entries = none) :
      Dictionary.find? name (mergeEntries below entries) = none := by
    rw [Layer.find?_mergeEntries hsorted, hname]
    cases hold : Dictionary.find? name below with
    | none => rfl
    | some v =>
      obtain ⟨⟨cover, hcover, hspelled⟩, -⟩ := h _ (Dictionary.mem_of_find? hold)
      obtain rfl : cover.1 = name := eq_of_spells (by rfl) hspelled
      rw [Dictionary.find?_of_mem hsorted hcover] at hname
      cases hname
  cases found with
  | none =>
    rw [fieldIn_eq_none_iff hsorted] at hfield
    exact ⟨none, (fieldIn_eq_none_iff hmerged).mpr fun name hname =>
      hnone name (hfield name hname), rfl, fun _ => rfl⟩
  | some w =>
    obtain ⟨name, hname, hfind, hothers⟩ := (fieldIn_eq_some_iff hsorted).mp hfield
    have hw := Dictionary.mem_of_find? hfind
    have hlater (v : Json) (hv : Dictionary.find? name (mergeEntries below entries) = some v) :
        fieldIn (mergeEntries below entries) fieldNames = some (some v) :=
      (fieldIn_eq_some_iff hmerged).mpr ⟨name, hname, hv, fun other hother hne =>
        hnone other (hothers other hother hne)⟩
    cases hold : Dictionary.find? name below with
    | none =>
      refine ⟨some w, hlater w ?_, rfl, fun _ => rfl⟩
      rw [Layer.find?_mergeEntries hsorted, hfind, hold]
      rfl
    | some v =>
      have hv := Dictionary.mem_of_find? hold
      have hsame : read (merge v w) = read w :=
        hread name hname w v hw hv ((h _ hv).2 (name, w) hw (spells_self [] name))
      have hboth := Layer.find?_mergeEntries_of_mem hbelow.sorted hsorted hv hw
      exact ⟨some (merge v w), hlater _ hboth, hsame, fun _ => hsame⟩

/-- Settings are read from four fields, the last of which has two names. -/
theorem archive_eq_some_iff {settings : ArchiveSettings} :
    archive? .layered (.object entries) = some settings ↔
      ∃ source sink store runtime,
        fieldIn entries ["source_config"] = some source ∧
        fieldIn entries ["sink_config"] = some sink ∧
        fieldIn entries ["store_config"] = some store ∧
        fieldIn entries ["runtime", "supervisor_config"] = some runtime ∧
        required (source? .layered) source = some settings.source ∧
        required (sink? .layered) sink = some settings.sink ∧
        withDefault .memory (store? .layered) store = some settings.store ∧
        withDefault {} (runtime? .layered) runtime = some settings.runtime := by
  constructor
  · intro h
    obtain ⟨values, hvalues, hrest⟩ := Option.bind_eq_some_iff.mp h
    have hfields := fields_eq_some_iff.mp hvalues
    split at hrest
    case h_2 => cases hrest
    case h_1 source sink store runtime =>
      simp only [List.forall₂_cons] at hfields
      obtain ⟨hsource, hsink, hstore, hruntime, -⟩ := hfields
      obtain ⟨sourceRead, hsourceRead, hrest⟩ := Option.bind_eq_some_iff.mp hrest
      obtain ⟨sinkRead, hsinkRead, hrest⟩ := Option.bind_eq_some_iff.mp hrest
      obtain ⟨storeRead, hstoreRead, hrest⟩ := Option.bind_eq_some_iff.mp hrest
      obtain ⟨runtimeRead, hruntimeRead, hrest⟩ := Option.bind_eq_some_iff.mp hrest
      obtain rfl := Option.some.inj hrest
      exact ⟨source, sink, store, runtime, hsource, hsink, hstore, hruntime, hsourceRead,
        hsinkRead, hstoreRead, hruntimeRead⟩
  · rintro ⟨source, sink, store, runtime, hsource, hsink, hstore, hruntime, hsourceRead,
      hsinkRead, hstoreRead, hruntimeRead⟩
    have hfields : fields .layered [["source_config"], ["sink_config"], ["store_config"],
        ["runtime", "supervisor_config"]] (.object entries) =
          some [source, sink, store, runtime] :=
      fields_eq_some_iff.mpr (.cons hsource (.cons hsink (.cons hstore (.cons hruntime .nil))))
    simp only [archive?, hfields, Option.bind_eq_bind, Option.bind_some, hsourceRead, hsinkRead,
      hstoreRead, hruntimeRead]
    rfl

/-- Variables that spell all names as the file does leave the settings of the file. -/
theorem archive_merge {settings : ArchiveSettings} (hentries : Ordered (.object entries))
    (hv : Ordered v) (hread : archive? .layered (.object entries) = some settings)
    (h : hides spells [] (.object entries) v = true) :
    archive? .layered (merge v (.object entries)) = some settings := by
  cases hv with
  | value hvalue => rwa [Layer.merge_above_value hvalue]
  | @table below hbelow hinside =>
  have hbelow : Ordered (.object below) := .table hbelow hinside
  have hsorted := hentries.sorted
  obtain ⟨source, sink, store, runtime, hsource, hsink, hstore, hruntime, hsourceRead, hsinkRead,
    hstoreRead, hruntimeRead⟩ := archive_eq_some_iff.mp hread
  obtain ⟨source', hsource', hsourceSame, -⟩ :=
    field_merge (source? .layered) hentries hbelow h hsource (by
      intro name hname w v hw hv hspelled
      obtain rfl := List.mem_singleton.mp hname
      obtain rfl := found_of_find? hsorted hsource hname (Dictionary.find?_of_mem hsorted hw)
      exact source_merge (hentries.mem hw) (hbelow.mem hv)
        (Option.isSome_iff_exists.mpr ⟨_, hsourceRead⟩) hspelled)
  obtain ⟨sink', hsink', hsinkSame, -⟩ :=
    field_merge (sink? .layered) hentries hbelow h hsink (by
      intro name hname w v hw hv hspelled
      obtain rfl := List.mem_singleton.mp hname
      rw [merge_of_spells (hentries.mem hw) (hbelow.mem hv)
        (fun further => alternatives_eq_nil (by simp) (by simp)) hspelled])
  obtain ⟨store', hstore', -, hstoreSame⟩ :=
    field_merge (store? .layered) hentries hbelow h hstore (by
      intro name hname w v hw hv hspelled
      obtain rfl := List.mem_singleton.mp hname
      obtain rfl := found_of_find? hsorted hstore hname (Dictionary.find?_of_mem hsorted hw)
      exact store_merge (hentries.mem hw) (hbelow.mem hv)
        (Option.isSome_iff_exists.mpr ⟨_, hstoreRead⟩) hspelled)
  obtain ⟨runtime', hruntime', -, hruntimeSame⟩ :=
    field_merge (runtime? .layered) hentries hbelow h hruntime (by
      intro name hname w v hw hv hspelled
      have hplain (further : List String) : alternatives (name :: further) = [] := by
        rcases List.mem_pair.mp hname with rfl | rfl <;>
          exact alternatives_eq_nil (by simp) (by simp)
      rw [merge_of_spells (hentries.mem hw) (hbelow.mem hv) hplain hspelled])
  rw [Layer.merge_tables]
  exact archive_eq_some_iff.mpr ⟨source', sink', store', runtime', hsource', hsink', hstore',
    hruntime', hsourceSame.trans hsourceRead, hsinkSame.trans hsinkRead,
    (hstoreSame _).trans hstoreRead, (hruntimeSame _).trans hruntimeRead⟩

/-- Settings are read only if the variables spell the names that they share with the file as
the file does. -/
theorem spells_of_archive {settings : ArchiveSettings} (hw : Ordered w) (hv : Ordered v)
    (hread : archive? .layered (merge v w) = some settings) (h : hides names [] w v = true) :
    hides spells [] w v = true := by
  refine spells_of_oneName hw hv rfl (fun d hd hsorted => ?_)
    (fun d hd hsorted name new old hnew hold hfind hnamed => ?_) h
  · rw [hd] at hread
    obtain ⟨-, -, -, runtime, -, -, -, hruntime, -⟩ := archive_eq_some_iff.mp hread
    exact fun name hname other hother => name_unique hsorted hruntime hname hother
  · rw [hd] at hread
    obtain ⟨-, sink, -, runtime, -, hsink, -, hruntime, -, hsinkRead, -, hruntimeRead⟩ :=
      archive_eq_some_iff.mp hread
    by_cases hname : name ∈ aliases []
    · obtain rfl := found_of_find? hsorted hruntime hname hfind
      exact spells_of_runtime hname hnew hold
        (Option.isSome_iff_exists.mpr ⟨_, hruntimeRead⟩) hnamed
    · by_cases hsinkName : name = "sink_config"
      · subst hsinkName
        obtain rfl := found_of_find? hsorted hsink List.mem_cons_self hfind
        exact spells_of_sink hnew hold (Option.isSome_iff_exists.mpr ⟨_, hsinkRead⟩) hnamed
      · obtain ⟨hruntimeName, hsupervisorName⟩ : name ≠ "runtime" ∧ name ≠ "supervisor_config" := by
          simpa [aliases] using hname
        exact spells_of_names (fun _ => aliases_eq_nil (by simp) (by simp [hruntimeName])
          (by simp [hsupervisorName]) (by simp [hsinkName])) hnew hnamed

end

end Settings

/-! ## The file and the variables -/

open Json (Ordered)

namespace Environment

/-- The settings of a single variable, if its name is that of one. -/
def given? (binding : String × String) : Option Json :=
  (levels? binding.1).map (nested (valueOf binding.2))

end Environment

namespace SettingsFile

/-- The file has all the settings of a layer, with some notion of which names count as one. -/
def Hides (alike : List String → String → String → Bool) (file : SettingsFile) (lower : Json) :
    Prop :=
  ∃ upper, file.layer? = some upper ∧ Layer.hides alike [] upper lower = true

instance (alike : List String → String → String → Bool) (file : SettingsFile) (lower : Json) :
    Decidable (file.Hides alike lower) :=
  decidable_of_iff (file.layer?.any fun upper => Layer.hides alike [] upper lower)
    (Option.any_eq_true _ _)

/-- The file itself sets all that a layer sets, under one of the names that a setting has.
Of a variable whose value is a table, that is what is in the table. -/
abbrev Sets (file : SettingsFile) (lower : Json) : Prop := file.Hides Settings.names lower

/-- The file itself sets all that a layer sets, and under the same names. -/
abbrev Spells (file : SettingsFile) (lower : Json) : Prop := file.Hides Settings.spells lower

variable {file : SettingsFile} {layer : Json}

theorem ordered_layer (h : file.layer? = some layer) :
    ∃ entries, layer = .object entries ∧ Ordered layer := by
  unfold layer? at h
  split at h
  · obtain rfl := Option.some.inj h
    exact ⟨[], rfl, Json.ordered_empty⟩
  · obtain ⟨contents, -, h⟩ := Option.bind_eq_some_iff.mp h
    obtain ⟨text, -, h⟩ := Option.bind_eq_some_iff.mp h
    exact Toml.ordered_parse h

theorem hides_iff {alike : List String → String → String → Bool} {lower : Json}
    (hlayer : file.layer? = some layer) :
    file.Hides alike lower ↔ Layer.hides alike [] layer lower = true := by
  simp [Hides, hlayer]

/-- What a file has of the settings of every single variable, it has of all together. -/
theorem hides_settings {alike : List String → String → String → Bool}
    {bindings : List (String × String)} (hlayer : file.layer? = some layer)
    (h : ∀ binding ∈ bindings, ∀ v ∈ Environment.given? binding, file.Hides alike v) :
    file.Hides alike (Environment.settings (Dictionary.ofList bindings)) := by
  obtain ⟨entries, rfl, hordered⟩ := ordered_layer hlayer
  refine (hides_iff hlayer).mpr (Environment.settings_invariant
    (P := fun lower => Layer.hides alike [] (.object entries) lower = true)
    (Layer.hides_tables_iff.mpr (List.forall_mem_nil _))
    (fun _ _ => Layer.hides_merge hordered) fun binding hbinding levels hlevels => ?_)
  exact (hides_iff hlayer).mp (h binding (Dictionary.mem_of_mem_ofList hbinding) _
    (congrArg (Option.map _) hlevels))

end SettingsFile

namespace ArchiveSettings

variable {file : SettingsFile} {layer : Json} {settings : ArchiveSettings}
  {bindings : List (String × String)}

/-- What loading makes of the settings of the variables and of the file. -/
theorem load_of_layer (hlayer : file.layer? = some layer) :
    load (some file) bindings =
      match Settings.archive? .layered
          (Layer.merge (Environment.settings (Dictionary.ofList bindings)) layer) with
      | none => .error (.unreadable (some file.path))
      | some settings =>
        match settings.validate with
        | .error e => .error (.invalid e)
        | .ok () => .ok settings := by
  simp only [load, hlayer]
  rfl

theorem load_eq_ok_iff (hlayer : file.layer? = some layer) :
    load (some file) bindings = .ok settings ↔
      Settings.archive? .layered
          (Layer.merge (Environment.settings (Dictionary.ofList bindings)) layer) = some settings ∧
        settings.validate = .ok () := by
  rw [load_of_layer hlayer]
  constructor
  · intro h
    split at h
    · cases h
    · rename_i read hread
      split at h
      · cases h
      · rename_i hvalid
        obtain rfl := Except.ok.inj h
        exact ⟨hread, hvalid⟩
  · rintro ⟨hread, hvalid⟩
    simp only [hread, hvalid]

theorem layer_of_load (h : load (some file) bindings = .ok settings) :
    ∃ layer, file.layer? = some layer := by
  cases hlayer : file.layer? with
  | some layer => exact ⟨layer, rfl⟩
  | none =>
    simp only [load, hlayer] at h
    cases h

/-- The file wins over variables that set only what the file itself sets, exactly where
they spell the names of settings as the file does.  A setting that variables and file give
under different names stands under two names at once, and nothing is loaded. -/
theorem file_wins_iff_spelled (hfile : load (some file) [] = .ok settings)
    (hsets : ∀ binding ∈ bindings, ∀ v ∈ Environment.given? binding, file.Sets v) :
    (load (some file) bindings = .ok settings ↔
      file.Spells (Environment.settings (Dictionary.ofList bindings))) ∧
    (¬file.Spells (Environment.settings (Dictionary.ofList bindings)) →
      load (some file) bindings = .error (.unreadable (some file.path))) ∧
    ((∀ binding ∈ bindings, ∀ v ∈ Environment.given? binding, file.Spells v) →
      file.Spells (Environment.settings (Dictionary.ofList bindings))) := by
  obtain ⟨layer, hlayer⟩ := layer_of_load hfile
  obtain ⟨entries, rfl, hordered⟩ := SettingsFile.ordered_layer hlayer
  have halone : Settings.archive? .layered (.object entries) = some settings ∧
      settings.validate = .ok () := by
    have hread := (load_eq_ok_iff hlayer).mp hfile
    rwa [show Environment.settings (Dictionary.ofList []) = .object [] from rfl,
      Layer.merge_empty hordered.sorted] at hread
  have henvironment := Environment.ordered_settings (Dictionary.ofList bindings)
  have hnamed := (SettingsFile.hides_iff hlayer).mp (SettingsFile.hides_settings hlayer hsets)
  have hspelled (read : ArchiveSettings) (hread : Settings.archive? .layered (Layer.merge
      (Environment.settings (Dictionary.ofList bindings)) (.object entries)) = some read) :
      file.Spells (Environment.settings (Dictionary.ofList bindings)) :=
    (SettingsFile.hides_iff hlayer).mpr
      (Settings.spells_of_archive hordered henvironment hread hnamed)
  refine ⟨⟨fun h => hspelled settings ((load_eq_ok_iff hlayer).mp h).1, fun h => ?_⟩,
    fun hnot => ?_, SettingsFile.hides_settings hlayer⟩
  · exact (load_eq_ok_iff hlayer).mpr ⟨Settings.archive_merge hordered henvironment halone.1
      ((SettingsFile.hides_iff hlayer).mp h), halone.2⟩
  · rw [load_of_layer hlayer]
    cases hread : Settings.archive? .layered (Layer.merge
        (Environment.settings (Dictionary.ofList bindings)) (.object entries)) with
    | none => rfl
    | some read => exact absurd (hspelled read hread) hnot

/-- What kept settings from being loaded. -/
def fault? : Except LoadFault ArchiveSettings → Option LoadFault
  | .ok _ => none
  | .error fault => some fault

theorem exists_of_fault?_eq_none {loaded : Except LoadFault ArchiveSettings}
    (h : fault? loaded = none) : ∃ settings, loaded = .ok settings := by
  cases loaded with
  | ok settings => exact ⟨settings, rfl⟩
  | error fault => cases h

theorem eq_of_fault?_eq_some {loaded : Except LoadFault ArchiveSettings} {fault : LoadFault}
    (h : fault? loaded = some fault) : loaded = .error fault := by
  cases loaded with
  | ok settings => cases h
  | error found => exact congrArg Except.error (Option.some.inj h)

def sampleFile : SettingsFile :=
  ⟨"bkt.toml", some (some (Utf8.encode ("[source_config.InMemory]\n[sink_config]\nbucket=\"b\"\n" ++
    "[sink_config.threshold]\nevent_collect_secs=9\n[runtime]\nqueue_capacity=4\n")))⟩

/-- One variable that gives a setting of the sample file under the same name, and one that
gives it under its other name. -/
def sameName : String × String := ("BKT_RUNTIME__QUEUE_CAPACITY", "5")

@[inherit_doc sameName]
def otherName : String × String := ("BKT_RUNTIME__CHANNEL_SIZE", "5")

-- All in one, for the file has to be read for each of them.
theorem sample_loads :
    fault? (load (some sampleFile) []) = none ∧
    (∀ v ∈ Environment.given? sameName, sampleFile.Sets v) ∧
    sampleFile.Spells (Environment.settings (Dictionary.ofList [sameName])) ∧
    (∀ v ∈ Environment.given? otherName, sampleFile.Sets v) ∧
    fault? (load (some sampleFile) [otherName]) = some (.unreadable (some "bkt.toml")) := by
  decide +kernel

theorem file_wins_over_sameName : ∃ settings, load (some sampleFile) [] = .ok settings ∧
    load (some sampleFile) [sameName] = .ok settings := by
  obtain ⟨hfile, hsets, hspells, -⟩ := sample_loads
  obtain ⟨settings, hsettings⟩ := exists_of_fault?_eq_none hfile
  exact ⟨settings, hsettings,
    (file_wins_iff_spelled hsettings (List.forall_mem_singleton.mpr hsets)).1.mpr hspells⟩

/-- With a variable that gives a setting of the file under its other name, nothing is
loaded. -/
theorem otherName_refused : (∃ settings, load (some sampleFile) [] = .ok settings) ∧
    (∀ v ∈ Environment.given? otherName, sampleFile.Sets v) ∧
    load (some sampleFile) [otherName] = .error (.unreadable (some "bkt.toml")) := by
  obtain ⟨hfile, -, -, hsets, hfault⟩ := sample_loads
  exact ⟨exists_of_fault?_eq_none hfile, hsets, eq_of_fault?_eq_some hfault⟩

end ArchiveSettings

end RecordArchive
