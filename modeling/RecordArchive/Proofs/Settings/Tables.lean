import RecordArchive.Proofs.Settings.Layers
import RecordArchive.Proofs.Text.Reader
import RecordArchive.Settings.Environment
import RecordArchive.Settings.Toml.Document

/-!
# The tables that are read

Whatever order a document or the environment gives settings in, the entries of the tables
that are made of them are in order: `ordered_parse` and `ordered_settings`.
-/

namespace RecordArchive

open Json (Ordered)
open Text.Reader

namespace Toml

/-! ## Scalars -/

theorem ordered_ofInteger (n : Int) : (ofInteger n).Yields Ordered := by
  unfold ofInteger
  split
  · exact yields_pure (.value rfl)
  · exact yields_failure

theorem ordered_radixNumber (mark : Char) (base : Nat) :
    (radixNumber mark base).Yields Ordered :=
  yields_after fun _ => yields_after fun _ => ordered_ofInteger _

theorem ordered_decimalNumber : decimalNumber.Yields Ordered := by
  refine yields_after fun negative => yields_after fun whole => yields_after fun fraction =>
    yields_after fun power => ?_
  split
  · exact ordered_ofInteger _
  · simp only
    split
    · exact yields_failure
    · exact yields_pure (.value rfl)

theorem ordered_namedNumber : namedNumber.Yields Ordered :=
  yields_after fun _ => yields_either (yields_after fun _ => yields_pure (.value rfl))
    (yields_after fun _ => yields_pure (.value rfl))

theorem ordered_moment : moment.Yields Ordered := by
  intro cs v rest hread
  obtain ⟨read, -, hmade⟩ := Option.map_eq_some_iff.mp hread
  obtain ⟨rfl, -⟩ := Prod.mk.inj hmade
  exact .table (List.pairwise_singleton _ _) (List.forall_mem_singleton.mpr (.value rfl))

theorem ordered_number : number.Yields Ordered :=
  yields_either ordered_moment (yields_either ordered_namedNumber
    (yields_either (ordered_radixNumber 'x' 16) (yields_either (ordered_radixNumber 'o' 8)
      (yields_either (ordered_radixNumber 'b' 2) ordered_decimalNumber))))

theorem ordered_boolean : boolean.Yields Ordered :=
  yields_either (yields_after fun _ => yields_pure (.value rfl))
    (yields_after fun _ => yields_pure (.value rfl))

theorem ordered_scalar : scalar.Yields Ordered :=
  yields_either (yields_after fun _ => yields_pure (.value rfl))
    (yields_either ordered_boolean ordered_number)

/-! ## Definitions -/

/-- The table that definitions make is in order. -/
def Definitions.Ordered (entries : Definitions) : Prop :=
  Json.Ordered (.object (Definition.fieldsToJson entries))

theorem fieldsToJson_insert (key : String) (d : Definition) (entries : Definitions) :
    Definition.fieldsToJson (Dictionary.insert key d entries) =
      Dictionary.insert key d.toJson (Definition.fieldsToJson entries) := by
  induction entries with
  | nil => rfl
  | cons entry rest ih =>
    obtain ⟨name, old⟩ := entry
    simp only [Dictionary.insert, Definition.fieldsToJson]
    by_cases hkey : key = name
    · rw [if_pos hkey, if_pos hkey]
      rfl
    · rw [if_neg hkey, if_neg hkey]
      by_cases hless : key < name
      · rw [if_pos hless, if_pos hless]
        rfl
      · rw [if_neg hless, if_neg hless, Definition.fieldsToJson, ih]

theorem mem_fieldsToJson {key : String} {d : Definition} {entries : Definitions}
    (h : (key, d) ∈ entries) : (key, d.toJson) ∈ Definition.fieldsToJson entries := by
  induction entries with
  | nil => cases h
  | cons entry rest ih =>
    rw [Definition.fieldsToJson]
    rcases List.mem_cons.mp h with rfl | h
    · exact List.mem_cons_self
    · exact List.mem_cons_of_mem _ (ih h)

namespace Definitions

variable {key : String} {entries after : Definitions}

theorem ordered_nil : Ordered [] := Json.ordered_empty

theorem ordered_insert (h : entries.Ordered) (key : String) {d : Definition}
    (hd : Json.Ordered d.toJson) : Definitions.Ordered (Dictionary.insert key d entries) := by
  rw [Definitions.Ordered, fieldsToJson_insert]
  exact Json.ordered_insert h key hd

theorem ordered_table {origin : Origin} {inner : Definitions} (h : entries.Ordered)
    (hfind : Dictionary.find? key entries = some (.table origin inner)) : inner.Ordered :=
  h.mem (mem_fieldsToJson (Dictionary.mem_of_find? hfind))

theorem ordered_array (earlier : List Definitions) (last : Definitions) :
    Json.Ordered (Definition.array earlier last).toJson := .value rfl

theorem ordered_within {change : Definitions → Option Definitions}
    (hchange : ∀ before after, change before = some after → before.Ordered → after.Ordered)
    {path : List String} (h : within change path entries = some after) (hold : entries.Ordered) :
    after.Ordered := by
  induction path generalizing entries after with
  | nil => exact hchange entries after h hold
  | cons key path ih =>
    rw [within] at h
    cases hfind : Dictionary.find? key entries with
    | none =>
      simp only [hfind] at h
      obtain ⟨inner, hinner, hafter⟩ := Option.bind_eq_some_iff.mp h
      obtain rfl := Option.some.inj hafter
      exact ordered_insert hold key (ih hinner ordered_nil)
    | some d =>
      simp only [hfind] at h
      cases d with
      | value v => cases h
      | table origin inner =>
        obtain ⟨inner', hinner, hafter⟩ := Option.bind_eq_some_iff.mp h
        obtain rfl := Option.some.inj hafter
        exact ordered_insert hold key (ih hinner (ordered_table hold hfind))
      | array earlier last =>
        obtain ⟨last', -, hafter⟩ := Option.bind_eq_some_iff.mp h
        obtain rfl := Option.some.inj hafter
        exact ordered_insert hold key (ordered_array earlier last')

theorem ordered_openTable (h : openTable key entries = some after) (hold : entries.Ordered) :
    after.Ordered := by
  unfold openTable at h
  split at h
  · obtain rfl := Option.some.inj h
    exact ordered_insert hold key ordered_nil
  · rename_i inner hfind
    obtain rfl := Option.some.inj h
    exact ordered_insert hold key (ordered_table hold hfind)
  · cases h

theorem ordered_openElement (h : openElement key entries = some after) (hold : entries.Ordered) :
    after.Ordered := by
  unfold openElement at h
  split at h
  · obtain rfl := Option.some.inj h
    exact ordered_insert hold key (ordered_array [] [])
  · obtain rfl := Option.some.inj h
    exact ordered_insert hold key (ordered_array _ [])
  · cases h

theorem ordered_set {v : Json} (hv : Json.Ordered v) {path : List String}
    {byPoints isFirst : Bool} (h : set v path byPoints isFirst entries = some after)
    (hold : entries.Ordered) : after.Ordered := by
  induction path generalizing byPoints isFirst entries after with
  | nil => cases h
  | cons key path ih =>
    cases path with
    | nil =>
      simp only [set] at h
      split at h
      · cases h
      · split at h
        · obtain rfl := Option.some.inj h
          exact ordered_insert hold key hv
        · cases h
    | cons next path =>
      simp only [set] at h
      split at h
      · obtain ⟨inner, hinner, hafter⟩ := Option.bind_eq_some_iff.mp h
        obtain rfl := Option.some.inj hafter
        exact ordered_insert hold key (ih hinner ordered_nil)
      · rename_i origin inner hfind
        split at h
        · cases h
        · obtain ⟨inner', hinner, hafter⟩ := Option.bind_eq_some_iff.mp h
          obtain rfl := Option.some.inj hafter
          exact ordered_insert hold key (ih hinner (ordered_table hold hfind))
      · obtain ⟨last, -, hafter⟩ := Option.bind_eq_some_iff.mp h
        obtain rfl := Option.some.inj hafter
        exact ordered_insert hold key (ordered_array _ last)
      · cases h

end Definitions

/-! ## Documents -/

theorem ordered_arrayOf (item : Text.Reader Json) : (arrayOf item).Yields Json.Ordered :=
  yields_after fun _ => yields_after fun _ => yields_after fun _ => yields_after fun _ =>
    yields_after fun _ => yields_after fun _ => yields_pure (.value rfl)

theorem ordered_pair {item : Text.Reader Json} (h : item.Yields Json.Ordered) :
    (pair item).Yields fun found => Json.Ordered found.2 :=
  yields_after fun _ => yields_after fun _ => yields_after fun _ => yields_bind h
    fun _ hv => yields_pure hv

theorem ordered_tableOf {item : Text.Reader Json} (h : item.Yields Json.Ordered) :
    (tableOf item).Yields Json.Ordered := by
  refine yields_after fun _ => yields_after fun _ =>
    yields_bind (yields_optional (yields_separated (ordered_pair h) _)) fun pairs hpairs =>
      yields_after fun _ => yields_after fun _ =>
        yields_bind (P := Definitions.Ordered) ?_ fun entries hentries => yields_pure hentries
  refine yields_foldlM Definitions.ordered_nil fun found hfound entries hold =>
    yields_lift fun after hafter => Definitions.ordered_set ?_ hafter hold
  cases pairs with
  | none => cases hfound
  | some read => exact hpairs read rfl found hfound

theorem ordered_value (depth : Nat) : (value depth).Yields Json.Ordered := by
  induction depth with
  | zero => exact ordered_scalar
  | succ depth ih =>
    refine yields_after fun next => ?_
    split
    · exact ordered_arrayOf _
    · exact ordered_tableOf ih
    · exact ordered_scalar

/-- The value that a line sets is in order. -/
def Line.Ordered : Line → Prop
  | pair _ v => Json.Ordered v
  | table _ | element _ | empty => True

theorem ordered_lineContent : lineContent.Yields Line.Ordered := by
  refine yields_after fun next => ?_
  split
  · exact yields_either (yields_after fun _ => yields_pure trivial)
      (yields_after fun _ => yields_pure trivial)
  · exact yields_pure trivial
  · exact yields_pure trivial
  · exact yields_pure trivial
  · exact yields_pure trivial
  · exact yields_bind (ordered_pair (ordered_value greatestDepth)) fun _ hv => yields_pure hv

theorem ordered_line : line.Yields Line.Ordered := by
  refine yields_after fun _ => yields_bind ordered_lineContent fun found hfound =>
    yields_after fun _ => yields_after fun _ => yields_after fun atEnd => ?_
  split
  · exact yields_pure hfound
  · exact yields_after fun _ => yields_pure hfound

theorem ordered_step {r after : Reading} {line : Line} (hline : line.Ordered)
    (h : r.step line = some after) (hold : r.root.Ordered) : after.root.Ordered := by
  cases line with
  | empty =>
    obtain rfl := Option.some.inj h
    exact hold
  | pair path v =>
    obtain ⟨root, hroot, hafter⟩ := Option.bind_eq_some_iff.mp h
    obtain rfl := Option.some.inj hafter
    exact Definitions.ordered_within (fun _ _ => Definitions.ordered_set hline) hroot hold
  | table path =>
    simp only [Reading.step, Reading.opening] at h
    split at h
    · cases h
    · obtain ⟨root, hroot, hafter⟩ := Option.bind_eq_some_iff.mp h
      obtain rfl := Option.some.inj hafter
      exact Definitions.ordered_within (fun _ _ => Definitions.ordered_openTable) hroot hold
  | element path =>
    simp only [Reading.step, Reading.opening] at h
    split at h
    · cases h
    · obtain ⟨root, hroot, hafter⟩ := Option.bind_eq_some_iff.mp h
      obtain rfl := Option.some.inj hafter
      exact Definitions.ordered_within (fun _ _ => Definitions.ordered_openElement) hroot hold

theorem ordered_foldlM_step {lines : List Line} {r after : Reading}
    (hlines : ∀ line ∈ lines, line.Ordered) (h : lines.foldlM Reading.step r = some after)
    (hold : r.root.Ordered) : after.root.Ordered := by
  induction lines generalizing r with
  | nil =>
    obtain rfl := Option.some.inj h
    exact hold
  | cons line rest ih =>
    obtain ⟨hline, hrest⟩ := List.forall_mem_cons.mp hlines
    rw [List.foldlM_cons] at h
    obtain ⟨next, hnext, hafter⟩ := Option.bind_eq_some_iff.mp h
    exact ih hrest hafter (ordered_step hline hnext hold)

/-- A document is read into a table that is in order. -/
theorem ordered_parse {text : String} {v : Json} (h : parse? text = some v) :
    ∃ entries, v = .object entries ∧ Json.Ordered v := by
  obtain ⟨lines, hlines, hrest⟩ := Option.bind_eq_some_iff.mp h
  obtain ⟨r, hr, hv⟩ := Option.bind_eq_some_iff.mp hrest
  obtain rfl := Option.some.inj hv
  exact ⟨_, rfl, ordered_foldlM_step (whole_of_yields (yields_many ordered_line) hlines) hr
    Definitions.ordered_nil⟩

end Toml

namespace Environment

/-! ## Variables -/

theorem ordered_plainValue (cs : List Char) : Ordered (plainValue cs) := by
  unfold plainValue
  split
  · exact .value rfl
  · split
    · exact .value rfl
    · exact .value rfl

theorem yields_items {α : Type} {P : α → Prop} {item : Text.Reader α} (closing : Char)
    (h : item.Yields P) : (items closing item).Yields fun found => ∀ a ∈ found, P a := by
  have hguarded : (do
      if (← Text.Reader.peek) = some closing then failure else item : Text.Reader α).Yields P := by
    refine yields_after fun next => ?_
    split
    · exact yields_failure
    · exact h
  refine yields_bind (yields_optional (yields_separated hguarded _)) fun found hfound => ?_
  have hall : ∀ a ∈ found.getD [], P a := by
    cases found with
    | none => exact List.forall_mem_nil P
    | some read => exact hfound read rfl
  split
  · exact yields_after fun _ => yields_after fun _ => yields_pure hall
  · exact yields_after fun _ => yields_pure hall

theorem ordered_entry {value : Text.Reader Json} (h : value.Yields Ordered) :
    (entry value).Yields fun found => Ordered found.2 :=
  yields_after fun _ => yields_after fun _ => yields_after fun _ => yields_after fun _ =>
    yields_after fun _ => yields_bind h fun _ hv => yields_after fun _ => yields_pure hv

theorem ordered_value (depth : Nat) : (value depth).Yields Ordered := by
  induction depth with
  | zero => exact yields_failure
  | succ depth ih =>
    refine yields_after fun _ => yields_bind (P := Ordered) (yields_either ?_ ?_)
      fun v hv => yields_after fun _ => yields_pure hv
    · exact yields_either (yields_after fun _ => yields_pure (.value rfl))
        (yields_after fun _ => yields_pure (.value rfl))
    · refine yields_after fun next => ?_
      split
      · exact yields_after fun _ => yields_bind (yields_items '}' (ordered_entry ih))
          fun _ hfound => yields_pure (Json.ordered_ofFields hfound)
      · exact yields_after fun _ => yields_after fun _ => yields_pure (.value rfl)
      · exact yields_after fun _ => yields_pure (.value rfl)
      · exact yields_after fun _ => yields_after fun _ => yields_after fun _ =>
          yields_pure (.value rfl)
      · exact yields_after fun _ => yields_pure (ordered_plainValue _)

theorem ordered_valueOf (text : String) : Ordered (valueOf text) := by
  unfold valueOf
  simp only
  cases hread : Text.Reader.whole (value (text.toList.length + 1)) text.toList with
  | none => exact .value rfl
  | some v => exact whole_of_yields (ordered_value _) hread

theorem ordered_nested {v : Json} (h : Ordered v) (levels : List String) :
    Ordered (nested v levels) := by
  induction levels with
  | nil => exact h
  | cons level rest ih =>
    exact .table (List.pairwise_singleton _ _) (List.forall_mem_singleton.mpr ih)

/-- What holds of no settings and of those of single variables, and of two layers merged if
it holds of both, holds of the settings of variables. -/
theorem settings_invariant {P : Json → Prop} (hempty : P (.object []))
    (hmerge : ∀ earlier later, P earlier → P later → P (Layer.merge earlier later))
    {bindings : List (String × String)}
    (hone : ∀ binding ∈ bindings, ∀ levels, levels? binding.1 = some levels →
      P (nested (valueOf binding.2) levels)) : P (settings bindings) := by
  refine List.foldlRecOn bindings _ hempty fun found hfound binding hbinding => ?_
  obtain ⟨name, text⟩ := binding
  dsimp only
  split
  · rename_i levels hlevels
    exact hmerge _ _ hfound (hone _ hbinding levels hlevels)
  · exact hfound

theorem ordered_settings (bindings : List (String × String)) : Ordered (settings bindings) :=
  settings_invariant Json.ordered_empty (fun _ _ => Layer.ordered_merge)
    fun binding _ levels _ => ordered_nested (ordered_valueOf binding.2) levels

end Environment

end RecordArchive
