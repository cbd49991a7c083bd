import Mathlib.Data.List.Forall2
import RecordArchive.Proofs.Naming.Template
import RecordArchive.Proofs.Text.Segments

/-!
# Namers that are made

A namer is made from a path and a name when every part of the path that is not empty, and the
name, is read as a template: `make_eq_ok_iff`.  Empty parts of a path are passed over, so a slash
that adds no part but an empty one changes nothing: `directoryTexts_insert`.
-/

namespace RecordArchive.Naming

theorem mapM_eq_ok_iff {α β ε : Type} {f : α → Except ε β} {xs : List α} {ys : List β} :
    xs.mapM f = .ok ys ↔ List.Forall₂ (fun x y => f x = .ok y) xs ys := by
  induction xs generalizing ys with
  | nil =>
    rw [List.mapM_nil, List.forall₂_nil_left_iff]
    exact ⟨fun h => (Except.ok.inj h).symm, fun h => congrArg Except.ok h.symm⟩
  | cons x xs ih =>
    rw [List.mapM_cons, List.forall₂_cons_left_iff]
    cases hx : f x with
    | error e => simp [bind, Except.bind]
    | ok y =>
      cases hxs : xs.mapM f with
      | error e => simp [bind, Except.bind, ← ih, hxs]
      | ok others => simp [bind, Except.bind, pure, Except.pure, ← ih, hxs, eq_comm]

namespace KeyNamer

variable {pathPrefix codec : Option String} {namePattern : String} {unique : Bool}
  {namer : KeyNamer}

/-- When a namer is made, and which. -/
theorem make_eq_ok_iff :
    make pathPrefix namePattern codec unique = .ok namer ↔
      ∃ directories name,
        List.Forall₂ (fun text directory => readTemplate text = .ok directory)
          (directoryTexts (pathPrefix.getD "")) directories ∧
        '/' ∉ namePattern.toList ∧ Text.isBlank namePattern = false ∧
        readTemplate namePattern.toList = .ok name ∧
        ⟨directories, name, extensionFor codec, unique⟩ = namer := by
  simp only [make, ← mapM_eq_ok_iff]
  cases (directoryTexts (pathPrefix.getD "")).mapM readTemplate with
  | error e => simp [bind, Except.bind]
  | ok directories =>
    simp only [bind, Except.bind]
    by_cases hslash : '/' ∈ namePattern.toList
    · simp [hslash]
    cases hblank : Text.isBlank namePattern with
    | true => simp [hslash]
    | false =>
      cases readTemplate namePattern.toList with
      | error e => simp [hslash]
      | ok name => simp [hslash, pure, Except.pure]

/-- A slash at either end of a path, or beside another slash, adds an empty part only. -/
theorem directoryTexts_insert {before after : List Char}
    (h : before = [] ∨ before.getLast? = some '/' ∨ after = [] ∨ after.head? = some '/') :
    directoryTexts (String.ofList (before ++ '/' :: after)) =
      directoryTexts (String.ofList (before ++ after)) := by
  simp only [directoryTexts, String.toList_ofList, Text.segments_append_cons]
  rcases h with rfl | hlast | rfl | hhead
  · simp [Text.segments]
  · obtain ⟨first, rfl⟩ := List.getLast?_eq_some_iff.mp hlast
    simp [Text.segments_append_cons, Text.segments]
  · simp [Text.segments]
  · obtain ⟨rest, rfl⟩ := List.head?_eq_some_iff.mp hhead
    simp [Text.segments_append_cons, Text.segments]

end KeyNamer

end RecordArchive.Naming
