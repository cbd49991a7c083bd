import Mathlib.Data.List.Basic
import RecordArchive.Text.Segments

/-!
# Cutting at separators

Segments hold no separator, and a text is one segment or a segment, a separator and another text.
A text put together from segments is cut into them again: `segments_flatMap`; and a text that is
cut is put together again from what it was cut into: `intercalate_segments`.
-/

namespace RecordArchive.Text

variable {separator : Char}

theorem segments_of_notMem {cs : List Char} (h : separator ∉ cs) :
    segments separator cs = [cs] := by
  induction cs with
  | nil => rfl
  | cons c rest ih =>
    obtain ⟨hne, hrest⟩ := not_or.mp (fun hmem => h (List.mem_cons.mpr hmem))
    rw [segments, if_neg (Ne.symm hne), ih hrest]

theorem segments_append {before : List Char} (h : separator ∉ before) (after : List Char) :
    segments separator (before ++ separator :: after) = before :: segments separator after := by
  induction before with
  | nil =>
    rw [List.nil_append, segments, if_pos rfl]
  | cons c rest ih =>
    obtain ⟨hne, hrest⟩ := not_or.mp (fun hmem => h (List.mem_cons.mpr hmem))
    rw [List.cons_append, segments, if_neg (Ne.symm hne), ih hrest]

/-- A text is a segment, or a segment and then a separator and another text. -/
@[elab_as_elim]
theorem segments_induction (separator : Char) {P : List Char → Prop}
    (last : ∀ cs, separator ∉ cs → P cs)
    (more : ∀ before after, separator ∉ before → P after → P (before ++ separator :: after))
    (cs : List Char) : P cs := by
  induction hlength : cs.length using Nat.strongRecOn generalizing cs with
  | ind n ih =>
    by_cases hmem : separator ∈ cs
    · obtain ⟨before, after, rfl, hbefore⟩ := List.eq_append_cons_of_mem hmem
      refine more before after hbefore (ih after.length ?_ after rfl)
      rw [List.length_append, List.length_cons] at hlength
      omega
    · exact last cs hmem

theorem notMem_of_mem_segments {cs line : List Char} (h : line ∈ segments separator cs) :
    separator ∉ line := by
  induction cs using segments_induction separator with
  | last cs hcs =>
    rw [segments_of_notMem hcs] at h
    rw [List.mem_singleton.mp h]
    exact hcs
  | more before after hbefore ih =>
    rw [segments_append hbefore] at h
    rcases List.mem_cons.mp h with rfl | h
    · exact hbefore
    · exact ih h

/-- A separator cuts a text whatever stands before it. -/
theorem segments_append_cons (before after : List Char) :
    segments separator (before ++ separator :: after) =
      segments separator before ++ segments separator after := by
  induction before using segments_induction separator with
  | last cs hcs => rw [segments_append hcs, segments_of_notMem hcs, List.singleton_append]
  | more first rest hfirst ih =>
    rw [List.append_assoc, List.cons_append, segments_append hfirst, segments_append hfirst, ih,
      List.cons_append]

theorem segments_flatMap {parts : List (List Char)} {last : List Char}
    (hparts : ∀ part ∈ parts, separator ∉ part) (hlast : separator ∉ last) :
    segments separator (parts.flatMap (fun part => part ++ [separator]) ++ last) =
      parts ++ [last] := by
  induction parts with
  | nil => exact segments_of_notMem hlast
  | cons part parts ih =>
    rw [List.forall_mem_cons] at hparts
    rw [List.flatMap_cons, List.append_assoc, List.append_assoc, List.singleton_append,
      segments_append hparts.1, ih hparts.2, List.cons_append]

theorem length_segments (separator : Char) (cs : List Char) :
    (segments separator cs).length = cs.count separator + 1 := by
  induction cs using segments_induction separator with
  | last cs hcs => rw [segments_of_notMem hcs, List.count_eq_zero_of_not_mem hcs]; rfl
  | more before after hbefore ih =>
    rw [segments_append hbefore, List.length_cons, ih, List.count_append, List.count_cons_self,
      List.count_eq_zero_of_not_mem hbefore]
    omega

theorem nil_mem_segments_cons (cs : List Char) : [] ∈ segments separator (separator :: cs) := by
  rw [segments, if_pos rfl]
  exact List.mem_cons_self

/-- A separator at the front of a text, or two in a row, leave an empty segment. -/
theorem of_nil_notMem_segments {cs : List Char} (h : [] ∉ segments separator cs) :
    cs.head? ≠ some separator ∧ ¬ [separator, separator] <:+: cs := by
  constructor
  · intro hhead
    obtain ⟨rest, rfl⟩ := List.head?_eq_some_iff.mp hhead
    exact h (nil_mem_segments_cons rest)
  · rintro ⟨before, after, rfl⟩
    refine h ?_
    rw [List.append_assoc, List.cons_append, List.singleton_append, segments_append_cons]
    exact List.mem_append_right _ (nil_mem_segments_cons after)

/-! ## Putting segments together -/

theorem intercalate_segments (separator : Char) (cs : List Char) :
    [separator].intercalate (segments separator cs) = cs := by
  induction cs using segments_induction separator with
  | last cs hcs => rw [segments_of_notMem hcs, List.intercalate_singleton]
  | more before after hbefore ih =>
    rw [segments_append hbefore, List.intercalate_cons_of_ne_nil (segments_ne_nil separator after),
      ih, List.append_assoc, List.singleton_append]

theorem segments_inj {cs cs' : List Char} (h : segments separator cs = segments separator cs') :
    cs = cs' := by
  rw [← intercalate_segments separator cs, h, intercalate_segments]

theorem intercalate_append {glue : List Char} {front back : List (List Char)} (hfront : front ≠ [])
    (hback : back ≠ []) :
    glue.intercalate (front ++ back) =
      glue.intercalate front ++ glue ++ glue.intercalate back := by
  induction front with
  | nil => exact absurd rfl hfront
  | cons part rest ih =>
    have hne : rest ++ back ≠ [] := List.append_ne_nil_of_right_ne_nil rest hback
    rw [List.cons_append, List.intercalate_cons_of_ne_nil hne]
    by_cases hrest : rest = []
    · subst hrest
      rw [List.nil_append, List.intercalate_singleton]
    · rw [ih hrest, List.intercalate_cons_of_ne_nil hrest]
      simp only [List.append_assoc]

/-- A text whose segments are the first ones of another is all of it up to a separator. -/
theorem prefix_of_segments {cs cs' : List Char} {more : List (List Char)} (hmore : more ≠ [])
    (h : segments separator cs' = segments separator cs ++ more) : cs ++ [separator] <+: cs' := by
  have hcs' := intercalate_segments separator cs'
  rw [h, intercalate_append (segments_ne_nil separator cs) hmore, intercalate_segments] at hcs'
  exact ⟨_, hcs'⟩

theorem intercalate_sublist (glue : List Char) {parts parts' : List (List Char)}
    (h : parts.Sublist parts') : (glue.intercalate parts).Sublist (glue.intercalate parts') := by
  induction h with
  | slnil => exact List.Sublist.refl _
  | @cons parts parts' part hsub ih =>
    by_cases hnil : parts' = []
    · rw [hnil, List.sublist_nil] at hsub
      rw [hsub]
      exact List.nil_sublist _
    · rw [List.intercalate_cons_of_ne_nil hnil]
      exact ih.trans (List.sublist_append_right _ _)
  | @cons_cons parts parts' part hsub ih =>
    by_cases hnil : parts' = []
    · rw [hnil, List.sublist_nil] at hsub
      rw [hsub, hnil]
    · rw [List.intercalate_cons_of_ne_nil hnil]
      by_cases hnil' : parts = []
      · rw [hnil', List.intercalate_singleton, List.append_assoc]
        exact List.sublist_append_left _ _
      · rw [List.intercalate_cons_of_ne_nil hnil']
        exact ih.append_left _

end RecordArchive.Text
