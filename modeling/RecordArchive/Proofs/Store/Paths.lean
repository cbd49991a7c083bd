import RecordArchive.Proofs.Text.Segments
import RecordArchive.Store.Path

/-!
# The names of a path that was joined

A relative path that is joined to another adds its own names to those that are there, wherever
the other ends in a slash, is empty, or names the directory itself: `components_join`.
-/

namespace RecordArchive.Path

/-- A name that stands for an entry of a directory and for nothing else. -/
structure IsName (name : List Char) : Prop where
  ne_nil : name ≠ []
  slash_notMem : '/' ∉ name
  ne_self : name ≠ self
  ne_up : name ≠ up

instance (name : List Char) : Decidable (IsName name) :=
  decidable_of_iff (name ≠ [] ∧ '/' ∉ name ∧ name ≠ self ∧ name ≠ up)
    ⟨fun ⟨hnil, hslash, hself, hup⟩ => ⟨hnil, hslash, hself, hup⟩,
      fun h => ⟨h.ne_nil, h.slash_notMem, h.ne_self, h.ne_up⟩⟩

variable {base part : List Char}

theorem isAbsolute_cons (c : Char) (rest : List Char) : isAbsolute (c :: rest) = (c == '/') := by
  by_cases hc : c = '/'
  · rw [hc]
    rfl
  · rw [beq_eq_false_iff_ne.mpr hc, isAbsolute]
    rintro rest' heq
    exact hc (List.cons.inj heq).1

theorem IsName.isAbsolute_eq_false (h : IsName part) : isAbsolute part = false := by
  cases part with
  | nil => rfl
  | cons c rest =>
    rw [isAbsolute_cons, beq_eq_false_iff_ne]
    rintro rfl
    exact h.slash_notMem List.mem_cons_self

theorem IsName.segments_eq (h : IsName part) : Text.segments '/' part = [part] :=
  Text.segments_of_notMem h.slash_notMem

/-- Names are neither passed over nor taken for a way up. -/
theorem filter_of_isName {names : List (List Char)} (h : ∀ name ∈ names, IsName name) :
    names.filter (fun name => !name.isEmpty && name != self) = names := by
  refine List.filter_eq_self.mpr fun name hmem => ?_
  have hname := h name hmem
  simp [hname.ne_nil, hname.ne_self]

/-! ## Joined paths -/

theorem isAbsolute_join (h : isAbsolute part = false) :
    isAbsolute (join base part) = isAbsolute base := by
  unfold join
  cases base with
  | nil =>
    rw [h]
    exact h
  | cons c rest =>
    rw [h, List.isEmpty_cons, Bool.or_false, if_neg Bool.false_ne_true]
    split <;> rw [List.cons_append, isAbsolute_cons, isAbsolute_cons]

/-- The segments of what is joined come last, after some that bring the names of what it is
joined to. -/
theorem segments_join (base : List Char) (h : isAbsolute part = false) : ∃ front,
    Text.segments '/' (join base part) = front ++ Text.segments '/' part ∧
      front.filter (fun name => !name.isEmpty && name != self) = components base := by
  unfold join
  rw [h, Bool.false_or]
  by_cases hnil : base = []
  · subst hnil
    exact ⟨[], rfl, rfl⟩
  have hsome : base.isEmpty = false := by simpa using hnil
  rw [hsome, if_neg Bool.false_ne_true]
  by_cases hslash : base.getLast? = some '/'
  · rw [if_pos hslash]
    obtain ⟨before, rfl⟩ := List.getLast?_eq_some_iff.mp hslash
    refine ⟨Text.segments '/' before, ?_, ?_⟩
    · rw [List.append_assoc, List.singleton_append, Text.segments_append_cons]
    · -- What stands after the last slash is empty and brings no name.
      rw [components, Text.segments_append_cons, List.filter_append]
      exact (List.append_nil _).symm
  · rw [if_neg hslash]
    exact ⟨Text.segments '/' base, Text.segments_append_cons base part, rfl⟩

theorem components_join (h : isAbsolute part = false) :
    components (join base part) = components base ++ components part := by
  obtain ⟨front, hsegments, hfront⟩ := segments_join base h
  rw [components, hsegments, List.filter_append, hfront]
  rfl

/-- The names of a path, put together again, have no character that the path has not. -/
theorem sublist_of_components {names : List (List Char)} {path : List Char}
    (h : names.Sublist (components path)) : (['/'].intercalate names).Sublist path := by
  have hsub := Text.intercalate_sublist ['/'] (h.trans List.filter_sublist)
  rwa [Text.intercalate_segments] at hsub

end RecordArchive.Path
