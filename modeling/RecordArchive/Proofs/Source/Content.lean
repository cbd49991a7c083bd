import RecordArchive.Source

/-!
# What a source has and what it gives

A source has the records of its lines that are not blank, whatever the limits of its
batches.  It gives all of them, batch by batch, unless no line fits the limit on
bytes: then the first batch comes out empty and the source is taken to be at its
end.  The main statements are `stream_of_next_some` and `stream_of_next_none`, and for
calls one after the other `stream_of_reads`.
-/

namespace RecordArchive.Source

def recordOf? (line : Bytes) : Option Record :=
  let text := lineText line
  if Text.isBlank text then none else some (Record.ofLine text)

/-- The records that a source has. -/
def content : Source → List Record
  | lines rest _ => rest.filterMap recordOf?
  | unreadable _ => []
  | records rest _ => rest

/-- Whether a batch of a source never has room for a line. -/
def stalls : Source → Bool
  | lines _ limits => limits.bytes == 0
  | unreadable _ | records _ _ => false

/-- The records that a source gives. -/
def stream (s : Source) : List Record := if s.stalls then [] else s.content

theorem stream_prefix (s : Source) : s.stream <+: s.content := by
  unfold stream
  split
  · exact List.nil_prefix
  · exact List.prefix_refl _

/-- A source gives all that it has, unless it has something and stalls. -/
theorem stream_eq_content_iff (s : Source) :
    s.stream = s.content ↔ s.stalls = false ∨ s.content = [] := by
  unfold stream
  by_cases hstalls : s.stalls = true
  · rw [if_pos hstalls]
    constructor
    · intro h
      exact Or.inr h.symm
    · rintro (h | h)
      · rw [hstalls] at h
        cases h
      · exact h.symm
  · rw [if_neg hstalls]
    exact ⟨fun _ => Or.inl (Bool.eq_false_iff.mpr hstalls), fun _ => rfl⟩

theorem recordOf?_of_blank {line : Bytes} (h : Text.isBlank (lineText line) = true) :
    recordOf? line = none := by
  simp [recordOf?, h]

theorem recordOf?_of_not_blank {line : Bytes} (h : ¬Text.isBlank (lineText line) = true) :
    recordOf? line = some (Record.ofLine (lineText line)) := by
  simp [recordOf?, h]

/-! ## Batches of lines -/

/-- A batch and the lines after it have the records of all lines. -/
theorem batchFrom_append (limits : BatchLimits) (taken size : Nat) (ls : List Bytes) :
    (batchFrom limits taken size ls).1 ++
      (batchFrom limits taken size ls).2.filterMap recordOf? = ls.filterMap recordOf? := by
  fun_induction batchFrom limits taken size ls with
  | case1 => rfl
  | case2 taken size line rest hroom text hblank ih =>
    rw [ih, List.filterMap_cons, recordOf?_of_blank hblank]
  | case3 taken size line rest hroom text hblank more rest' hmore ih =>
    rw [hmore] at ih
    rw [List.filterMap_cons, recordOf?_of_not_blank hblank, ← ih]
    rfl
  | case4 => rfl

/-- A batch with room for a line is empty only when there is no record left. -/
theorem filterMap_eq_nil_of_batchFrom {limits : BatchLimits} {taken size : Nat} {ls : List Bytes}
    (hroom : taken < max 1 limits.records ∧ size < limits.bytes)
    (h : (batchFrom limits taken size ls).1 = []) : ls.filterMap recordOf? = [] := by
  fun_induction batchFrom limits taken size ls with
  | case1 => rfl
  | case2 taken size line rest _ text hblank ih =>
    -- A blank line takes no room, so there still is some for the lines after it.
    rw [List.filterMap_cons, recordOf?_of_blank hblank]
    exact ih hroom h
  | case3 taken size line rest _ text hblank more rest' hmore ih => cases h
  | case4 taken size line rest hfull => exact absurd hroom hfull

theorem batchFrom_of_no_bytes {limits : BatchLimits} (h : limits.bytes = 0) (taken size : Nat)
    (ls : List Bytes) : (batchFrom limits taken size ls).1 = [] := by
  cases ls with
  | nil => rfl
  | cons line rest =>
    have hfull : ¬(taken < max 1 limits.records ∧ size < limits.bytes) := by omega
    rw [batchFrom, if_neg hfull]

/-! ## Reading on -/

/-- A batch that is given comes off the front of the stream. -/
theorem stream_of_next_some {s s' : Source} {batch : List Record}
    (h : s.next = .ok (some batch, s')) : s.stream = batch ++ s'.stream := by
  cases s with
  | unreadable path => cases h
  | records rest size =>
    simp only [next, Except.ok.injEq, Prod.mk.injEq] at h
    obtain ⟨hbatch, rfl⟩ := h
    by_cases hnil : rest.isEmpty = true
    · simp [hnil] at hbatch
    · simp only [hnil, Bool.false_eq_true, if_false, Option.some.injEq] at hbatch
      subst hbatch
      exact (List.take_append_drop size rest).symm
  | lines rest limits =>
    have happend := batchFrom_append limits 0 0 rest
    have hnone : limits.bytes = 0 → (batchFrom limits 0 0 rest).1 = [] :=
      fun hzero => batchFrom_of_no_bytes hzero 0 0 rest
    simp only [next, Except.ok.injEq, Prod.mk.injEq] at h
    obtain ⟨hbatch, rfl⟩ := h
    by_cases hnil : (batchFrom limits 0 0 rest).1.isEmpty = true
    · simp [hnil] at hbatch
    · simp only [hnil, Bool.false_eq_true, if_false, Option.some.injEq] at hbatch
      have hbytes : (limits.bytes == 0) = false := by
        rw [beq_eq_false_iff_ne]
        intro hzero
        exact hnil (List.isEmpty_iff.mpr (hnone hzero))
      simp only [stream, stalls, content, hbytes, Bool.false_eq_true, if_false]
      rw [← hbatch, happend]

/-- A source that gives nothing has nothing more to give. -/
theorem stream_of_next_none {s s' : Source} (h : s.next = .ok (none, s')) : s.stream = [] := by
  cases s with
  | unreadable path => cases h
  | records rest size =>
    simp only [next, Except.ok.injEq, Prod.mk.injEq] at h
    by_cases hnil : rest.isEmpty = true
    · exact List.isEmpty_iff.mp hnil
    · simp [hnil] at h
  | lines rest limits =>
    simp only [next, Except.ok.injEq, Prod.mk.injEq] at h
    by_cases hnil : (batchFrom limits 0 0 rest).1.isEmpty = true
    · by_cases hbytes : (limits.bytes == 0) = true
      · simp only [stream, stalls, hbytes, if_true]
      · simp only [stream, stalls, content, hbytes, Bool.false_eq_true, if_false]
        refine filterMap_eq_nil_of_batchFrom ⟨?_, ?_⟩ (List.isEmpty_iff.mp hnil)
        · exact Nat.lt_of_lt_of_le Nat.zero_lt_one (Nat.le_max_left _ _)
        · exact Nat.pos_of_ne_zero fun hzero => hbytes (beq_iff_eq.mpr hzero)
    · simp [hnil] at h

/-! ## Calls, one after the other -/

/-- What a source answers to calls, and what is left of it. -/
inductive Reads : Source → List (Option (List Record)) → Source → Prop
  | stop (s : Source) : Reads s [] s
  | call {s s' s'' : Source} {answer : Option (List Record)}
    {answers : List (Option (List Record))} (h : s.next = .ok (answer, s'))
    (hrest : Reads s' answers s'') : Reads s (answer :: answers) s''

/-- The records of the batches that were given. -/
def delivered (answers : List (Option (List Record))) : List Record :=
  answers.flatMap fun answer => answer.getD []

/-- Once a source has given nothing it gives nothing again. -/
theorem stream_after_none {s s' : Source} (h : s.next = .ok (none, s')) : s'.stream = [] := by
  cases s with
  | unreadable path => cases h
  | records rest size =>
    simp only [next, Except.ok.injEq, Prod.mk.injEq] at h
    obtain ⟨hnone, rfl⟩ := h
    by_cases hnil : rest.isEmpty = true
    · rw [List.isEmpty_iff.mp hnil, List.drop_nil]
      rfl
    · simp [hnil] at hnone
  | lines rest limits =>
    have hbefore := stream_of_next_none h
    have happend := batchFrom_append limits 0 0 rest
    simp only [next, Except.ok.injEq, Prod.mk.injEq] at h
    obtain ⟨hnone, rfl⟩ := h
    by_cases hbytes : (limits.bytes == 0) = true
    · simp only [stream, stalls, hbytes, if_true]
    · simp only [stream, stalls, content, hbytes, Bool.false_eq_true, if_false] at hbefore ⊢
      rw [hbefore] at happend
      exact (List.append_eq_nil_iff.mp happend).2

/-- What was given and what is still to come are the stream. -/
theorem stream_of_reads {s s' : Source} {answers : List (Option (List Record))}
    (h : s.Reads answers s') : s.stream = delivered answers ++ s'.stream := by
  induction h with
  | stop s => rfl
  | call h hrest ih =>
    rename_i s s' s'' answer answers
    cases answer with
    | none =>
      rw [stream_of_next_none h, ← stream_after_none h, ih]
      rfl
    | some batch =>
      rw [stream_of_next_some h, ih, ← List.append_assoc]
      rfl

/-! ## Opening -/

/-- How a source is opened. -/
inductive Started (contents? : String → Option Contents) : SourceSettings → Source → Prop
  | listed (found : List String) (limits : BatchLimits) :
    Started contents? (.listed found limits) (ofLines found limits)
  | unreadable {path : String} (limits : BatchLimits) (h : contents? path = some none) :
    Started contents? (.file path limits) (unreadable path)
  | unread {path : String} (limits : BatchLimits) (h : contents? path = some none) :
    Started contents? (.file path limits) (lines [] limits)
  | file {path : String} {bytes : Bytes} (limits : BatchLimits)
    (h : contents? path = some (some bytes)) :
    Started contents? (.file path limits) (lines bytes.lines limits)

theorem started_of_start {settings : SourceSettings} {contents? : String → Option Contents}
    {source : Source} (h : start settings contents? = .ok source) :
    Started contents? settings source := by
  cases settings with
  | listed found limits =>
    cases h
    exact .listed found limits
  | file path limits =>
    simp only [start] at h
    split at h
    · cases h
    · rename_i hcontents
      obtain rfl := Except.ok.inj h
      split
      · exact .unread limits hcontents
      · exact .unreadable limits hcontents
    · rename_i hcontents
      cases h
      exact .file limits hcontents

end RecordArchive.Source
