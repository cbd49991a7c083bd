import RecordArchive.Proofs.Buffer.Steady

/-!
# The staging file of a buffer

A buffer on disk has one file, which comes when the buffer is made and goes when it is
discarded.  In between the buffer writes to that file and to no other, whether its
writes fail or not.  `Tidy` says where staging files may be left, given those that were
there before; the main statements are `tidy_create`, `tidy_touches` and `tidy_discard`,
by which it passes from the making of a buffer to its end.
-/

namespace RecordArchive

namespace Staging

/-- Between two moments no file came or went, and at most one was written to. -/
structure Touches (file : Option Nat) (s s' : Staging) : Prop where
  created_eq : s'.created = s.created
  exists_eq : ∀ id, (s'.content? id).isSome = (s.content? id).isSome
  content_eq : ∀ id, file ≠ some id → s'.content? id = s.content? id

namespace Touches

variable {file : Option Nat} {s s' s'' : Staging}

theorem refl (file : Option Nat) (s : Staging) : s.Touches file s :=
  ⟨rfl, fun _ => rfl, fun _ _ => rfl⟩

theorem trans (h : s.Touches file s') (h' : s'.Touches file s'') : s.Touches file s'' :=
  ⟨h'.created_eq.trans h.created_eq, fun id => (h'.exists_eq id).trans (h.exists_eq id),
    fun id hne => (h'.content_eq id hne).trans (h.content_eq id hne)⟩

end Touches

theorem touches_extend (s : Staging) (id : Nat) (piece : Bytes) :
    s.Touches (some id) (s.extend id piece).2 := by
  unfold extend
  cases hfile : s.content? id with
  | none => exact ⟨rfl, fun _ => rfl, fun _ _ => rfl⟩
  | some content =>
    refine ⟨rfl, fun other => ?_, fun other hne => ?_⟩
    · by_cases hsame : other = id
      · subst hsame
        simp only [content?, Dictionary.find?_insert_self]
        exact (congrArg Option.isSome hfile).symm
      · simp only [content?, Dictionary.find?_insert_of_ne hsame]
    · have hother : other ≠ id := fun hsame => hne (by rw [hsame])
      simp only [content?, Dictionary.find?_insert_of_ne hother]

end Staging

/-! ## Writers -/

namespace StagingWriter

/-- An operation of a writer touches its file only, and leaves the writer with it. -/
structure Stays (w : StagingWriter) (s : Staging)
    (answer : Except ArchiveError StagingWriter × Staging) : Prop where
  touches : s.Touches (some w.file) answer.2
  file_eq : ∀ w', answer.1 = .ok w' → w'.file = w.file

variable {w : StagingWriter}

theorem stays_send (w : StagingWriter) (piece : Bytes) (s : Staging) :
    w.Stays s (w.send piece s) := by
  unfold send
  by_cases hfailed : w.failed = true
  · rw [if_pos hfailed]
    exact ⟨.refl _ s, fun _ h => (nomatch h)⟩
  · rw [if_neg hfailed]
    refine ⟨Staging.touches_extend s w.file piece, fun w' h => ?_⟩
    rw [← Except.ok.inj h]

theorem stays_sendPending (w : StagingWriter) (s : Staging) : w.Stays s (w.sendPending s) := by
  unfold sendPending
  by_cases hnone : w.pending.isEmpty = true
  · rw [if_pos hnone]
    exact ⟨.refl _ s, fun w' h => by rw [← Except.ok.inj h]⟩
  · rw [if_neg hnone]
    obtain ⟨htouches, hfile⟩ := stays_send { w with pending := [] } w.pending s
    exact ⟨htouches, hfile⟩

theorem stays_gather (w : StagingWriter) (piece : Bytes) (s : Staging) :
    w.Stays s (w.gather piece s) := by
  unfold gather
  by_cases hlong : capacity ≤ piece.length
  · rw [if_pos hlong]
    exact stays_send w piece s
  · rw [if_neg hlong]
    exact ⟨.refl _ s, fun w' h => by rw [← Except.ok.inj h]⟩

theorem stays_write (w : StagingWriter) (piece : Bytes) (s : Staging) :
    w.Stays s (w.write piece s) := by
  unfold write
  by_cases hnil : piece.isEmpty = true
  · rw [if_pos hnil]
    exact ⟨.refl _ s, fun w' h => by rw [← Except.ok.inj h]⟩
  · rw [if_neg hnil]
    by_cases hfull : capacity < w.pending.length + piece.length
    · rw [if_pos hfull]
      have hsent := stays_sendPending w s
      cases hsend : w.sendPending s with
      | mk outcome s₁ =>
        rw [hsend] at hsent
        cases outcome with
        | error e => exact ⟨hsent.touches, fun _ h => (nomatch h)⟩
        | ok w₁ =>
          have hfile := hsent.file_eq w₁ rfl
          have hgathered := stays_gather w₁ piece s₁
          exact ⟨hsent.touches.trans (hfile ▸ hgathered.touches),
            fun w' h => (hgathered.file_eq w' h).trans hfile⟩
    · rw [if_neg hfull]
      exact stays_gather w piece s

theorem touches_finish (w : StagingWriter) (s : Staging) :
    s.Touches (some w.file) (w.finish s).2 := by
  have hsent := stays_sendPending w s
  unfold finish
  cases hsend : w.sendPending s with
  | mk outcome s₁ =>
    rw [hsend] at hsent
    cases outcome <;> exact hsent.touches

end StagingWriter

/-! ## Buffers -/

namespace Buffer

variable {b : Buffer} {s : Staging}

/-- The staging file of a buffer, if it has one. -/
def file? (b : Buffer) : Option Nat :=
  match b.holding with
  | .memory _ => none
  | .staged writer => some writer.file

theorem isSome_file? (b : Buffer) : b.file?.isSome = decide (b.kind = .staged) := by
  unfold file? kind
  cases b.holding <;> rfl

theorem touches_append (b : Buffer) (record : Bytes) (s : Staging) :
    s.Touches b.file? (b.append record s).2 ∧
      ∀ b' s', b.append record s = (.ok b', s') → b'.file? = b.file? := by
  unfold append appendTo file?
  cases hholding : b.holding with
  | memory reversed =>
    refine ⟨.refl _ s, fun b' s' h => ?_⟩
    cases h
    rfl
  | staged writer =>
    have hrecord := StagingWriter.stays_write writer record s
    simp only
    cases hwrite : writer.write record s with
    | mk outcome s₁ =>
      rw [hwrite] at hrecord
      cases outcome with
      | error e => exact ⟨hrecord.touches, fun _ _ h => (nomatch h)⟩
      | ok writer₁ =>
        have hfile := hrecord.file_eq writer₁ rfl
        have hsep := StagingWriter.stays_write writer₁ (separator record) s₁
        refine ⟨hrecord.touches.trans (hfile ▸ hsep.touches), fun b' s' h => ?_⟩
        simp only at h
        cases hlast : writer₁.write (separator record) s₁ with
        | mk outcome₂ s₂ =>
          rw [hlast] at h hsep
          cases outcome₂ with
          | error e => cases h
          | ok writer₂ =>
            cases h
            exact congrArg some ((hsep.file_eq writer₂ rfl).trans hfile)

theorem touches_finish (b : Buffer) (s : Staging) : s.Touches b.file? (b.finish s).2 := by
  unfold finish file?
  cases b.holding with
  | memory reversed => exact .refl _ s
  | staged writer => exact StagingWriter.touches_finish writer s

end Buffer

/-! ## Files that are left -/

/-- Of the files that were created since a moment at most this one is left, which is one
of them.  Files from before are as they were. -/
structure Staging.Tidy (before : Staging) (file : Option Nat) (s : Staging) : Prop where
  created_le : before.created ≤ s.created
  left_iff : ∀ id, before.created ≤ id → id < s.created →
    ((s.content? id).isSome = true ↔ file = some id)
  others_eq : ∀ id, id < before.created ∨ s.created ≤ id → s.content? id = before.content? id
  created_since : ∀ id, file = some id → before.created ≤ id ∧ id < s.created

namespace Staging

variable {before s s' : Staging} {file : Option Nat}

theorem tidy_start (s : Staging) : s.Tidy none s where
  created_le := Nat.le_refl _
  left_iff := fun _ hle hlt => absurd hle (Nat.not_le_of_lt hlt)
  others_eq := fun _ _ => rfl
  created_since := fun _ h => (nomatch h)

theorem tidy_amid (h : before.Tidy file s) (usable : Bool) (room : Option Nat) :
    before.Tidy file (s.amid usable room) :=
  ⟨h.created_le, h.left_iff, h.others_eq, h.created_since⟩

theorem tidy_touches (h : before.Tidy file s) (hs : s.Touches file s') : before.Tidy file s' where
  created_le := hs.created_eq ▸ h.created_le
  left_iff := fun id hle hlt => by
    rw [hs.exists_eq]
    exact h.left_iff id hle (hs.created_eq ▸ hlt)
  others_eq := fun id hid => by
    rw [hs.created_eq] at hid
    have hne : file ≠ some id := fun hfile => by
      obtain ⟨hle, hlt⟩ := h.created_since id hfile
      omega
    rw [hs.content_eq id hne, h.others_eq id hid]
  created_since := fun id hfile => by
    rw [hs.created_eq]
    exact h.created_since id hfile

/-- A buffer that is discarded takes its file with it. -/
theorem tidy_discard {b : Buffer} (h : before.Tidy b.file? s) :
    before.Tidy none (b.discard s) := by
  unfold Buffer.discard
  unfold Buffer.file? at h
  cases hholding : b.holding with
  | memory reversed =>
    rw [hholding] at h
    exact h
  | staged writer =>
    rw [hholding] at h
    obtain ⟨hle, hlt⟩ := h.created_since writer.file rfl
    refine ⟨h.created_le, fun id hid hid' => ?_, fun id hid => ?_, by simp⟩
    · simp only [delete, content?]
      by_cases hsame : id = writer.file
      · rw [hsame, Dictionary.find?_erase_self]
        simp
      · rw [Dictionary.find?_erase_of_ne hsame]
        have hleft := h.left_iff id hid hid'
        constructor
        · intro hsome
          exact absurd (Option.some.inj (hleft.mp hsome)).symm hsame
        · intro hnone
          cases hnone
    · have hother : id ≠ writer.file := by
        simp only [delete] at hid
        omega
      simp only [delete, content?]
      rw [Dictionary.find?_erase_of_ne hother]
      exact h.others_eq id hid

theorem tidy_create {kind : BufferKind} {now : Duration} (h : before.Tidy none s)
    {answer : Except ArchiveError Buffer} (hcreate : Buffer.create kind now s = (answer, s')) :
    before.Tidy (match answer with | .ok b => b.file? | .error _ => none) s' := by
  cases kind with
  | memory =>
    cases hcreate
    exact h
  | staged =>
    unfold Buffer.create Staging.create at hcreate
    by_cases husable : s.usable = true
    · rw [if_pos husable] at hcreate
      cases hcreate
      have hle := h.created_le
      refine ⟨Nat.le_succ_of_le hle, fun id hid hid' => ?_, fun id hid => ?_, fun id hfile => ?_⟩
      · show (Dictionary.find? id (Dictionary.insert s.created [] s.files)).isSome = true ↔
          some s.created = some id
        by_cases hsame : id = s.created
        · rw [hsame, Dictionary.find?_insert_self]
          exact ⟨fun _ => rfl, fun _ => rfl⟩
        · have hid₁ : id < s.created := by
            simp only at hid'
            omega
          rw [Dictionary.find?_insert_of_ne hsame]
          refine ⟨fun hsome => ?_, fun hfile => absurd (Option.some.inj hfile).symm hsame⟩
          exact nomatch (h.left_iff id hid hid₁).mp hsome
      · show Dictionary.find? id (Dictionary.insert s.created [] s.files) = _
        simp only at hid
        have hother : id ≠ s.created := by omega
        rw [Dictionary.find?_insert_of_ne hother]
        exact h.others_eq id (by omega)
      · obtain rfl : s.created = id := Option.some.inj hfile
        exact ⟨hle, Nat.lt_succ_self _⟩
    · rw [if_neg husable] at hcreate
      cases hcreate
      exact h

end Staging

end RecordArchive
