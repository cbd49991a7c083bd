import RecordArchive.Proofs.Buffer.Contents

/-!
# Buffers and the room on the disk

Where the staging directory can be used and the disk is not short of room, no send
of a writer fails.  Buffers can then be made, written and finished; a buffer in
memory asks for neither.  The main statements are `create_of_serves`,
`append_of_serves` and `finish_of_serves`.

On a full disk a buffer can still be made, and its first long record is lost without
a sign: `append_of_full` and `append_of_failed`.
-/

namespace RecordArchive

/-! ## Writers -/

namespace Staging

/-- The directory can be used, and nothing that is written is too long. -/
structure Ample (s : Staging) : Prop where
  usable : s.usable = true
  room : s.room = none

theorem ample_delete {s : Staging} (h : s.Ample) (id : Nat) : (s.delete id).Ample :=
  ⟨h.usable, h.room⟩

theorem extend_of_ample {s : Staging} (h : s.Ample) (id : Nat) (piece : Bytes) :
    (s.extend id piece).1 = true ∧ (s.extend id piece).2.Ample := by
  unfold extend
  simp only [h.room, Option.map_none, decide_true, true_and]
  exact ⟨h.usable, rfl⟩

end Staging

namespace StagingWriter

variable {w : StagingWriter} {s : Staging}

theorem send_of_ample (hw : w.failed = false) (hs : s.Ample) (piece : Bytes) :
    ∃ w' s', w.send piece s = (.ok w', s') ∧ w'.failed = false ∧ s'.Ample := by
  obtain ⟨hwritten, hs'⟩ := Staging.extend_of_ample hs w.file piece
  unfold send
  simp only [hw, Bool.false_eq_true, if_false]
  exact ⟨_, _, rfl, by simp [hwritten], hs'⟩

theorem sendPending_of_ample (hw : w.failed = false) (hs : s.Ample) :
    ∃ w' s', w.sendPending s = (.ok w', s') ∧ w'.failed = false ∧ s'.Ample := by
  unfold sendPending
  by_cases hp : w.pending.isEmpty = true
  · rw [if_pos hp]
    exact ⟨w, s, rfl, hw, hs⟩
  · rw [if_neg hp]
    exact send_of_ample (w := { w with pending := [] }) hw hs w.pending

theorem gather_of_ample (hw : w.failed = false) (hs : s.Ample) (piece : Bytes) :
    ∃ w' s', w.gather piece s = (.ok w', s') ∧ w'.failed = false ∧ s'.Ample := by
  unfold gather
  by_cases hlong : capacity ≤ piece.length
  · rw [if_pos hlong]
    exact send_of_ample hw hs piece
  · rw [if_neg hlong]
    exact ⟨_, _, rfl, hw, hs⟩

theorem write_of_ample (hw : w.failed = false) (hs : s.Ample) (piece : Bytes) :
    ∃ w' s', w.write piece s = (.ok w', s') ∧ w'.failed = false ∧ s'.Ample := by
  unfold write
  by_cases hnil : piece.isEmpty = true
  · rw [if_pos hnil]
    exact ⟨w, s, rfl, hw, hs⟩
  · rw [if_neg hnil]
    by_cases hfull : capacity < w.pending.length + piece.length
    · obtain ⟨w₁, s₁, hsent, hw₁, hs₁⟩ := sendPending_of_ample hw hs
      rw [if_pos hfull, hsent]
      exact gather_of_ample hw₁ hs₁ piece
    · rw [if_neg hfull]
      exact gather_of_ample hw hs piece

theorem finish_of_ample (hw : w.failed = false) (hs : s.Ample) :
    ∃ s', w.finish s = (.ok (), s') ∧ s'.Ample := by
  obtain ⟨w₁, s₁, hsent, hw₁, hs₁⟩ := sendPending_of_ample hw hs
  unfold finish
  rw [hsent]
  exact ⟨s₁, by simp [hw₁], hs₁⟩

end StagingWriter

/-! ## Buffers -/

/-- Staging files serve buffers of a kind. -/
def Staging.Serves (s : Staging) (kind : BufferKind) : Prop := kind = .staged → s.Ample

namespace Buffer

variable {kind : BufferKind} {b : Buffer} {s : Staging}

/-- A buffer of a kind to which no write has failed. -/
def Sound (b : Buffer) (kind : BufferKind) : Prop :=
  match b.holding with
  | .memory _ => kind = .memory
  | .staged writer => kind = .staged ∧ writer.failed = false

theorem create_of_serves (hs : s.Serves kind) (now : Duration) :
    ∃ b s', create kind now s = (.ok b, s') ∧ b.Sound kind ∧ s'.Serves kind := by
  cases kind with
  | memory => exact ⟨_, _, rfl, rfl, hs⟩
  | staged =>
    obtain ⟨husable, hroom⟩ := hs rfl
    unfold create Staging.create
    simp only [husable, if_true]
    exact ⟨_, _, rfl, ⟨rfl, rfl⟩, fun _ => ⟨rfl, hroom⟩⟩

theorem appendTo_of_serves {h : Holding} (hb : Sound { holding := h, createdAt := .zero } kind)
    (hs : s.Serves kind) (record : Bytes) :
    ∃ h' s', appendTo h record s = (.ok h', s') ∧
      Sound { holding := h', createdAt := .zero } kind ∧ s'.Serves kind := by
  cases h with
  | memory reversed => exact ⟨_, _, rfl, hb, hs⟩
  | staged writer =>
    obtain ⟨hkind, hw⟩ := hb
    obtain ⟨w₁, s₁, hrecord, hw₁, hs₁⟩ := StagingWriter.write_of_ample hw (hs hkind) record
    obtain ⟨w₂, s₂, hsep, hw₂, hs₂⟩ := StagingWriter.write_of_ample hw₁ hs₁ (separator record)
    refine ⟨.staged w₂, s₂, ?_, ⟨hkind, hw₂⟩, fun _ => hs₂⟩
    simp only [appendTo, hrecord, hsep]
    rfl

theorem append_of_serves (hb : b.Sound kind) (hs : s.Serves kind) (record : Bytes) :
    ∃ b' s', b.append record s = (.ok b', s') ∧ b'.Sound kind ∧ s'.Serves kind := by
  obtain ⟨h', s', happend, hsound, hs'⟩ := appendTo_of_serves (h := b.holding) hb hs record
  unfold append
  rw [happend]
  exact ⟨_, s', rfl, hsound, hs'⟩

theorem finish_of_serves (hb : b.Sound kind) (hs : s.Serves kind) :
    ∃ s', b.finish s = (.ok (), s') ∧ s'.Serves kind := by
  unfold finish
  unfold Sound at hb
  split
  · exact ⟨s, rfl, hs⟩
  · rename_i writer hholding
    rw [hholding] at hb
    obtain ⟨s', hfinish, hs'⟩ := StagingWriter.finish_of_ample hb.2 (hs hb.1)
    exact ⟨s', hfinish, fun _ => hs'⟩

theorem serves_discard (hs : s.Serves kind) : (b.discard s).Serves kind := by
  intro hkind
  unfold discard
  split
  · exact hs hkind
  · exact Staging.ample_delete (hs hkind) _

end Buffer

/-! ## A full disk -/

namespace StagingWriter

variable {w : StagingWriter} {s : Staging} {piece : Bytes}

theorem write_of_capacity_le (hpending : w.pending = []) (hlong : capacity ≤ piece.length) :
    w.write piece s = w.send piece s := by
  have hne : piece.isEmpty = false := by
    cases piece with
    | nil => cases hlong
    | cons byte rest => rfl
  unfold write sendPending gather
  simp only [hne, hpending, hlong, List.isEmpty_nil, Bool.false_eq_true, if_false, if_true,
    ite_self]

/-- A send to a full disk is answered as if everything had been written. -/
theorem send_of_full (hw : w.failed = false) (hs : s.room = some 0) (hne : piece ≠ []) :
    ∃ s', w.send piece s = (.ok { w with failed := true }, s') := by
  have hlength : 0 ≠ piece.length := fun h => hne (List.eq_nil_of_length_eq_zero h.symm)
  unfold send Staging.extend
  simp only [hw, hs, Nat.zero_min, hlength, Bool.false_eq_true, if_false, decide_false,
    Bool.not_false]
  exact ⟨_, rfl⟩

end StagingWriter

namespace Buffer

variable {record : Bytes} {s : Staging}

/-- A long record goes to a full disk unnoticed. -/
theorem append_of_full {b : Buffer} {file : Nat} (hb : b.holding = .staged { file := file })
    (hs : s.room = some 0) (hlong : StagingWriter.capacity ≤ record.length)
    (hline : record.endsLine = true) :
    ∃ s', b.append record s =
      (.ok ⟨.staged { file := file, failed := true }, b.size + record.length, b.count + 1,
        b.createdAt⟩, s') := by
  have hne : record ≠ [] := fun h => by
    rw [h] at hlong
    cases hlong
  have hwrite : StagingWriter.write { file := file } record s = _ :=
    StagingWriter.write_of_capacity_le rfl hlong
  obtain ⟨s', hsend⟩ := StagingWriter.send_of_full (w := { file := file }) rfl hs hne
  have hsep : separator record = [] := by rw [separator, if_pos hline]
  have happend : appendTo b.holding record s =
      (.ok (.staged { file := file, failed := true }), s') := by
    simp only [hb, appendTo, hwrite, hsend, hsep]
    rfl
  unfold append
  rw [happend, hsep]
  exact ⟨s', rfl⟩

theorem append_of_failed {b : Buffer} {file : Nat}
    (hb : b.holding = .staged { file := file, failed := true })
    (hlong : StagingWriter.capacity ≤ record.length) : ∃ e, b.append record s = (.error e, s) := by
  have hwrite : StagingWriter.write { file := file, failed := true } record s = _ :=
    StagingWriter.write_of_capacity_le rfl hlong
  have happend : appendTo b.holding record s =
      (.error (StagingWriter.failure { file := file, failed := true } s), s) := by
    simp only [hb, appendTo, hwrite]
    rfl
  unfold append
  rw [happend]
  exact ⟨_, rfl⟩

end Buffer

end RecordArchive
