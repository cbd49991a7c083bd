import RecordArchive.Buffer

/-!
# Staging files on a disk that stays as it is

A disk that has room enough, and one that is full, is the same after a write.  What
a buffer does then depends on nothing else that the surroundings change.  The main
statements are `room_append` and `room_finish`, that buffers leave the room as it
is, and `finish_amid`, that a buffer is finished alike whether or not the staging
directory can still be used.
-/

namespace RecordArchive

/-- The disk has room enough, or none. -/
def Staging.Steady (s : Staging) : Prop := s.room = none ∨ s.room = some 0

/-- The staging files in other surroundings. -/
def Staging.amid (s : Staging) (usable : Bool) (room : Option Nat) : Staging :=
  { s with usable := usable, room := room }

namespace StagingWriter

variable {s : Staging}

theorem room_extend (hs : s.Steady) (id : Nat) (piece : Bytes) :
    (s.extend id piece).2.room = s.room := by
  unfold Staging.extend
  rcases hs with hroom | hroom
  · simp only [hroom, Option.map_none]
  · simp only [hroom, Option.map_some, Nat.zero_sub]

theorem room_send (hs : s.Steady) (w : StagingWriter) (piece : Bytes) :
    (w.send piece s).2.room = s.room := by
  unfold send
  by_cases hfailed : w.failed = true
  · rw [if_pos hfailed]
  · rw [if_neg hfailed]
    exact room_extend hs w.file piece

theorem room_sendPending (hs : s.Steady) (w : StagingWriter) :
    (w.sendPending s).2.room = s.room := by
  unfold sendPending
  by_cases hnone : w.pending.isEmpty = true
  · rw [if_pos hnone]
  · rw [if_neg hnone]
    exact room_send hs _ _

theorem room_gather (hs : s.Steady) (w : StagingWriter) (piece : Bytes) :
    (w.gather piece s).2.room = s.room := by
  unfold gather
  by_cases hlong : capacity ≤ piece.length
  · rw [if_pos hlong]
    exact room_send hs w piece
  · rw [if_neg hlong]

theorem room_write (hs : s.Steady) (w : StagingWriter) (piece : Bytes) :
    (w.write piece s).2.room = s.room := by
  unfold write
  by_cases hnil : piece.isEmpty = true
  · rw [if_pos hnil]
  · rw [if_neg hnil]
    by_cases hfull : capacity < w.pending.length + piece.length
    · rw [if_pos hfull]
      have hsent := room_sendPending hs w
      cases hsend : w.sendPending s with
      | mk outcome s' =>
        rw [hsend] at hsent
        have hs' : s'.Steady := by
          unfold Staging.Steady
          rw [hsent]
          exact hs
        cases outcome with
        | error e => exact hsent
        | ok w' => exact (room_gather hs' w' piece).trans hsent
    · rw [if_neg hfull]
      exact room_gather hs w piece

theorem room_finish (hs : s.Steady) (w : StagingWriter) : (w.finish s).2.room = s.room := by
  have hsent := room_sendPending hs w
  unfold finish
  cases hsend : w.sendPending s with
  | mk outcome s' =>
    rw [hsend] at hsent
    cases outcome with
    | error e => exact hsent
    | ok w' => exact hsent

theorem sendPending_usable (w : StagingWriter) (s : Staging) (usable : Bool) :
    w.sendPending { s with usable := usable } =
      ((w.sendPending s).1, { (w.sendPending s).2 with usable := usable }) := by
  unfold sendPending send
  by_cases hnone : w.pending.isEmpty = true
  · rw [if_pos hnone, if_pos hnone]
  · rw [if_neg hnone, if_neg hnone]
    by_cases hfailed : w.failed = true
    · rw [if_pos hfailed, if_pos hfailed]
      rfl
    · rw [if_neg hfailed, if_neg hfailed]
      rfl

theorem finish_usable (w : StagingWriter) (s : Staging) (usable : Bool) :
    w.finish { s with usable := usable } =
      ((w.finish s).1, { (w.finish s).2 with usable := usable }) := by
  unfold finish
  rw [sendPending_usable]
  cases w.sendPending s with
  | mk outcome s' => cases outcome <;> rfl

end StagingWriter

namespace Buffer

variable {b : Buffer} {s : Staging}

def kind (b : Buffer) : BufferKind :=
  match b.holding with
  | .memory _ => .memory
  | .staged _ => .staged

theorem kind_create {kind : BufferKind} {now : Duration} {s' : Staging}
    (h : create kind now s = (.ok b, s')) : b.kind = kind := by
  cases kind with
  | memory =>
    cases h
    rfl
  | staged =>
    unfold create Staging.create at h
    by_cases husable : s.usable = true
    · rw [if_pos husable] at h
      cases h
      rfl
    · rw [if_neg husable] at h
      cases h

theorem kind_append {record : Bytes} {b' : Buffer} {s' : Staging}
    (h : b.append record s = (.ok b', s')) : b'.kind = b.kind ∧ b'.count = b.count + 1 := by
  unfold append appendTo at h
  unfold kind
  cases hholding : b.holding with
  | memory reversed =>
    rw [hholding] at h
    cases h
    exact ⟨rfl, rfl⟩
  | staged writer =>
    simp only [hholding] at h
    cases hwrite : writer.write record s with
    | mk outcome s₁ =>
      cases outcome with
      | error e => simp [hwrite, Except.map] at h
      | ok writer₁ =>
        simp only [hwrite] at h
        cases hsep : writer₁.write (separator record) s₁ with
        | mk outcome₂ s₂ =>
          cases outcome₂ with
          | error e => simp [hsep, Except.map] at h
          | ok writer₂ =>
            simp only [hsep, Except.map, Prod.mk.injEq, Except.ok.injEq] at h
            obtain ⟨rfl, -⟩ := h
            exact ⟨rfl, rfl⟩

theorem room_create (kind : BufferKind) (now : Duration) (s : Staging) :
    (create kind now s).2.room = s.room := by
  cases kind with
  | memory => rfl
  | staged =>
    unfold create Staging.create
    by_cases husable : s.usable = true
    · rw [if_pos husable]
    · rw [if_neg husable]

theorem room_append (hs : b.kind = .staged → s.Steady) (record : Bytes) :
    (b.append record s).2.room = s.room := by
  unfold append appendTo
  unfold kind at hs
  cases hholding : b.holding with
  | memory reversed => rfl
  | staged writer =>
    have hsteady : s.Steady := hs (by rw [hholding])
    have hwritten := StagingWriter.room_write hsteady writer record
    simp only
    cases hwrite : writer.write record s with
    | mk outcome s₁ =>
      rw [hwrite] at hwritten
      cases outcome with
      | error e => exact hwritten
      | ok writer₁ =>
        have hsteady₁ : s₁.Steady := by
          unfold Staging.Steady
          rw [hwritten]
          exact hsteady
        exact (StagingWriter.room_write hsteady₁ writer₁ (separator record)).trans hwritten

theorem room_finish (hs : b.kind = .staged → s.Steady) : (b.finish s).2.room = s.room := by
  unfold finish
  unfold kind at hs
  cases hholding : b.holding with
  | memory reversed => rfl
  | staged writer => exact StagingWriter.room_finish (hs (by rw [hholding])) writer

theorem room_discard (b : Buffer) (s : Staging) : (b.discard s).room = s.room := by
  unfold discard
  cases b.holding <;> rfl

/-- A buffer is finished alike in all surroundings in which the disk is the same. -/
theorem finish_amid (hs : b.kind = .staged → s.Steady) {usable : Bool} {room : Option Nat}
    (hroom : b.kind = .staged → s.room = room) :
    b.finish (s.amid usable room) = ((b.finish s).1, (b.finish s).2.amid usable room) := by
  have hleft := room_finish hs
  unfold finish at hleft ⊢
  unfold kind at hs hroom
  cases hholding : b.holding with
  | memory reversed => rfl
  | staged writer =>
    rw [hholding] at hs hroom hleft
    obtain rfl : s.room = room := hroom rfl
    have hsame : s.amid usable s.room = { s with usable := usable } := rfl
    simp only [hsame, StagingWriter.finish_usable]
    unfold Staging.amid
    rw [← hleft]

theorem discard_amid (b : Buffer) (s : Staging) (usable : Bool) (room : Option Nat) :
    b.discard (s.amid usable room) = (b.discard s).amid usable room := by
  unfold discard
  cases b.holding <;> rfl

end Buffer

end RecordArchive
