import RecordArchive.Buffer

/-!
# What a buffer holds

A buffer holds the records that were appended to it, each ended by a line feed,
one after the other.  In memory these are the bytes that are held.  In a staging
file they are the file and the pieces still gathered, unless a send has failed
that was not reported yet; the file then has only a part of them, from the front.
The main statements are `holds_append`, that an append adds its record and
nothing else, and `content?_finish`, that a writer which can be finished has put
everything that it took into its file.
-/

namespace RecordArchive

/-! ## Staging files -/

/-- A file that exists grows by a piece, or by a part of it where there is too
little room. -/
theorem Staging.content?_extend {s : Staging} {id : Nat} {stored : Bytes}
    (h : s.content? id = some stored) (piece : Bytes) :
    ∃ fits, fits ≤ piece.length ∧ (s.extend id piece).1 = decide (fits = piece.length) ∧
      (s.extend id piece).2.content? id = some (stored ++ piece.take fits) := by
  unfold Staging.extend
  rw [h]
  cases s.room with
  | none => exact ⟨piece.length, Nat.le_refl _, rfl, by simp [Staging.content?]⟩
  | some room =>
    exact ⟨min room piece.length, Nat.min_le_right _ _, rfl, by simp [Staging.content?]⟩

namespace StagingWriter

/-- The bytes that a writer has taken.  As long as no send has failed they are the
file and what is gathered. -/
def Carries (w : StagingWriter) (s : Staging) (bytes : Bytes) : Prop :=
  ∃ stored, s.content? w.file = some stored ∧
    if w.failed then stored <+: bytes else stored ++ w.pending = bytes

/-- A send that is not refused hands over its piece.  Nothing may be gathered, or
the piece would overtake it. -/
theorem carries_send {w w' : StagingWriter} {s s' : Staging} {bytes piece : Bytes}
    (hc : w.Carries s bytes) (hp : w.pending = []) (h : w.send piece s = (.ok w', s')) :
    w'.Carries s' (bytes ++ piece) ∧ w'.pending = [] ∧ w'.file = w.file := by
  obtain ⟨stored, hs, hb⟩ := hc
  unfold send at h
  cases hf : w.failed with
  | true => simp [hf] at h
  | false =>
    simp only [hf, Bool.false_eq_true, if_false, hp, List.append_nil] at hb h
    obtain ⟨fits, _, hw, hg⟩ := Staging.content?_extend hs piece
    simp only [Prod.mk.injEq, Except.ok.injEq] at h
    obtain ⟨rfl, rfl⟩ := h
    refine ⟨⟨stored ++ piece.take fits, hg, ?_⟩, rfl, rfl⟩
    subst hb
    by_cases hall : fits = piece.length
    · simp [hw, hall]
    · simp only [hw, hall, decide_false, Bool.not_false, if_true]
      exact List.prefix_append_right_inj _ |>.mpr (List.take_prefix _ _)

theorem carries_sendPending {w w' : StagingWriter} {s s' : Staging} {bytes : Bytes}
    (hc : w.Carries s bytes) (h : w.sendPending s = (.ok w', s')) :
    w'.Carries s' bytes ∧ w'.pending = [] ∧ w'.file = w.file := by
  unfold sendPending at h
  split at h
  · rename_i hp
    simp only [Prod.mk.injEq, Except.ok.injEq] at h
    obtain ⟨rfl, rfl⟩ := h
    exact ⟨by simpa using hc, by simpa using hp, rfl⟩
  · obtain ⟨stored, hs, hb⟩ := hc
    cases hf : w.failed with
    | true => simp [send, hf] at h
    | false =>
      simp only [hf, Bool.false_eq_true, if_false] at hb
      subst hb
      exact carries_send (w := { w with pending := [] }) ⟨stored, hs, by simp [hf]⟩ rfl h

theorem carries_gather {w w' : StagingWriter} {s s' : Staging} {bytes piece : Bytes}
    (hc : w.Carries s bytes) (hp : w.pending = [] ∨ w.pending.length + piece.length ≤ capacity)
    (h : w.gather piece s = (.ok w', s')) :
    w'.Carries s' (bytes ++ piece) ∧ w'.file = w.file := by
  unfold gather at h
  split at h
  · rename_i hlen
    have hnil : w.pending = [] := by
      rcases hp with hp | hp
      · exact hp
      · exact List.eq_nil_of_length_eq_zero (by omega)
    obtain ⟨h, _, hfile⟩ := carries_send hc hnil h
    exact ⟨h, hfile⟩
  · simp only [Prod.mk.injEq, Except.ok.injEq] at h
    obtain ⟨rfl, rfl⟩ := h
    obtain ⟨stored, hs, hb⟩ := hc
    refine ⟨⟨stored, hs, ?_⟩, rfl⟩
    cases hf : w.failed with
    | true =>
      simp only [hf, if_true] at hb ⊢
      exact hb.trans (List.prefix_append _ _)
    | false =>
      simp only [hf, Bool.false_eq_true, if_false] at hb ⊢
      rw [← List.append_assoc, hb]

theorem carries_write {w w' : StagingWriter} {s s' : Staging} {bytes piece : Bytes}
    (hc : w.Carries s bytes) (h : w.write piece s = (.ok w', s')) :
    w'.Carries s' (bytes ++ piece) ∧ w'.file = w.file := by
  unfold write at h
  split at h
  · rename_i hnil
    simp only [Prod.mk.injEq, Except.ok.injEq] at h
    obtain ⟨rfl, rfl⟩ := h
    have hnil : piece = [] := by simpa using hnil
    exact ⟨by simpa [hnil] using hc, rfl⟩
  · split at h
    · split at h
      · cases h
      · rename_i w₁ s₁ hsent
        obtain ⟨hc₁, hp₁, hf₁⟩ := carries_sendPending hc hsent
        obtain ⟨hc₂, hf₂⟩ := carries_gather hc₁ (Or.inl hp₁) h
        exact ⟨hc₂, hf₂.trans hf₁⟩
    · exact carries_gather hc (Or.inr (by omega)) h

/-- A writer that finishes has put everything that it took into its file. -/
theorem content?_finish {w : StagingWriter} {s s' : Staging} {bytes : Bytes}
    (hc : w.Carries s bytes) (h : w.finish s = (.ok (), s')) :
    s'.content? w.file = some bytes := by
  unfold finish at h
  split at h
  · cases h
  · rename_i w₁ s₁ hsent
    obtain ⟨⟨stored, hs, hb⟩, hp, hfile⟩ := carries_sendPending hc hsent
    cases hf : w₁.failed with
    | true => simp [hf] at h
    | false =>
      simp only [hf, Bool.false_eq_true, if_false, hp, List.append_nil] at hb h
      obtain ⟨-, rfl⟩ := Prod.mk.inj h
      rw [← hfile, hs, hb]

theorem carries_congr {w : StagingWriter} {s s' : Staging} (hs : s'.files = s.files)
    (bytes : Bytes) : w.Carries s' bytes ↔ w.Carries s bytes := by
  simp only [Carries, Staging.content?, hs]

end StagingWriter

/-! ## Buffers -/

/-- The bytes that are held. -/
def Holding.Keeps (h : Holding) (s : Staging) (bytes : Bytes) : Prop :=
  match h with
  | .memory reversed => reversed.reverse.flatten = bytes
  | .staged writer => writer.Carries s bytes

namespace Buffer

/-- The records of a buffer, with its count and its size. -/
structure Holds (b : Buffer) (s : Staging) (records : List Bytes) : Prop where
  count_eq : b.count = records.length
  size_eq : b.size = records.flatten.length
  keeps : b.holding.Keeps s records.flatten

theorem holds_congr {b : Buffer} {s s' : Staging} {records : List Bytes} (h : b.Holds s records)
    (hs : s'.files = s.files) : b.Holds s' records := by
  refine ⟨h.count_eq, h.size_eq, ?_⟩
  have hk := h.keeps
  cases hh : b.holding with
  | memory reversed => rwa [hh] at hk
  | staged writer =>
    rw [hh] at hk
    exact (StagingWriter.carries_congr hs _).mpr hk

theorem holds_create {kind : BufferKind} {now : Duration} {s s' : Staging} {b : Buffer}
    (h : create kind now s = (.ok b, s')) : b.Holds s' [] := by
  cases kind with
  | memory =>
    obtain ⟨hb, rfl⟩ := Prod.mk.inj h
    cases hb
    exact ⟨rfl, rfl, rfl⟩
  | staged =>
    cases hu : s.usable with
    | true =>
      simp only [create, Staging.create, hu, if_true, Except.map, Prod.mk.injEq,
        Except.ok.injEq] at h
      obtain ⟨rfl, rfl⟩ := h
      exact ⟨rfl, rfl, [], Dictionary.find?_insert_self _ _ _, rfl⟩
    | false => simp [create, Staging.create, hu, Except.map] at h

theorem createdAt_create {kind : BufferKind} {now : Duration} {s s' : Staging} {b : Buffer}
    (h : create kind now s = (.ok b, s')) : b.createdAt = now := by
  cases kind with
  | memory =>
    obtain ⟨hb, -⟩ := Prod.mk.inj h
    cases hb
    rfl
  | staged =>
    cases hu : s.usable with
    | true =>
      simp only [create, Staging.create, hu, if_true, Except.map, Prod.mk.injEq,
        Except.ok.injEq] at h
      rw [← h.1]
    | false => simp [create, Staging.create, hu, Except.map] at h

theorem length_terminated (record : Bytes) :
    record.terminated.length = record.length + (separator record).length := by
  rw [← append_separator, List.length_append]

theorem keeps_appendTo {h h' : Holding} {s s' : Staging} {bytes record : Bytes}
    (hk : h.Keeps s bytes) (ha : appendTo h record s = (.ok h', s')) :
    h'.Keeps s' (bytes ++ record.terminated) := by
  unfold appendTo at ha
  split at ha
  · obtain ⟨hh, rfl⟩ := Prod.mk.inj ha
    cases hh
    simp only [Holding.Keeps] at hk ⊢
    rw [List.reverse_cons, List.flatten_concat, hk]
  · split at ha
    · cases ha
    · rename_i writer w₁ s₁ hrecord
      obtain ⟨hc₁, -⟩ := StagingWriter.carries_write hk hrecord
      cases hsep : w₁.write (separator record) s₁ with
      | mk written s₂ =>
        rw [hsep] at ha
        obtain ⟨hh, rfl⟩ := Prod.mk.inj ha
        cases written with
        | error e => cases hh
        | ok w₂ =>
          cases hh
          obtain ⟨hc₂, -⟩ := StagingWriter.carries_write hc₁ hsep
          rw [← append_separator, ← List.append_assoc]
          exact hc₂

/-- An append adds its record, ended by a line feed, after those that are there. -/
theorem holds_append {b b' : Buffer} {s s' : Staging} {records : List Bytes} {record : Bytes}
    (hb : b.Holds s records) (h : b.append record s = (.ok b', s')) :
    b'.Holds s' (records ++ [record.terminated]) := by
  unfold append at h
  cases ha : appendTo b.holding record s with
  | mk holding s₁ =>
    rw [ha] at h
    obtain ⟨hh, rfl⟩ := Prod.mk.inj h
    cases holding with
    | error e => cases hh
    | ok holding =>
      cases hh
      refine ⟨by simp [hb.count_eq], ?_, ?_⟩
      · simp only [hb.size_eq, List.flatten_concat, List.length_append, length_terminated]
        omega
      · rw [List.flatten_concat]
        exact keeps_appendTo hb.keeps ha

theorem createdAt_append {b b' : Buffer} {s s' : Staging} {record : Bytes}
    (h : b.append record s = (.ok b', s')) : b'.createdAt = b.createdAt := by
  unfold append at h
  cases ha : appendTo b.holding record s with
  | mk holding s₁ =>
    rw [ha] at h
    obtain ⟨hh, -⟩ := Prod.mk.inj h
    cases holding with
    | error e => cases hh
    | ok holding => cases hh; rfl

end Buffer

end RecordArchive
