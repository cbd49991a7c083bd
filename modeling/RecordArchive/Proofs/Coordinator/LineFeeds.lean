import RecordArchive.Proofs.Coordinator.Contents
import RecordArchive.Proofs.Sample
import RecordArchive.Proofs.Source.Lines
import RecordArchive.Proofs.Text.Search

/-!
# The line feeds of an object

A record that is written as JSON takes one line, since a line feed in a text is escaped there.
The text of a field is copied as it is: a line feed at its very end is the end of the record,
and every other one begins a line of its own.  An object has as many line feeds as records
exactly when none of its records brings such a line.  The main statement is
`lines_of_objects`.
-/

namespace RecordArchive

/-! ## The line feeds of a record -/

namespace Utf8

/-- Bytes end in a line feed when their text does. -/
theorem endsLine_encodeChars (front : List Char) (c : Char) :
    Bytes.endsLine (encodeChars (front ++ [c])) = (c == '\n') := by
  have hlast : encodeChars (front ++ [c]) = encodeChars front ++ encodeChar c := by
    rw [encodeChars_append]
    exact congrArg _ (List.append_nil _)
  have hne := encodeChar_ne_nil c
  rw [Bytes.endsLine, hlast, List.getLast?_append_of_ne_nil _ hne,
    List.getLast?_eq_some_getLast hne]
  by_cases hc : c = '\n'
  · subst hc
    rfl
  · have hother : (encodeChar c).getLast hne ≠ lineFeed := by
      intro heq
      exact hc (eq_lineFeed_of_mem_encodeChar (heq ▸ List.getLast_mem hne))
    rw [beq_eq_false_iff_ne.mpr hc]
    exact beq_eq_false_iff_ne.mpr fun heq => hother (Option.some.inj heq)

/-- A text that is ended as a line has the line feeds that stand before its last character,
and one at its end. -/
theorem count_terminated (cs : List Char) :
    (Bytes.terminated (encodeChars cs)).count lineFeed = cs.dropLast.count '\n' + 1 := by
  rcases cs.eq_nil_or_concat' with rfl | ⟨front, c, rfl⟩
  · rfl
  · rw [Bytes.terminated, endsLine_encodeChars, List.dropLast_concat]
    by_cases hc : c = '\n'
    · subst hc
      rw [if_pos (beq_self_eq_true _), count_encodeChars, List.count_append]
      rfl
    · have hnone : [c].count '\n' = 0 := List.count_eq_zero_of_not_mem (by simpa using Ne.symm hc)
      rw [if_neg (by simpa using hc), List.count_append, count_encodeChars, List.count_append,
        hnone]
      rfl

end Utf8

namespace Codec

variable {codec : Codec} {record : Record} {bytes : Bytes}

theorem encode_eq_ok_iff : codec.encode record = .ok bytes ↔
    ∃ text, codec.text record = .ok text ∧ (Utf8.encode text).terminated = bytes := by
  unfold encode
  cases codec.text record with
  | error fault => simp [Except.map]
  | ok text => simp [Except.map]

theorem count_encode (h : codec.encode record = .ok bytes) : ∃ text,
    codec.text record = .ok text ∧ bytes.count lineFeed = text.toList.dropLast.count '\n' + 1 := by
  obtain ⟨text, htext, rfl⟩ := encode_eq_ok_iff.mp h
  exact ⟨text, htext, Utf8.count_terminated text.toList⟩

theorem count_encode_pos (h : codec.encode record = .ok bytes) : 0 < bytes.count lineFeed := by
  obtain ⟨text, -, hcount⟩ := count_encode h
  omega

end Codec

theorem Record.count_line (record : Record) : record.line.count lineFeed = 1 := by
  rw [line, List.count_append, List.count_eq_zero_of_not_mem (lineFeed_notMem_encode record)]
  rfl

/-! ## The line feeds of records one after the other -/

namespace Bytes

theorem length_le_count_flatten {ls : List Bytes} (h : ∀ l ∈ ls, 0 < l.count lineFeed) :
    ls.length ≤ ls.flatten.count lineFeed := by
  induction ls with
  | nil => exact Nat.le_refl 0
  | cons l rest ih =>
    obtain ⟨hl, hrest⟩ := List.forall_mem_cons.mp h
    have hle := ih hrest
    rw [List.flatten_cons, List.count_append, List.length_cons]
    omega

/-- There are as many line feeds as lines only if no line has a second one. -/
theorem count_flatten_eq_length_iff {ls : List Bytes} (h : ∀ l ∈ ls, 0 < l.count lineFeed) :
    ls.flatten.count lineFeed = ls.length ↔ ∀ l ∈ ls, l.count lineFeed = 1 := by
  induction ls with
  | nil => simp
  | cons l rest ih =>
    obtain ⟨hl, hrest⟩ := List.forall_mem_cons.mp h
    have hle := length_le_count_flatten hrest
    rw [List.flatten_cons, List.count_append, List.length_cons, List.forall_mem_cons, ← ih hrest]
    omega

end Bytes

/-! ## The line feeds of an object -/

/-- A buffer that was given up held records that were offered, as they are encoded, and they
are what every put made for it carried. -/
structure Retired.Written (sink : Sink) (offered : List Record) (r : Retired)
    (lines : List Bytes) : Prop where
  count_eq : r.buffer.count = lines.length
  encoded : ∀ bytes ∈ lines, ∃ record ∈ offered, sink.codec.encode record = .ok bytes
  content_eq : ∀ put ∈ r.puts, put.body.content? = some lines.flatten

namespace Retired.Written

variable {sink : Sink} {offered : List Record} {r : Retired} {lines : List Bytes}

theorem count_eq_iff (h : r.Written sink offered lines) :
    lines.flatten.count lineFeed = r.buffer.count ↔ ∀ bytes ∈ lines, bytes.count lineFeed = 1 := by
  rw [h.count_eq]
  apply Bytes.count_flatten_eq_length_iff
  intro bytes hmem
  obtain ⟨record, -, hcode⟩ := h.encoded bytes hmem
  exact Codec.count_encode_pos hcode

end Retired.Written

namespace Coordinator

variable {σ : Type} [ObjectStore σ]

theorem encode_of_mem_appended_run {sink : Sink} {calls : List (Circumstances σ × Call)}
    {c : Coordinator σ} {bytes : Bytes} (h : bytes ∈ appended (c.run sink calls).deeds) :
    ∃ record ∈ calls.flatMap (·.2.batch), sink.codec.encode record = .ok bytes := by
  obtain ⟨entry, hentry, hbytes⟩ := List.mem_flatMap.mp ((appended_run sink calls c).subset h)
  obtain ⟨record, hrecord, hcode⟩ := List.mem_filterMap.mp hbytes
  refine ⟨record, List.mem_flatMap.mpr ⟨entry, hentry, hrecord⟩, ?_⟩
  cases hanswer : sink.codec.encode record with
  | error fault => rw [hanswer] at hcode; cases hcode
  | ok other => rw [hanswer] at hcode; exact congrArg _ (Option.some.inj hcode)

/-- The buffers of a run that were given up held records as they are encoded. -/
theorem written_run (sink : Sink) (world : World σ) (calls : List (Circumstances σ × Call)) :
    let history := (start world).run sink calls
    ∃ groups, List.Forall₂ (Retired.Written sink (calls.flatMap (·.2.batch)))
        (retirements history.deeds) groups ∧
      history.final.world.puts.reverse =
        world.puts.reverse ++ (retirements history.deeds).flatMap (·.puts) := by
  intro history
  obtain ⟨groups, active, h⟩ := ledger_run sink world calls
  have hencoded : ∀ group ∈ groups, ∀ bytes ∈ group,
      ∃ record ∈ calls.flatMap (·.2.batch), sink.codec.encode record = .ok bytes := by
    intro group hgroup bytes hbytes
    have hmem : bytes ∈ (appended history.deeds).map Bytes.terminated := by
      rw [h.appended_eq]
      exact List.mem_append_left _ (List.mem_flatten_of_mem hgroup hbytes)
    obtain ⟨body, hbody, rfl⟩ := List.mem_map.mp hmem
    obtain ⟨record, hrecord, hcode⟩ := encode_of_mem_appended_run hbody
    -- What a codec answers ends in a line feed, so a buffer adds none.
    rw [Bytes.terminated, if_pos (Codec.endsLine_encode hcode)]
    exact ⟨record, hrecord, hcode⟩
  refine ⟨groups, ?_, h.puts_eq⟩
  have hheld := (List.forall₂_and_left groups _).mpr ⟨hencoded, h.retired.flip⟩
  refine List.Forall₂.flip (hheld.imp fun group r hboth => ?_)
  obtain ⟨hgroup, hr⟩ := hboth
  obtain ⟨name, -, hattempts⟩ := hr.attempts
  exact ⟨hr.holds.count_eq, hgroup, hattempts.content_eq⟩

/-- Every record ends in a line feed.  It has another one where a field that is copied has one
before its end, and only there; as JSON it has no other.  Every put carries the records of its
buffer, and its line feeds are as many as those records exactly when each of them has one. -/
theorem lines_of_objects (sink : Sink) (world : World σ)
    (calls : List (Circumstances σ × Call)) :
    let history := (start world).run sink calls
    (∀ record bytes, sink.codec.encode record = .ok bytes →
      bytes.endsLine = true ∧ ∃ text, sink.codec.text record = .ok text ∧
        (bytes.count lineFeed = 1 ↔ '\n' ∉ text.toList.dropLast)) ∧
    (sink.codec = .ndjson → ∀ record, ∃ bytes, sink.codec.encode record = .ok bytes ∧
      bytes.count lineFeed = 1) ∧
    history.final.world.puts.reverse =
      world.puts.reverse ++ (retirements history.deeds).flatMap (·.puts) ∧
    ∃ groups, List.Forall₂ (Retired.Written sink (calls.flatMap (·.2.batch)))
        (retirements history.deeds) groups ∧
      List.Forall₂ (fun r lines => ∀ put ∈ r.puts, ∃ content, put.body.content? = some content ∧
          (content.count lineFeed = r.buffer.count ↔
            ∀ bytes ∈ lines, bytes.count lineFeed = 1) ∧
          (sink.codec = .ndjson → content.count lineFeed = r.buffer.count))
        (retirements history.deeds) groups := by
  intro history
  have hjson : sink.codec = .ndjson → ∀ record, ∃ bytes, sink.codec.encode record = .ok bytes ∧
      bytes.count lineFeed = 1 := by
    intro hcodec record
    rw [hcodec]
    exact ⟨record.line, record.encode_ndjson, record.count_line⟩
  obtain ⟨groups, hwritten, hputs⟩ := written_run sink world calls
  refine ⟨?_, hjson, hputs, groups, hwritten, hwritten.imp fun r lines h put hput => ?_⟩
  · intro record bytes hcode
    obtain ⟨text, htext, hcount⟩ := Codec.count_encode hcode
    refine ⟨Codec.endsLine_encode hcode, text, htext, ?_⟩
    rw [hcount, ← List.count_eq_zero]
    omega
  · refine ⟨lines.flatten, h.content_eq put hput, h.count_eq_iff, fun hcodec => ?_⟩
    refine h.count_eq_iff.mpr fun bytes hmem => ?_
    obtain ⟨record, -, hcode⟩ := h.encoded bytes hmem
    obtain ⟨line, hline, hcount⟩ := hjson hcodec record
    rw [hcode] at hline
    exact Except.ok.inj hline ▸ hcount

/-- A text of two lines is copied as two lines, and its object has two line feeds for one
record. -/
theorem lines_of_two_line_text :
    let history := (start Sample.world).run Sample.sink
      [(Sample.calm, .accept [Sample.record "a\nb"]), (Sample.calm, .shutdown)]
    Sample.sink.codec.encode (Sample.record "a\nb") = .ok [97, lineFeed, 98, lineFeed] ∧
      [97, lineFeed, 98, lineFeed].count lineFeed ≠ 1 ∧
      (retirements history.deeds).map (·.buffer.count) = [1] ∧
      history.final.world.puts.map (fun put => put.body.content?.map (·.count lineFeed)) =
        [some 2] :=
  ⟨rfl, by decide, rfl, rfl⟩

end Coordinator

end RecordArchive
