import RecordArchive.Codec
import RecordArchive.Proofs.Json.Reading
import RecordArchive.Proofs.Source.Content
import RecordArchive.Proofs.Text.Utf8

/-!
# Files of printed records

A source is read until a batch comes out empty.  A file of printed objects, each on a
line of its own, is then read as those objects, in whatever batches they come:
`readsAs_lines`.
-/

namespace RecordArchive

namespace Bytes

theorem terminated_of_notMem {bytes : Bytes} (h : lineFeed ∉ bytes) :
    bytes.terminated = bytes ++ [lineFeed] := by
  have hopen : ¬bytes.endsLine = true := by
    intro hends
    exact h (List.mem_of_getLast? (beq_iff_eq.mp hends))
  rw [terminated, if_neg hopen]

theorem lines_append_lineFeed {body : Bytes} (h : lineFeed ∉ body) (rest : Bytes) :
    lines (body ++ [lineFeed] ++ rest) = (body ++ [lineFeed]) :: lines rest := by
  induction body with
  | nil => rfl
  | cons byte more ih =>
    obtain ⟨hne, hmore⟩ := not_or.mp (fun hmem => h (List.mem_cons.mpr hmem))
    have hbyte : ¬(byte == lineFeed) = true := fun heq => hne (beq_iff_eq.mp heq).symm
    rw [List.cons_append, List.cons_append, lines_cons, ih hmore, addToLines, if_neg hbyte]

end Bytes

/-! ## The line of a record -/

/-- The bytes of a record in a file. -/
def Record.line (record : Record) : Bytes := Utf8.encode record.print ++ [lineFeed]

namespace Record

variable {record : Record} {records : List Record}

theorem lineFeed_notMem_encode (record : Record) : lineFeed ∉ Utf8.encode record.print := by
  apply Utf8.lineFeed_notMem_encodeChars
  rw [Json.print, String.toList_ofList]
  intro hmem
  exact absurd (record.visible_render '\n' hmem) (by decide)

theorem terminated_line (record : Record) : Bytes.terminated record.line = record.line := by
  have hends : Bytes.endsLine record.line = true := by
    rw [Bytes.endsLine, line, List.getLast?_concat]
    rfl
  rw [Bytes.terminated, if_pos hends]

theorem encode_ndjson (record : Record) : Codec.ndjson.encode record = .ok record.line :=
  congrArg Except.ok (Bytes.terminated_of_notMem (lineFeed_notMem_encode record))

theorem mapM_encode_ndjson (h : ∀ record ∈ records, record.Plain) :
    records.mapM Codec.ndjson.encode = .ok (records.map line) := by
  induction records with
  | nil => rfl
  | cons record rest ih =>
    rw [List.mapM_cons, encode_ndjson record, ih (List.forall_mem_cons.mp h).2]
    rfl

theorem lines_flatten (records : List Record) :
    Bytes.lines (records.map line).flatten = records.map line := by
  induction records with
  | nil => rfl
  | cons record rest ih =>
    have hline := Bytes.lines_append_lineFeed (lineFeed_notMem_encode record)
    rw [List.map_cons, List.flatten_cons, line, hline, ih]

end Record

namespace Source

/-- The end of the line is all that is taken off. -/
theorem lineText_line (record : Record) : lineText record.line = record.print := by
  have hbytes : record.line = Utf8.encodeChars (record.render ++ ['\n']) := by
    rw [Utf8.encodeChars_append, Record.line, Utf8.encode, Json.print, String.toList_ofList]
    rfl
  have hkept : record.render.reverse.dropWhile (fun c => c == '\n' || c == '\r') =
      record.render.reverse := by
    cases hcs : record.render.reverse with
    | nil => rfl
    | cons c rest =>
      have hvisible := record.visible_render c
        (List.mem_reverse.mp (hcs ▸ List.mem_cons_self))
      apply List.dropWhile_cons_of_neg
      rintro hend
      rcases Bool.or_eq_true_iff.mp hend with heq | heq <;> rw [beq_iff_eq.mp heq] at hvisible <;>
        revert hvisible <;> decide
  rw [lineText, hbytes, Utf8.decodeChars_encodeChars, List.reverse_append]
  show String.ofList (record.render.reverse.dropWhile _).reverse = _
  rw [hkept, List.reverse_reverse]
  rfl

theorem recordOf?_line {fields : List (String × Json)} (h : (Json.object fields).Plain)
    (hdepth : (Json.object fields).depth ≤ Json.greatestDepth) :
    recordOf? (Record.line (.object fields)) = some (.object fields) := by
  have hbrace : ¬Text.isBlank (lineText (Record.line (.object fields))) = true := by
    rw [lineText_line, Text.isBlank, Json.print, String.toList_ofList]
    show ¬(false && _) = true
    rw [Bool.false_and]
    decide
  rw [recordOf?_of_not_blank hbrace, lineText_line, Record.ofLine_print h hdepth]

/-! ## Reading until a source is dry -/

/-- The records of the batches of a source, up to the first that comes out empty. -/
inductive Dries : Source → List Record → Prop
  | dry {s s' : Source} (h : s.next = .ok (none, s')) : Dries s []
  | batch {s s' : Source} {batch rest : List Record} (h : s.next = .ok (some batch, s'))
      (hrest : Dries s' rest) : Dries s (batch ++ rest)

/-- Nothing but its stream comes out of a source. -/
theorem Dries.eq_stream {s : Source} {records : List Record} (h : s.Dries records) :
    records = s.stream := by
  induction h with
  | dry h => exact (stream_of_next_none h).symm
  | batch h _ ih => rw [stream_of_next_some h, ih]

theorem dries_lines (ls : List Bytes) (limits : BatchLimits) :
    (lines ls limits).Dries (lines ls limits).stream := by
  induction hlength : ls.length using Nat.strongRecOn generalizing ls with
  | ind n ih =>
    subst hlength
    by_cases hnil : (batchFrom limits 0 0 ls).1.isEmpty = true
    · have hnext : (lines ls limits).next =
          .ok (none, lines (batchFrom limits 0 0 ls).2 limits) := by
        simp only [next, hnil, if_true]
      rw [stream_of_next_none hnext]
      exact .dry hnext
    · have hnext : (lines ls limits).next =
          .ok (some (batchFrom limits 0 0 ls).1, lines (batchFrom limits 0 0 ls).2 limits) := by
        simp only [next, hnil, Bool.false_eq_true, if_false]
      -- A batch that holds a record has used up a line.
      have hlength := length_batchFrom limits 0 0 ls
      have hpos : 0 < (batchFrom limits 0 0 ls).1.length :=
        List.length_pos_iff.mpr fun heq => hnil (List.isEmpty_iff.mpr heq)
      rw [stream_of_next_some hnext]
      exact .batch hnext (ih _ (by omega) _ rfl)

/-- A file of these bytes is read as these records, whatever the limits of batches. -/
def ReadsAs (content : Bytes) (records : List Record) : Prop :=
  ∀ (path : String) (limits : BatchLimits) (contents? : String → Option Contents),
    contents? path = some (some content) → 1 ≤ limits.bytes →
      ∃ source, start (.file path limits) contents? = .ok source ∧ source.Dries records

theorem readsAs_lines {records : List Record}
    (h : ∀ record ∈ records, record.isObject = true ∧ record.Plain ∧
      record.depth ≤ Json.greatestDepth) :
    ReadsAs (records.map Record.line).flatten records := by
  intro path limits contents? hcontents hbytes
  have hlines := Record.lines_flatten records
  have hsome : ∀ record ∈ records, (recordOf? ∘ Record.line) record = some record := by
    intro record hmem
    rw [Function.comp_apply]
    obtain ⟨hobject, hplain, hdepth⟩ := h record hmem
    cases record with
    | object fields => exact recordOf?_line hplain hdepth
    | _ => cases hobject
  have hcontent : (records.map Record.line).filterMap recordOf? = records := by
    rw [List.filterMap_map, List.filterMap_congr hsome, List.filterMap_some]
  have hstream : (lines (records.map Record.line) limits).stream = records := by
    have hroom : (limits.bytes == 0) = false := beq_eq_false_iff_ne.mpr (by omega)
    rw [stream, stalls, hroom]
    exact hcontent
  refine ⟨lines (records.map Record.line) limits, ?_, ?_⟩
  · rw [start, hcontents]
    show Except.ok (lines (Bytes.lines _) limits) = _
    rw [hlines]
  · have hdries := dries_lines (records.map Record.line) limits
    rwa [hstream] at hdries

end Source

end RecordArchive
