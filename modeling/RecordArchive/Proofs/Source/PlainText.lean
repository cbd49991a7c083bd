import RecordArchive.Codec
import RecordArchive.Proofs.Source.Lines
import RecordArchive.Proofs.Text.Segments

/-!
# Files of plain text

A file is read line by line in bytes, and each line is decoded and loses the characters
that end it.  For a text this is the same as cutting it at its line feeds:
`Source.content_of_text`.  A line that is no object becomes the message of a record, which
a codec that writes messages writes as the line again: `encode_ofLine`.
-/

namespace RecordArchive

namespace Text

/-- A line without the carriage returns at its end. -/
def withoutReturns (line : List Char) : List Char :=
  (line.reverse.dropWhile fun c => c == '\r').reverse

/-- The lines of a text that are not blank. -/
def plainLines (text : String) : List String :=
  ((segments '\n' text.toList).map fun line => String.ofList (withoutReturns line)).filter
    fun line => !isBlank line

theorem notMem_withoutReturns {c : Char} {line : List Char} (h : c ∉ line) :
    c ∉ withoutReturns line := by
  intro hmem
  have hkept := (List.dropWhile_suffix _).subset (List.mem_reverse.mp hmem)
  exact h (List.mem_reverse.mp hkept)

theorem lineFeed_notMem_of_plainLines {text line : String} (h : line ∈ plainLines text) :
    '\n' ∉ line.toList := by
  obtain ⟨segment, hsegment, rfl⟩ := List.mem_map.mp (List.mem_filter.mp h).1
  rw [String.toList_ofList]
  exact notMem_withoutReturns (notMem_of_mem_segments hsegment)

end Text

theorem Bytes.lines_of_notMem {body : Bytes} (h : lineFeed ∉ body) (hne : body ≠ []) :
    lines body = [body] := by
  induction body with
  | nil => exact absurd rfl hne
  | cons byte rest ih =>
    obtain ⟨hbyte, hrest⟩ := not_or.mp (fun hmem => h (List.mem_cons.mpr hmem))
    have hbyte : ¬(byte == lineFeed) = true := fun heq => hbyte (beq_iff_eq.mp heq).symm
    rw [lines_cons, addToLines.eq_def, if_neg hbyte]
    cases rest with
    | nil => rfl
    | cons next more => rw [ih hrest (List.cons_ne_nil _ _)]

namespace Source

/-! ## Lines of a text -/

theorem dropWhile_lineEnd {cs : List Char} (h : '\n' ∉ cs) :
    cs.dropWhile (fun c => c == '\n' || c == '\r') = cs.dropWhile fun c => c == '\r' := by
  induction cs with
  | nil => rfl
  | cons c rest ih =>
    obtain ⟨hne, hrest⟩ := not_or.mp (fun hmem => h (List.mem_cons.mpr hmem))
    have hc : (c == '\n') = false := beq_eq_false_iff_ne.mpr (Ne.symm hne)
    simp only [List.dropWhile_cons, hc, Bool.false_or, ih hrest]

theorem lineText_of_notMem {line : List Char} (h : '\n' ∉ line) :
    lineText (Utf8.encodeChars line) = String.ofList (Text.withoutReturns line) := by
  have hreverse : '\n' ∉ line.reverse := fun hmem => h (List.mem_reverse.mp hmem)
  rw [lineText, Utf8.decodeChars_encodeChars]
  show String.ofList (line.reverse.dropWhile _).reverse = _
  rw [dropWhile_lineEnd hreverse]
  rfl

theorem lineText_append_lineFeed {line : List Char} (h : '\n' ∉ line) :
    lineText (Utf8.encodeChars line ++ [lineFeed]) = String.ofList (Text.withoutReturns line) := by
  have hbytes : Utf8.encodeChars line ++ [lineFeed] = Utf8.encodeChars (line ++ ['\n']) := by
    rw [Utf8.encodeChars_append]
    rfl
  have hreverse : '\n' ∉ line.reverse := fun hmem => h (List.mem_reverse.mp hmem)
  rw [lineText, hbytes, Utf8.decodeChars_encodeChars, List.reverse_append]
  show String.ofList (line.reverse.dropWhile _).reverse = _
  rw [dropWhile_lineEnd hreverse]
  rfl

/-- A line that is not blank has the record of its text. -/
theorem filterMap_cons_of_lineText {line : Bytes} {text : String} (h : lineText line = text)
    {rest : List Bytes} {texts : List String}
    (hrest : rest.filterMap recordOf? =
      (texts.filter fun line => !Text.isBlank line).map Record.ofLine) :
    (line :: rest).filterMap recordOf? =
      ((text :: texts).filter fun line => !Text.isBlank line).map Record.ofLine := by
  by_cases hblank : Text.isBlank text = true
  · rw [List.filterMap_cons, recordOf?_of_blank (h ▸ hblank), hrest,
      List.filter_cons_of_neg (by simp [hblank])]
  · rw [List.filterMap_cons, recordOf?_of_not_blank (h ▸ hblank), hrest, h,
      List.filter_cons_of_pos (by simp [hblank]), List.map_cons]

theorem filterMap_lines (cs : List Char) :
    (Bytes.lines (Utf8.encodeChars cs)).filterMap recordOf? =
      (((Text.segments '\n' cs).map fun line => String.ofList (Text.withoutReturns line)).filter
        fun line => !Text.isBlank line).map Record.ofLine := by
  induction cs using Text.segments_induction '\n' with
  | last cs h =>
    rw [Text.segments_of_notMem h]
    by_cases hnil : cs = []
    · subst hnil
      rfl
    · have hne : Utf8.encodeChars cs ≠ [] := by
        intro hbytes
        apply hnil
        rw [← Utf8.decodeChars_encodeChars cs, hbytes]
        rfl
      rw [Bytes.lines_of_notMem (Utf8.lineFeed_notMem_encodeChars h) hne]
      exact filterMap_cons_of_lineText (lineText_of_notMem h) rfl
  | more before after h ih =>
    have hbytes : Utf8.encodeChars (before ++ '\n' :: after) =
        Utf8.encodeChars before ++ [lineFeed] ++ Utf8.encodeChars after := by
      rw [Utf8.encodeChars_append, List.append_assoc]
      rfl
    rw [Text.segments_append h, hbytes,
      Bytes.lines_append_lineFeed (Utf8.lineFeed_notMem_encodeChars h)]
    exact filterMap_cons_of_lineText (lineText_append_lineFeed h) ih

/-- A file has the records of the lines of its text. -/
theorem content_of_text (text : String) (limits : BatchLimits) :
    (lines (Bytes.lines (Utf8.encode text)) limits).content =
      (Text.plainLines text).map Record.ofLine :=
  filterMap_lines text.toList

end Source

/-! ## Lines that are no objects -/

/-- A line that is no object is written as it was read, with a line feed. -/
theorem Codec.encode_ofLine {line : String} (hline : '\n' ∉ line.toList)
    (hplain : ∀ fields, Json.parse? line ≠ some (.object fields)) :
    (Codec.raw messageField).encode (Record.ofLine line) =
      .ok (Utf8.encode line ++ [lineFeed]) := by
  have hrecord : Record.ofLine line = .object [(messageField, .text line)] := by
    unfold Record.ofLine
    split
    · rename_i fields hparse
      exact absurd hparse (hplain fields)
    · rfl
  rw [hrecord]
  exact congrArg Except.ok (Bytes.terminated_of_notMem (Utf8.lineFeed_notMem_encodeChars hline))

/-- The bytes of lines, each with a line feed. -/
def Text.written (lines : List String) : Bytes :=
  lines.flatMap fun line => Utf8.encode line ++ [lineFeed]

end RecordArchive
