import RecordArchive.Proofs.Source.PlainText

/-!
# Lines in a file and lines in a list

A file is read in bytes, cut at its line feeds and relieved of what ends its lines; a list is
taken as it is.  Where the lines of the file are those of the list the same records come out of
both, however the lines end and however large the batches are: `file_agrees_with_list`.
-/

namespace RecordArchive

namespace Text

/-- How a line of a text ends. -/
inductive Ending
  | feed
  | returnFeed

namespace Ending

def chars : Ending → List Char
  | feed => ['\n']
  | returnFeed => ['\r', '\n']

end Ending

/-- A text of lines, each with an ending of its own, which the last one may lack. -/
inductive Joins : List String → List Char → Prop
  | nil : Joins [] []
  | last (line : String) : Joins [line] line.toList
  | line (line : String) (ending : Ending) {rest : List String} {text : List Char}
    (h : Joins rest text) : Joins (line :: rest) (line.toList ++ ending.chars ++ text)

/-- A line that can be told from its ending, and from a line to be passed over. -/
structure IsLine (line : String) : Prop where
  notBlank : ¬isBlank line = true
  noFeed : '\n' ∉ line.toList
  noReturn : line.toList.getLast? ≠ some '\r'

theorem withoutReturns_of_getLast? {line : List Char} (h : line.getLast? ≠ some '\r') :
    withoutReturns line = line := by
  rw [← List.head?_reverse] at h
  have hkept : line.reverse.dropWhile (fun c => c == '\r') = line.reverse := by
    cases hcs : line.reverse with
    | nil => rfl
    | cons c rest =>
      rw [hcs, List.head?_cons] at h
      have hc : ¬(c == '\r') = true := fun heq => h (congrArg some (beq_iff_eq.mp heq))
      exact List.dropWhile_cons_of_neg hc
  rw [withoutReturns, hkept, List.reverse_reverse]

theorem withoutReturns_append_return (line : List Char) :
    withoutReturns (line ++ ['\r']) = withoutReturns line := by
  rw [withoutReturns, List.reverse_append]
  rfl

/-- An ending is cut off with the line feed, and a return before it is not part of the line. -/
theorem segments_line {line : String} (h : IsLine line) (ending : Ending) (text : List Char) :
    ∃ segment, segments '\n' (line.toList ++ ending.chars ++ text) =
        segment :: segments '\n' text ∧
      String.ofList (withoutReturns segment) = line := by
  have hline : String.ofList (withoutReturns line.toList) = line := by
    rw [withoutReturns_of_getLast? h.noReturn, String.ofList_toList]
  cases ending with
  | feed =>
    refine ⟨line.toList, ?_, hline⟩
    rw [List.append_assoc]
    exact segments_append h.noFeed text
  | returnFeed =>
    have hfeed : '\n' ∉ line.toList ++ ['\r'] := by
      rw [List.mem_append, List.mem_singleton]
      rintro (hmem | heq)
      · exact h.noFeed hmem
      · exact absurd heq (by decide)
    refine ⟨line.toList ++ ['\r'], ?_, ?_⟩
    · have hsplit : line.toList ++ Ending.returnFeed.chars ++ text =
          (line.toList ++ ['\r']) ++ '\n' :: text := by
        simp only [Ending.chars, List.append_assoc, List.cons_append, List.nil_append]
      rw [hsplit]
      exact segments_append hfeed text
    · rw [withoutReturns_append_return, hline]

/-- The lines that a text was made of are the lines that are found in it. -/
theorem plainLines_of_joins {lines : List String} {text : List Char} (h : Joins lines text)
    (hlines : ∀ line ∈ lines, IsLine line) : plainLines (String.ofList text) = lines := by
  rw [plainLines, String.toList_ofList]
  induction h with
  | nil => rfl
  | last line =>
    have hline := hlines line List.mem_cons_self
    rw [segments_of_notMem hline.noFeed, List.map_singleton,
      withoutReturns_of_getLast? hline.noReturn, String.ofList_toList,
      List.filter_cons_of_pos (by simpa using hline.notBlank), List.filter_nil]
  | line line ending h ih =>
    obtain ⟨hline, hrest⟩ := List.forall_mem_cons.mp hlines
    obtain ⟨segment, hsegments, hsegment⟩ := segments_line hline ending _
    rw [hsegments, List.map_cons, hsegment,
      List.filter_cons_of_pos (by simpa using hline.notBlank), ih hrest]

end Text

namespace Source

theorem dries_records {size : Nat} (h : 0 < size) (rest : List Record) :
    (records rest size).Dries rest := by
  induction hlength : rest.length using Nat.strongRecOn generalizing rest with
  | ind n ih =>
    subst hlength
    cases rest with
    | nil => exact .dry rfl
    | cons record more =>
      have hshorter : ((record :: more).drop size).length < (record :: more).length := by
        rw [List.length_drop, List.length_cons]
        omega
      have hwhole := List.take_append_drop size (record :: more)
      have hdries := Dries.batch (s := records (record :: more) size) rfl (ih _ hshorter _ rfl)
      rwa [hwhole] at hdries

/-- A file and a list of the same lines give the same records until they are dry, and nothing
else, whatever the endings of the lines are and however each of them is cut into batches. -/
theorem file_agrees_with_list {lines : List String} (hne : lines ≠ [])
    (hlines : ∀ line ∈ lines, Text.IsLine line) {text : List Char}
    (htext : Text.Joins lines text) {path : String} {contents? : String → Option Contents}
    (hcontents : contents? path = some (some (Utf8.encode (String.ofList text))))
    {fileLimits : BatchLimits} (hbytes : 1 ≤ fileLimits.bytes) (listLimits : BatchLimits) :
    ∃ file listed, start (.file path fileLimits) contents? = .ok file ∧
      start (.listed lines listLimits) contents? = .ok listed ∧
      file.Dries (lines.map Record.ofLine) ∧ listed.Dries (lines.map Record.ofLine) ∧
      ∀ records, file.Dries records ∨ listed.Dries records →
        records = lines.map Record.ofLine := by
  have hstream : (Source.lines (Bytes.lines (Utf8.encode (String.ofList text))) fileLimits).stream =
      lines.map Record.ofLine := by
    have hroom : (fileLimits.bytes == 0) = false := beq_eq_false_iff_ne.mpr (by omega)
    rw [stream, stalls, hroom, if_neg Bool.false_ne_true, content_of_text,
      Text.plainLines_of_joins htext hlines]
  have hfile := dries_lines (Bytes.lines (Utf8.encode (String.ofList text))) fileLimits
  rw [hstream] at hfile
  have hsize : 0 < max 1 listLimits.records := by omega
  have hlisted : (ofLines lines listLimits).Dries (lines.map Record.ofLine) := by
    rw [ofLines, if_neg (by simpa using hne)]
    exact dries_records hsize _
  refine ⟨_, _, ?_, rfl, hfile, hlisted, ?_⟩
  · rw [start, hcontents]
  · rintro records (hrecords | hrecords)
    · rw [hrecords.eq_stream, hstream]
    · rw [hrecords.eq_stream, ← hlisted.eq_stream]

/-- A line that is indented, one with a return inside and one that is an object, with three
endings, in batches of three bytes and of two records. -/
theorem file_agrees_with_list_mixed :
    let lines := [" a", "b\rc", "\x7b\x7d"]
    let text := " a\r\nb\rc\n\x7b\x7d".toList
    let contents? : String → Option Contents :=
      fun _ => some (some (Utf8.encode (String.ofList text)))
    (lines ≠ [] ∧ (∀ line ∈ lines, Text.IsLine line) ∧ Text.Joins lines text) ∧
    ∃ file listed, start (.file "in.log" ⟨5, 3⟩) contents? = .ok file ∧
      start (.listed lines ⟨2, 1⟩) contents? = .ok listed ∧
      file.Dries (lines.map Record.ofLine) ∧ listed.Dries (lines.map Record.ofLine) := by
  intro lines text contents?
  have hlines : ∀ line ∈ lines, Text.IsLine line := by
    refine List.forall_mem_cons.mpr ⟨⟨by decide, by decide, by decide⟩, ?_⟩
    refine List.forall_mem_cons.mpr ⟨⟨by decide, by decide, by decide⟩, ?_⟩
    exact List.forall_mem_singleton.mpr ⟨by decide, by decide, by decide⟩
  have htext : Text.Joins lines text :=
    .line " a" .returnFeed (.line "b\rc" .feed (.last "\x7b\x7d"))
  obtain ⟨file, listed, hfile, hlisted, hdries, hdries', -⟩ :=
    @file_agrees_with_list lines (List.cons_ne_nil _ _) hlines text htext "in.log" contents? rfl
      ⟨5, 3⟩ (by decide) ⟨2, 1⟩
  exact ⟨⟨List.cons_ne_nil _ _, hlines, htext⟩, file, listed, hfile, hlisted, hdries, hdries'⟩

end Source

end RecordArchive
