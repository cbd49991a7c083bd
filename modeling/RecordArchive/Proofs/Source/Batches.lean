import RecordArchive.Proofs.Source.PlainText

/-!
# Batches of lines

A file is given as the lines that are not blank, cut into batches from the front.  A batch goes on
until it has as many lines or bytes as its limits ask for, or until no line is left, so there is
one way at most to cut them: `greedy_unique`.  The main statement is `greedy_batches`: call after
call a source answers with these batches, and then with none for good.
-/

namespace RecordArchive

/-! ## Lines -/

/-- A text and its lines.  Each goes on to the next line feed, which belongs to it, and the last
may lack one. -/
inductive Bytes.Lined : Bytes → List Bytes → Prop
  | nil : Lined [] []
  | last {body : Bytes} (hne : body ≠ []) (h : lineFeed ∉ body) : Lined body [body]
  | line {body rest : Bytes} {ls : List Bytes} (h : lineFeed ∉ body) (hrest : Lined rest ls) :
    Lined (body ++ [lineFeed] ++ rest) ((body ++ [lineFeed]) :: ls)

theorem Bytes.lined_lines (bytes : Bytes) : Lined bytes bytes.lines := by
  induction hlength : bytes.length using Nat.strongRecOn generalizing bytes with
  | ind n ih =>
    subst hlength
    by_cases hfeed : lineFeed ∈ bytes
    · obtain ⟨body, rest, rfl, hbody⟩ := List.eq_append_cons_of_mem hfeed
      have hwhole : body ++ lineFeed :: rest = body ++ [lineFeed] ++ rest :=
        List.append_cons body lineFeed rest
      rw [hwhole, lines_append_lineFeed hbody]
      refine .line hbody (ih rest.length ?_ rest rfl)
      simp only [List.length_append, List.length_cons]
      omega
    · by_cases hne : bytes = []
      · subst hne
        exact .nil
      · rw [lines_of_notMem hfeed hne]
        exact .last hne hfeed

namespace Source

/-- A text without the characters that end a line. -/
structure Trimmed (cs text : List Char) : Prop where
  whole : ∃ ending, text ++ ending = cs ∧ ∀ c ∈ ending, c = '\n' ∨ c = '\r'
  ends : text.getLast? ≠ some '\n' ∧ text.getLast? ≠ some '\r'

theorem trimmed_lineText (line : Bytes) :
    Trimmed (Utf8.decodeChars line) (lineText line).toList := by
  have htext : (lineText line).toList = ((Utf8.decodeChars line).reverse.dropWhile
      fun c => c == '\n' || c == '\r').reverse := String.toList_ofList
  constructor
  · refine ⟨((Utf8.decodeChars line).reverse.takeWhile fun c => c == '\n' || c == '\r').reverse,
      ?_, fun c hc => ?_⟩
    · rw [htext, ← List.reverse_append, List.takeWhile_append_dropWhile, List.reverse_reverse]
    · have hend := List.mem_takeWhile_imp (List.mem_reverse.mp hc)
      simpa using hend
  · have hkept := List.head?_dropWhile_not (fun c => c == '\n' || c == '\r')
      (Utf8.decodeChars line).reverse
    rw [htext, List.getLast?_reverse]
    constructor
    · intro hlast
      rw [hlast] at hkept
      cases hkept
    · intro hlast
      rw [hlast] at hkept
      cases hkept

def hasText (line : Bytes) : Bool := !Text.isBlank (lineText line)

def recordOf (line : Bytes) : Record := Record.ofLine (lineText line)

/-! ## Batches -/

/-- A batch of lines takes no other line. -/
def IsFull (limits : BatchLimits) (batch : List Bytes) : Prop :=
  max 1 limits.records ≤ batch.length ∨ limits.bytes ≤ batch.flatten.length

/-- Lines in batches that are cut off where their limits are reached, and nowhere else. -/
structure Greedy (limits : BatchLimits) (ls : List Bytes) (batches : List (List Bytes)) : Prop where
  whole : batches.flatten = ls
  nonempty : [] ∉ batches
  few : ∀ batch ∈ batches, batch.length ≤ max 1 limits.records
  small : ∀ batch ∈ batches, batch.dropLast.flatten.length < limits.bytes
  full : ∀ batch ∈ batches.dropLast, IsFull limits batch

section Greedy

variable {limits : BatchLimits} {ls ls' batch : List Bytes} {batches batches' : List (List Bytes)}

theorem greedy_nil (limits : BatchLimits) : Greedy limits [] [] :=
  ⟨rfl, List.not_mem_nil, by simp, by simp, by simp⟩

theorem Greedy.cons (h : Greedy limits ls batches) (hne : batch ≠ [])
    (hfew : batch.length ≤ max 1 limits.records)
    (hsmall : batch.dropLast.flatten.length < limits.bytes)
    (hfull : ls = [] ∨ IsFull limits batch) : Greedy limits (batch ++ ls) (batch :: batches) where
  whole := by rw [List.flatten_cons, h.whole]
  nonempty := List.not_mem_cons_of_ne_of_not_mem hne.symm h.nonempty
  few := List.forall_mem_cons.mpr ⟨hfew, h.few⟩
  small := List.forall_mem_cons.mpr ⟨hsmall, h.small⟩
  full := by
    cases batches with
    | nil => simp
    | cons next more =>
      rw [List.dropLast_cons_cons]
      refine List.forall_mem_cons.mpr ⟨hfull.resolve_left fun hnil => ?_, h.full⟩
      have hnext : next = [] := (List.append_eq_nil_iff.mp (h.whole.trans hnil)).1
      exact h.nonempty (hnext ▸ List.mem_cons_self)

theorem Greedy.tail (h : Greedy limits ls (batch :: batches)) :
    Greedy limits batches.flatten batches where
  whole := rfl
  nonempty := List.not_mem_of_not_mem_cons h.nonempty
  few other hother := h.few other (List.mem_cons_of_mem _ hother)
  small other hother := h.small other (List.mem_cons_of_mem _ hother)
  full other hother := by
    cases batches with
    | nil => cases hother
    | cons next more => exact h.full other (List.mem_cons_of_mem _ hother)

theorem Greedy.eq_nil (h : Greedy limits [] batches) : batches = [] := by
  cases batches with
  | nil => rfl
  | cons batch rest =>
    have hbatch : batch = [] := (List.append_eq_nil_iff.mp h.whole).1
    exact absurd (hbatch ▸ List.mem_cons_self) h.nonempty

/-- A batch that is cut off within its limits could not have gone on. -/
theorem Greedy.eq_nil_of_longer {more other : List Bytes}
    (h : Greedy limits ls (batch :: batches))
    (hfew : (batch ++ more).length ≤ max 1 limits.records)
    (hsmall : (batch ++ more).dropLast.flatten.length < limits.bytes)
    (hrest : batches.flatten = more ++ other) : more = [] := by
  by_contra hne
  have hpos : 0 < more.length := List.length_pos_iff.mpr hne
  cases batches with
  | nil => exact hne (List.append_eq_nil_iff.mp hrest.symm).1
  | cons next rest =>
    rw [List.length_append] at hfew
    rw [List.dropLast_append_of_ne_nil hne, List.flatten_append, List.length_append] at hsmall
    rcases h.full batch List.mem_cons_self with hmany | hlarge
    · omega
    · omega

theorem greedy_unique (h : Greedy limits ls batches) (h' : Greedy limits ls batches') :
    batches = batches' := by
  induction batches generalizing ls batches' with
  | nil =>
    obtain rfl : [] = ls := h.whole
    exact h'.eq_nil.symm
  | cons batch rest ih =>
    cases batches' with
    | nil =>
      obtain rfl : [] = ls := h'.whole
      exact h.eq_nil
    | cons batch' rest' =>
      have hwhole : batch ++ rest.flatten = batch' ++ rest'.flatten := h.whole.trans h'.whole.symm
      have hbatch : batch = batch' := by
        rcases List.append_eq_append_iff.mp hwhole with ⟨more, rfl, hrest⟩ | ⟨more, rfl, hrest⟩
        · rw [h.eq_nil_of_longer (h'.few _ List.mem_cons_self) (h'.small _ List.mem_cons_self)
            hrest, List.append_nil]
        · rw [h'.eq_nil_of_longer (h.few _ List.mem_cons_self) (h.small _ List.mem_cons_self)
            hrest, List.append_nil]
      subst hbatch
      have hrest : rest.flatten = rest'.flatten := List.append_cancel_left hwhole
      rw [ih h.tail (hrest ▸ h'.tail)]

end Greedy

/-! ## What one call takes -/

/-- What is taken from lines into a batch that has so many of them already, with so many bytes. -/
structure Takes (limits : BatchLimits) (taken size : Nat) (ls batch rest : List Bytes) : Prop where
  answer : batchFrom limits taken size ls = (batch.map recordOf, rest)
  whole : batch ++ rest.filter hasText = ls.filter hasText
  few : batch ≠ [] → taken + batch.length ≤ max 1 limits.records
  small : batch ≠ [] → size + batch.dropLast.flatten.length < limits.bytes
  full : rest = [] ∨ max 1 limits.records ≤ taken + batch.length ∨
    limits.bytes ≤ size + batch.flatten.length

section Calls

variable {limits : BatchLimits} {taken size : Nat} {line : Bytes} {ls rest batch after : List Bytes}

theorem not_isBlank_iff : ¬ Text.isBlank (lineText line) = true ↔ hasText line = true := by
  simp [hasText]

theorem Takes.blank (h : Takes limits taken size rest batch after)
    (hroom : taken < max 1 limits.records ∧ size < limits.bytes) (hblank : ¬ hasText line = true) :
    Takes limits taken size (line :: rest) batch after where
  answer := by
    have hskip : Text.isBlank (lineText line) = true := by simpa [hasText] using hblank
    simp only [batchFrom, if_pos hroom, if_pos hskip, h.answer]
  whole := by rw [h.whole, List.filter_cons_of_neg hblank]
  few := h.few
  small := h.small
  full := h.full

theorem Takes.cons (h : Takes limits (taken + 1) (size + line.length) rest batch after)
    (hroom : taken < max 1 limits.records ∧ size < limits.bytes) (htext : hasText line = true) :
    Takes limits taken size (line :: rest) (line :: batch) after where
  answer := by
    have hkeep := not_isBlank_iff.mpr htext
    simp only [batchFrom, if_pos hroom, if_neg hkeep, h.answer]
    rfl
  whole := by rw [List.cons_append, h.whole, List.filter_cons_of_pos htext]
  few _ := by
    cases batch with
    | nil =>
      show taken + 1 ≤ max 1 limits.records
      omega
    | cons next more =>
      have hfew := h.few (List.cons_ne_nil _ _)
      rw [List.length_cons]
      omega
  small _ := by
    cases batch with
    | nil => exact hroom.2
    | cons next more =>
      have hsmall := h.small (List.cons_ne_nil _ _)
      rw [List.dropLast_cons_cons, List.flatten_cons, List.length_append]
      omega
  full := by
    rw [List.length_cons, List.flatten_cons, List.length_append]
    rcases h.full with hend | hmany | hlarge
    · exact Or.inl hend
    · exact Or.inr (Or.inl (by omega))
    · exact Or.inr (Or.inr (by omega))

theorem exists_takes (limits : BatchLimits) (taken size : Nat) (ls : List Bytes) :
    ∃ batch after, Takes limits taken size ls batch after := by
  induction ls generalizing taken size with
  | nil => exact ⟨[], [], rfl, rfl, by simp, by simp, Or.inl rfl⟩
  | cons line rest ih =>
    by_cases hroom : taken < max 1 limits.records ∧ size < limits.bytes
    · by_cases htext : hasText line = true
      · obtain ⟨batch, after, h⟩ := ih (taken + 1) (size + line.length)
        exact ⟨line :: batch, after, h.cons hroom htext⟩
      · obtain ⟨batch, after, h⟩ := ih taken size
        exact ⟨batch, after, h.blank hroom htext⟩
    · refine ⟨[], line :: rest, ?_, rfl, by simp, by simp, Or.inr ?_⟩
      · rw [batchFrom, if_neg hroom]
        rfl
      · simp only [List.length_nil, List.flatten_nil, Nat.add_zero]
        omega

theorem next_of_takes (h : Takes limits 0 0 ls batch after) :
    (lines ls limits).next = .ok (if batch.isEmpty then none else some (batch.map recordOf),
      lines after limits) := by
  simp only [next, h.answer, List.isEmpty_map]

/-- With room for a line, a call takes none only when there is none left. -/
theorem after_eq_nil_of_takes (h : Takes limits 0 0 ls [] after) (hbytes : 1 ≤ limits.bytes) :
    after = [] := by
  rcases h.full with hend | hmany | hlarge
  · exact hend
  · simp only [List.length_nil] at hmany
    omega
  · simp only [List.flatten_nil, List.length_nil] at hlarge
    omega

end Calls

/-! ## Call after call -/

section Reading

variable {limits : BatchLimits} {ls : List Bytes} {batches : List (List Bytes)}
  {s s' s'' : Source} {answers answers' : List (Option (List Record))}

theorem Reads.append (h : s.Reads answers s') (h' : s'.Reads answers' s'') :
    s.Reads (answers ++ answers') s'' := by
  induction h with
  | stop s => exact h'
  | call hnext _ ih => exact .call hnext (ih h')

/-- What a source answers while it gives batches of lines. -/
def answersOf (batches : List (List Bytes)) : List (Option (List Record)) :=
  batches.map fun batch => some (batch.map recordOf)

/-- Without lines that have text, a source gives nothing, however often it is called. -/
theorem exists_reads_none (hls : ls.filter hasText = []) (n : Nat) :
    ∃ rest, (lines ls limits).Reads (List.replicate n none) (lines rest limits) := by
  induction n generalizing ls with
  | zero => exact ⟨ls, .stop _⟩
  | succ n ih =>
    obtain ⟨batch, after, h⟩ := exists_takes limits 0 0 ls
    obtain ⟨rfl, hafter⟩ := List.append_eq_nil_iff.mp (h.whole.trans hls)
    obtain ⟨rest, hreads⟩ := ih hafter
    exact ⟨rest, .call (next_of_takes h) hreads⟩

theorem exists_greedy_reads (hbytes : 1 ≤ limits.bytes) (ls : List Bytes) :
    ∃ batches, Greedy limits (ls.filter hasText) batches ∧
      ∃ rest, rest.filter hasText = [] ∧
        (lines ls limits).Reads (answersOf batches) (lines rest limits) := by
  induction hlength : ls.length using Nat.strongRecOn generalizing ls with
  | ind n ih =>
    subst hlength
    obtain ⟨batch, after, h⟩ := exists_takes limits 0 0 ls
    by_cases hnil : batch = []
    · subst hnil
      have hnone : ls.filter hasText = [] := by
        rw [← h.whole, after_eq_nil_of_takes h hbytes]
        rfl
      exact ⟨[], hnone ▸ greedy_nil limits, ls, hnone, .stop _⟩
    · -- A batch that holds a line leaves fewer of them.
      have hshorter : after.length < ls.length := by
        have hlength := length_batchFrom limits 0 0 ls
        have hpos := List.length_pos_iff.mpr hnil
        simp only [h.answer, List.length_map] at hlength
        omega
      obtain ⟨batches, hgreedy, rest, hrest, hreads⟩ := ih after.length hshorter after rfl
      have hfew := h.few hnil
      have hsmall := h.small hnil
      rw [Nat.zero_add] at hfew hsmall
      have hfull : after.filter hasText = [] ∨ IsFull limits batch := by
        rcases h.full with rfl | hmany | hlarge
        · exact Or.inl rfl
        · exact Or.inr (Or.inl (by omega))
        · exact Or.inr (Or.inr (by omega))
      have hnext := next_of_takes h
      rw [if_neg (by simpa using hnil)] at hnext
      refine ⟨batch :: batches, ?_, rest, hrest, .call hnext hreads⟩
      rw [← h.whole]
      exact hgreedy.cons hnil hfew hsmall hfull

/-- A file is given as the greedy batches of its lines that are not blank, one for each call, and
after them every call is answered with none.  A line has the text that its bytes decode to, without
the characters that end it. -/
theorem greedy_batches {path : String} {bytes : Bytes} {contents? : String → Option Contents}
    (hcontents : contents? path = some (some bytes)) (hbytes : 1 ≤ limits.bytes) :
    Bytes.Lined bytes bytes.lines ∧
    (∀ line, Trimmed (Utf8.decodeChars line) (lineText line).toList) ∧
    (∃! batches, Greedy limits (bytes.lines.filter hasText) batches) ∧
    ∃ source, start (.file path limits) contents? = .ok source ∧
      ∀ batches, Greedy limits (bytes.lines.filter hasText) batches →
        ∀ n, ∃ rest, source.Reads (answersOf batches ++ List.replicate n none) rest := by
  obtain ⟨batches, hgreedy, rest, hrest, hreads⟩ := exists_greedy_reads hbytes bytes.lines
  have hunique : ∀ other, Greedy limits (bytes.lines.filter hasText) other → other = batches :=
    fun other hother => greedy_unique hother hgreedy
  refine ⟨bytes.lined_lines, trimmed_lineText, ⟨batches, hgreedy, hunique⟩,
    lines bytes.lines limits, ?_, ?_⟩
  · rw [start, hcontents]
  · intro other hother n
    rw [hunique other hother]
    obtain ⟨left, hnone⟩ := exists_reads_none hrest n
    exact ⟨lines left limits, hreads.append hnone⟩

/-- Lines with either ending and with none, blank ones between them, and a byte that is no text.
The first batch ends by its bytes, the second by the end of the file. -/
theorem greedy_batches_mixed :
    let bytes : Bytes := [97, 13, 10, 10, 32, 13, 10, 255, 10, 99]
    let limits : BatchLimits := ⟨5, 4⟩
    let contents? : String → Option Contents := fun _ => some (some bytes)
    let batches : List (List Bytes) := [[[97, 13, 10], [255, 10]], [[99]]]
    (contents? "in.log" = some (some bytes) ∧ 1 ≤ limits.bytes) ∧
    Greedy limits (bytes.lines.filter hasText) batches ∧
    ∃ source, start (.file "in.log" limits) contents? = .ok source ∧
      ∃ rest, source.Reads (answersOf batches ++ List.replicate 2 none) rest := by
  intro bytes limits contents? batches
  have hbytes : 1 ≤ limits.bytes := by decide
  have hlines : batches.flatten = bytes.lines.filter hasText := by decide
  have hgreedy : Greedy limits (bytes.lines.filter hasText) batches :=
    ⟨hlines, by decide, by decide, by decide, by simp [batches, IsFull, limits]⟩
  have hcontents : contents? "in.log" = some (some bytes) := rfl
  obtain ⟨-, -, -, source, hstart, hreads⟩ := greedy_batches hcontents hbytes
  exact ⟨⟨hcontents, hbytes⟩, hgreedy, source, hstart, hreads batches hgreedy 2⟩

end Reading

end Source

end RecordArchive
