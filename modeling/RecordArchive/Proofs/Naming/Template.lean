import RecordArchive.Naming.ObjectKey
import RecordArchive.Proofs.Text.Search

/-!
# The grammar of templates

A template is a text without `%{`, or a text with one token and no other `%{`.  The main
statement is `template_grammar`: these texts are read, each in one way only, every other text is
refused, and the offsets at which a search among the bytes of a text cuts it are offsets of
characters.
-/

namespace RecordArchive.Naming

/-! ## The first opening and the first closing -/

/-- There is a `%{` in a text. -/
def Opens (cs : List Char) : Prop := ['%', '{'] <:+: cs

section Searching

variable {cs before rest body after : List Char} {c : Char}

theorem not_opens_nil : ¬ Opens [] := by simp [Opens]

theorem opens_cons : Opens (c :: cs) ↔ c = '%' ∧ cs.head? = some '{' ∨ Opens cs := by
  unfold Opens
  rw [List.infix_cons_iff]
  refine or_congr_left ?_
  cases cs with
  | nil => simp
  | cons d rest => simp [List.cons_prefix_cons, eq_comm]

theorem splitAtOpen_cons (h : ¬ (c = '%' ∧ cs.head? = some '{')) :
    splitAtOpen (c :: cs) = (splitAtOpen cs).map fun parts => (c :: parts.1, parts.2) := by
  rw [splitAtOpen]
  rintro rest rfl rfl
  exact h ⟨rfl, rfl⟩

theorem splitAtOpen_of_not_opens (h : ¬ Opens cs) : splitAtOpen cs = none := by
  induction cs with
  | nil => rfl
  | cons c rest ih =>
    rw [opens_cons, not_or] at h
    rw [splitAtOpen_cons h.1, ih h.2]
    rfl

/-- The first `%{` is found. -/
theorem splitAtOpen_append (h : ¬ Opens before) (rest : List Char) :
    splitAtOpen (before ++ '%' :: '{' :: rest) = some (before, rest) := by
  induction before with
  | nil => rfl
  | cons c before ih =>
    rw [opens_cons, not_or] at h
    have hfirst : ¬ (c = '%' ∧ (before ++ '%' :: '{' :: rest).head? = some '{') := by
      rintro ⟨rfl, hhead⟩
      cases before with
      | nil => cases hhead
      | cons d before => exact h.1 ⟨rfl, hhead⟩
    rw [List.cons_append, splitAtOpen_cons hfirst, ih h.2]
    rfl

/-- A text has no `%{`, or there is a first one. -/
theorem not_opens_or_first (cs : List Char) :
    ¬ Opens cs ∨ ∃ before rest, cs = before ++ '%' :: '{' :: rest ∧ ¬ Opens before := by
  induction cs with
  | nil => exact Or.inl not_opens_nil
  | cons c cs ih =>
    by_cases hfirst : c = '%' ∧ cs.head? = some '{'
    · obtain ⟨rfl, hhead⟩ := hfirst
      obtain ⟨rest, rfl⟩ := List.head?_eq_some_iff.mp hhead
      exact Or.inr ⟨[], rest, rfl, not_opens_nil⟩
    · rcases ih with hnone | ⟨before, rest, rfl, hbefore⟩
      · exact Or.inl fun hopens => (opens_cons.mp hopens).elim hfirst hnone
      · refine Or.inr ⟨c :: before, rest, rfl, fun hopens => ?_⟩
        rcases opens_cons.mp hopens with ⟨rfl, hhead⟩ | hopens
        · obtain ⟨more, rfl⟩ := List.head?_eq_some_iff.mp hhead
          exact hfirst ⟨rfl, rfl⟩
        · exact hbefore hopens

theorem splitAtClose_cons (h : c ≠ '}') :
    splitAtClose (c :: cs) = (splitAtClose cs).map fun parts => (c :: parts.1, parts.2) := by
  rw [splitAtClose]
  exact h

theorem splitAtClose_of_notMem (h : '}' ∉ cs) : splitAtClose cs = none := by
  induction cs with
  | nil => rfl
  | cons c rest ih =>
    rw [List.mem_cons, not_or] at h
    rw [splitAtClose_cons (Ne.symm h.1), ih h.2]
    rfl

theorem splitAtClose_append (h : '}' ∉ body) (after : List Char) :
    splitAtClose (body ++ '}' :: after) = some (body, after) := by
  induction body with
  | nil => rfl
  | cons c body ih =>
    rw [List.mem_cons, not_or] at h
    rw [List.cons_append, splitAtClose_cons (Ne.symm h.1), ih h.2]
    rfl

end Searching

/-! ## Tokens -/

/-- A text with one token around this body, and no other `%{`. -/
structure OneToken (cs before body after : List Char) : Prop where
  eq : cs = before ++ '%' :: '{' :: (body ++ '}' :: after)
  before : ¬ Opens before
  after : ¬ Opens after
  opening : '{' ∉ body
  closing : '}' ∉ body

section Tokens

variable {cs before body after : List Char}

theorem mem_of_opens (h : Opens cs) : '{' ∈ cs := h.subset (by simp)

theorem tokenBody_append (hopening : '{' ∉ body) (hclosing : '}' ∉ body) (after : List Char) :
    tokenBody (body ++ '}' :: after) = .ok (body, after) := by
  have hnone : splitAtOpen body = none :=
    splitAtOpen_of_not_opens fun hopens => hopening (mem_of_opens hopens)
  simp [tokenBody, splitAtClose_append hclosing, hnone, hopening]

theorem of_tokenBody_eq_ok (h : tokenBody cs = .ok (body, after)) :
    cs = body ++ '}' :: after ∧ '{' ∉ body ∧ '}' ∉ body := by
  by_cases hmem : '}' ∈ cs
  · obtain ⟨body', after', rfl, hclosing⟩ := List.eq_append_cons_of_mem hmem
    simp only [tokenBody, splitAtClose_append hclosing] at h
    split at h
    · cases h
    · split at h
      · cases h
      · rename_i hopening
        cases h
        exact ⟨rfl, by simpa using hopening, hclosing⟩
  · simp only [tokenBody, splitAtClose_of_notMem hmem] at h
    cases h

theorem OneToken.opens (h : OneToken cs before body after) : Opens cs := by
  rw [h.eq]
  exact ⟨before, body ++ '}' :: after, by simp⟩

theorem OneToken.unique (h : OneToken cs before body after) {before' body' after' : List Char}
    (h' : OneToken cs before' body' after') :
    before = before' ∧ body = body' ∧ after = after' := by
  have hopen := splitAtOpen_append h.before (body ++ '}' :: after)
  rw [← h.eq, h'.eq, splitAtOpen_append h'.before] at hopen
  obtain ⟨rfl, hrest⟩ := Prod.mk.inj (Option.some.inj hopen)
  have hclose := splitAtClose_append h.closing after
  rw [← hrest, splitAtClose_append h'.closing] at hclose
  obtain ⟨rfl, rfl⟩ := Prod.mk.inj (Option.some.inj hclose)
  exact ⟨rfl, rfl, rfl⟩

theorem OneToken.eq_append (h : OneToken cs before body after) :
    cs = before ++ ['%', '{'] ++ body ++ ['}'] ++ after := by
  rw [h.eq]
  simp

theorem parse_of_not_opens (h : ¬ Opens cs) : Template.parse cs = .ok ⟨cs, none⟩ := by
  simp only [Template.parse, splitAtOpen_of_not_opens h]

theorem parse_of_oneToken (h : OneToken cs before body after) {pattern : Pattern}
    (hpattern : Pattern.parse body = .ok pattern) :
    Template.parse cs = .ok ⟨cs, some ⟨before, pattern, after⟩⟩ := by
  have hopen := splitAtOpen_append h.before (body ++ '}' :: after)
  rw [← h.eq] at hopen
  simp only [Template.parse, hopen, tokenBody_append h.opening h.closing, bind, Except.bind,
    hpattern, splitAtOpen_of_not_opens h.after]
  rfl

/-- Whatever is read has no token, or one. -/
theorem parse_cases {t : Template} (h : Template.parse cs = .ok t) :
    ¬ Opens cs ∧ t = ⟨cs, none⟩ ∨
      ∃ before body after pattern, OneToken cs before body after ∧
        Pattern.parse body = .ok pattern ∧ t = ⟨cs, some ⟨before, pattern, after⟩⟩ := by
  rcases not_opens_or_first cs with hnone | ⟨before, rest, heq, hbefore⟩
  · rw [parse_of_not_opens hnone] at h
    exact Or.inl ⟨hnone, (Except.ok.inj h).symm⟩
  · have hopen := splitAtOpen_append hbefore rest
    rw [← heq] at hopen
    simp only [Template.parse, hopen] at h
    cases hbody : tokenBody rest with
    | error fault =>
      rw [hbody] at h
      cases h
    | ok parts =>
      obtain ⟨body, after⟩ := parts
      obtain ⟨rfl, hopening, hclosing⟩ := of_tokenBody_eq_ok hbody
      rw [hbody] at h
      cases hpattern : Pattern.parse body with
      | error fault =>
        simp only [bind, Except.bind, hpattern] at h
        cases h
      | ok pattern =>
        simp only [bind, Except.bind, hpattern] at h
        rcases not_opens_or_first after with hafter | ⟨inner, more, rfl, hinner⟩
        · rw [splitAtOpen_of_not_opens hafter] at h
          exact Or.inr ⟨before, body, after, pattern, ⟨heq, hbefore, hafter, hopening, hclosing⟩,
            hpattern, (Except.ok.inj h).symm⟩
        · -- A second token is refused whether its body is sound or not.
          simp only [splitAtOpen_append hinner more] at h
          cases hmore : tokenBody more with
          | error fault =>
            rw [hmore] at h
            cases h
          | ok parts =>
            rw [hmore] at h
            cases h

end Tokens

/-! ## Offsets among the bytes -/

def opening : Bytes := Utf8.encodeChars ['%', '{']

def closing : Bytes := Utf8.encodeChars ['}']

/-- Where a search among the bytes cuts a text from a cursor on: at the cursor, before and
after an opening, before the closing that follows, and then the same from behind the closing. -/
def cutOffsets (bytes : Bytes) : Nat → Nat → List Nat
  | 0, cursor => [cursor]
  | rounds + 1, cursor =>
    match Bytes.find? opening (bytes.drop cursor) with
    | none => [cursor]
    | some offset =>
      let start := cursor + offset
      let body := start + opening.length
      match Bytes.find? closing (bytes.drop body) with
      | none => [cursor, start, body]
      | some length =>
        let finish := body + length
        cursor :: start :: body :: finish ::
          cutOffsets bytes rounds (finish + closing.length)

section Offsets

open Utf8 (encodeChar encodeChars IsBoundary)

variable {cs before body after : List Char}

theorem find?_opening (cs : List Char) :
    Bytes.find? opening (encodeChars cs) =
      (splitAtOpen cs).map fun parts => (encodeChars parts.1).length := by
  induction cs with
  | nil => rfl
  | cons c rest ih =>
    by_cases hfirst : c = '%' ∧ rest.head? = some '{'
    · obtain ⟨rfl, hhead⟩ := hfirst
      obtain ⟨rest, rfl⟩ := List.head?_eq_some_iff.mp hhead
      rfl
    · rw [splitAtOpen_cons hfirst, Option.map_map]
      have hskip : Bytes.find? opening (encodeChars (c :: rest)) =
          (Bytes.find? opening (encodeChars rest)).map (· + (encodeChar c).length) := by
        by_cases hc : c = '%'
        · subst hc
          have hbrace : (encodeChars rest).head? ≠ some 123 := fun hhead =>
            hfirst ⟨rfl, (Utf8.head?_encodeChars (by decide) rest).mp hhead⟩
          exact Bytes.find?_cons_of_head?_ne hbrace 37 37 []
        · have hpercent : (37 : UInt8) ∉ encodeChar c := fun hmem =>
            hc (Utf8.encodeChar_of_mem (by decide) hmem).2
          exact Bytes.find?_append_of_notMem hpercent [123] (encodeChars rest)
      rw [hskip, ih, Option.map_map]
      refine congrArg (Option.map · (splitAtOpen rest)) (funext fun parts => ?_)
      show (encodeChars parts.1).length + (encodeChar c).length =
        (encodeChar c ++ encodeChars parts.1).length
      rw [List.length_append, Nat.add_comm]

theorem find?_closing (cs : List Char) :
    Bytes.find? closing (encodeChars cs) =
      (splitAtClose cs).map fun parts => (encodeChars parts.1).length := by
  induction cs with
  | nil => rfl
  | cons c rest ih =>
    by_cases hc : c = '}'
    · subst hc
      rfl
    · have hbrace : (125 : UInt8) ∉ encodeChar c := fun hmem =>
        hc (Utf8.encodeChar_of_mem (by decide) hmem).2
      have hskip : Bytes.find? closing (encodeChars (c :: rest)) =
          (Bytes.find? closing (encodeChars rest)).map (· + (encodeChar c).length) :=
        Bytes.find?_append_of_notMem hbrace [] (encodeChars rest)
      rw [splitAtClose_cons hc, Option.map_map, hskip, ih, Option.map_map]
      refine congrArg (Option.map · (splitAtClose rest)) (funext fun parts => ?_)
      show (encodeChars parts.1).length + (encodeChar c).length =
        (encodeChar c ++ encodeChars parts.1).length
      rw [List.length_append, Nat.add_comm]

variable {before after between body rest : List Char}

theorem drop_cut (before after : List Char) {cs : List Char} (h : cs = before ++ after) :
    (encodeChars cs).drop (encodeChars before).length = encodeChars after := by
  rw [h, Utf8.drop_encodeChars]

theorem length_cut (before after : List Char) :
    (encodeChars before).length + (encodeChars after).length =
      (encodeChars (before ++ after)).length := by
  rw [Utf8.encodeChars_append, List.length_append]

theorem cutOffsets_of_not_opens (before : List Char) (h : ¬ Opens after) (rounds : Nat) :
    cutOffsets (encodeChars (before ++ after)) (rounds + 1) (encodeChars before).length =
      [(encodeChars before).length] := by
  rw [cutOffsets, drop_cut before after rfl, find?_opening, splitAtOpen_of_not_opens h]
  rfl

theorem cutOffsets_of_unclosed (before : List Char) (h : ¬ Opens between) (hrest : '}' ∉ rest)
    (rounds : Nat) :
    cutOffsets (encodeChars (before ++ (between ++ '%' :: '{' :: rest))) (rounds + 1)
        (encodeChars before).length =
      [(encodeChars before).length, (encodeChars (before ++ between)).length,
        (encodeChars (before ++ between ++ ['%', '{'])).length] := by
  have hbody : (encodeChars (before ++ (between ++ '%' :: '{' :: rest))).drop
      (encodeChars (before ++ between ++ ['%', '{'])).length = encodeChars rest :=
    drop_cut _ rest (by simp)
  rw [cutOffsets, drop_cut before _ rfl, find?_opening, splitAtOpen_append h]
  simp only [Option.map_some, opening, length_cut, hbody, find?_closing,
    splitAtClose_of_notMem hrest, Option.map_none]

theorem cutOffsets_of_token (before : List Char) (h : ¬ Opens between) (hbody : '}' ∉ body)
    (after : List Char) (rounds : Nat) :
    let cs := before ++ (between ++ '%' :: '{' :: (body ++ '}' :: after))
    let start := before ++ between
    let inner := start ++ ['%', '{']
    cutOffsets (encodeChars cs) (rounds + 1) (encodeChars before).length =
      (encodeChars before).length :: (encodeChars start).length ::
        (encodeChars inner).length :: (encodeChars (inner ++ body)).length ::
          cutOffsets (encodeChars cs) rounds (encodeChars (inner ++ body ++ ['}'])).length := by
  intro cs start inner
  have hrest : (encodeChars cs).drop (encodeChars inner).length =
      encodeChars (body ++ '}' :: after) := drop_cut inner _ (by simp [cs, inner, start])
  rw [cutOffsets, drop_cut before _ rfl, find?_opening, splitAtOpen_append h]
  simp only [Option.map_some, opening, length_cut]
  rw [hrest, find?_closing, splitAtClose_append hbody]
  simp only [Option.map_some, closing, length_cut]
  rfl

/-- Whatever a search cuts, it cuts between characters. -/
theorem boundary_cutOffsets (rounds : Nat) {cs : List Char} {cursor : Nat}
    (h : IsBoundary cs cursor) :
    ∀ offset ∈ cutOffsets (encodeChars cs) rounds cursor, IsBoundary cs offset := by
  induction rounds generalizing cursor with
  | zero =>
    intro offset hoffset
    rw [List.mem_singleton.mp hoffset]
    exact h
  | succ rounds ih =>
    obtain ⟨before, after, rfl, rfl⟩ := h
    rcases not_opens_or_first after with hnone | ⟨between, rest, rfl, hbetween⟩
    · rw [cutOffsets_of_not_opens before hnone]
      simp only [List.mem_singleton, forall_eq]
      exact ⟨before, after, rfl, rfl⟩
    · have hstart : IsBoundary (before ++ (between ++ '%' :: '{' :: rest))
          (encodeChars (before ++ between)).length :=
        ⟨before ++ between, '%' :: '{' :: rest, (List.append_assoc ..).symm, rfl⟩
      have hinner : IsBoundary (before ++ (between ++ '%' :: '{' :: rest))
          (encodeChars (before ++ between ++ ['%', '{'])).length :=
        ⟨before ++ between ++ ['%', '{'], rest, by simp, rfl⟩
      by_cases hclosed : '}' ∈ rest
      · obtain ⟨body, after, rfl, hbody⟩ := List.eq_append_cons_of_mem hclosed
        rw [cutOffsets_of_token before hbetween hbody]
        simp only [List.forall_mem_cons]
        exact ⟨⟨before, _, rfl, rfl⟩, hstart, hinner,
          ⟨before ++ between ++ ['%', '{'] ++ body, '}' :: after, by simp, rfl⟩,
          ih ⟨before ++ between ++ ['%', '{'] ++ body ++ ['}'], after, by simp, rfl⟩⟩
      · rw [cutOffsets_of_unclosed before hbetween hclosed]
        simp only [List.forall_mem_cons]
        exact ⟨⟨before, _, rfl, rfl⟩, hstart, hinner, List.forall_mem_nil _⟩

end Offsets

/-! ## The grammar -/

theorem readTemplate_eq_ok_iff {cs : List Char} {t : Template} :
    readTemplate cs = .ok t ↔ Template.parse cs = .ok t := by
  unfold readTemplate
  cases Template.parse cs <;> simp

theorem readTemplate_error {cs : List Char} {e : ArchiveError} (h : readTemplate cs = .error e) :
    ∃ reason, e = .invalidTemplate (String.ofList cs) reason := by
  unfold readTemplate at h
  cases hparse : Template.parse cs with
  | ok t =>
    rw [hparse] at h
    cases h
  | error fault =>
    rw [hparse] at h
    exact ⟨fault.message, (Except.error.inj h).symm⟩

/-- A text is read as a template if it has no `%{`, or if it has one token with a pattern for
a body and no other `%{`.  There is one way at most to see it so, the template tells which of
the two it is, and rendering leaves everything but the token as it is.  Any other text is
refused as an invalid template.  Wherever a search among the bytes of the text cuts it, a
character begins or the text ends, and in a text with one token it cuts around the token and its
body. -/
theorem template_grammar (cs : List Char) :
    ((∃ t, readTemplate cs = .ok t) ↔ ¬ Opens cs ∨ ∃ before body after pattern,
      OneToken cs before body after ∧ Pattern.parse body = .ok pattern) ∧
    (∀ before body after before' body' after', OneToken cs before body after →
      OneToken cs before' body' after' → before = before' ∧ body = body' ∧ after = after') ∧
    (∀ t, readTemplate cs = .ok t →
      (t.hasToken = false ↔ ¬ Opens cs) ∧
      (t.hasToken = true ↔ ∃ before body after, OneToken cs before body after) ∧
      (¬ Opens cs → ∀ now, t.render now = cs) ∧
      (∀ before body after pattern, OneToken cs before body after →
        Pattern.parse body = .ok pattern →
        ∀ now, t.render now = before ++ pattern.render now ++ after)) ∧
    (∀ e, readTemplate cs = .error e →
      ∃ reason, e = .invalidTemplate (String.ofList cs) reason) ∧
    (∀ rounds, ∀ offset ∈ cutOffsets (Utf8.encodeChars cs) rounds 0, Utf8.IsBoundary cs offset) ∧
    (∀ rounds before body after, OneToken cs before body after →
      let start := before
      let inner := start ++ ['%', '{']
      cutOffsets (Utf8.encodeChars cs) (rounds + 2) 0 =
        [[], start, inner, inner ++ body, inner ++ body ++ ['}']].map
          fun part => (Utf8.encodeChars part).length) := by
  refine ⟨⟨?_, ?_⟩, fun _ _ _ _ _ _ h h' => h.unique h', fun t ht => ?_,
    fun e he => readTemplate_error he, fun rounds => ?_, fun rounds before body after h => ?_⟩
  · rintro ⟨t, ht⟩
    rcases parse_cases (readTemplate_eq_ok_iff.mp ht) with ⟨hnone, -⟩ |
      ⟨before, body, after, pattern, hone, hpattern, -⟩
    · exact Or.inl hnone
    · exact Or.inr ⟨before, body, after, pattern, hone, hpattern⟩
  · rintro (hnone | ⟨before, body, after, pattern, hone, hpattern⟩)
    · exact ⟨_, readTemplate_eq_ok_iff.mpr (parse_of_not_opens hnone)⟩
    · exact ⟨_, readTemplate_eq_ok_iff.mpr (parse_of_oneToken hone hpattern)⟩
  · rcases parse_cases (readTemplate_eq_ok_iff.mp ht) with ⟨hnone, rfl⟩ |
      ⟨before, body, after, pattern, hone, hpattern, rfl⟩
    · refine ⟨iff_of_true rfl hnone, iff_of_false Bool.false_ne_true ?_, fun _ _ => rfl, ?_⟩
      · rintro ⟨before, body, after, hone⟩
        exact hnone hone.opens
      · intro before body after pattern hone
        exact absurd hone.opens hnone
    · refine ⟨iff_of_false Bool.noConfusion (not_not_intro hone.opens),
        iff_of_true rfl ⟨before, body, after, hone⟩, fun hnone => absurd hone.opens hnone, ?_⟩
      intro before' body' after' pattern' hone' hpattern' now
      obtain ⟨rfl, rfl, rfl⟩ := hone.unique hone'
      rw [hpattern] at hpattern'
      obtain rfl := Except.ok.inj hpattern'
      rfl
  · exact boundary_cutOffsets rounds ⟨[], cs, rfl, rfl⟩
  · intro start inner
    have hfirst := cutOffsets_of_token [] h.before h.closing after (rounds + 1)
    have hlast := cutOffsets_of_not_opens (inner ++ body ++ ['}']) h.after rounds
    rw [← h.eq_append] at hlast
    rw [List.nil_append, List.nil_append, ← h.eq] at hfirst
    exact hfirst.trans (congrArg (_ :: _ :: _ :: _ :: ·) hlast)

end RecordArchive.Naming
