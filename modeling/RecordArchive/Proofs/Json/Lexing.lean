import Mathlib.Data.List.TakeWhile
import RecordArchive.Json.Token
import RecordArchive.Proofs.Json.Plain

/-!
# The tokens of a printed value

The text of a plain value is cut into the tokens that it was made of, whatever
follows it, as long as a number at its end is not continued: `scans_render`.
-/

namespace RecordArchive.Json

/-! ## Texts -/

section Texts

variable {reversed rest after : List Char} {c plain : Char}

theorem closeText?_quote (reversed rest : List Char) :
    closeText? reversed ('"' :: rest) = some (reversed.reverse, rest) := by
  rw [closeText?, if_pos rfl]

theorem closeText?_escaped (h : escaped? rest = some (plain, after)) :
    closeText? reversed ('\\' :: rest) = closeText? (plain :: reversed) after := by
  rw [closeText?, if_neg (by decide), if_pos rfl]
  split
  · rename_i hnone
    rw [h] at hnone
    cases hnone
  · rename_i hsome
    rw [h] at hsome
    cases hsome
    rfl

theorem closeText?_plain (hquote : c ≠ '"') (hescape : c ≠ '\\') (hmin : 0x20 ≤ c.toNat) :
    closeText? reversed (c :: rest) = closeText? (c :: reversed) rest := by
  rw [closeText?, if_neg hquote, if_neg hescape, if_neg (Nat.not_lt.mpr hmin)]

theorem escaped?_short (hne : c ≠ 'u') (h : shortEscape? c = some plain) (rest : List Char) :
    escaped? (c :: rest) = some (plain, rest) := by
  rw [escaped?, if_neg hne, h]
  rfl

theorem codeUnit?_low {n : Nat} (h : n < 0x100) (rest : List Char) :
    codeUnit? ('0' :: '0' :: Text.hexDigit (n / 16) :: Text.hexDigit (n % 16) :: rest) =
      some (n, rest) := by
  have hhigh := Text.hexValue?_hexDigit (show n / 16 < 16 by omega)
  have hlow := Text.hexValue?_hexDigit (show n % 16 < 16 by omega)
  have hzero : Text.hexValue? '0' = some 0 := rfl
  have h₁ : n / 16 < 16 := by omega
  have h₂ : n % 16 < 16 := by omega
  have hvalue : n / 16 * 16 + n % 16 = n := by omega
  simp [codeUnit?, Text.natOfDigits?, hhigh, hlow, hzero, h₁, h₂, hvalue]

theorem escaped?_control (h : c.toNat < 0x20) (rest : List Char) :
    escaped? ('u' :: '0' :: '0' :: Text.hexDigit (c.toNat / 16) ::
      Text.hexDigit (c.toNat % 16) :: rest) = some (c, rest) := by
  rw [escaped?, if_pos rfl, codeUnit?_low (by omega)]
  show codePoint? c.toNat rest = some (c, rest)
  unfold codePoint?
  rw [if_pos (by omega), Char.ofNat_toNat]

theorem closeText?_short (hne : c ≠ 'u') (h : shortEscape? c = some plain) :
    closeText? reversed ('\\' :: c :: rest) = closeText? (plain :: reversed) rest :=
  closeText?_escaped (escaped?_short hne h rest)

/-- A character that was escaped is read as it was. -/
theorem closeText?_escape (reversed : List Char) (c : Char) (rest : List Char) :
    closeText? reversed (escape c ++ rest) = closeText? (c :: reversed) rest := by
  unfold escape
  by_cases hquote : c = '"'
  · rw [if_pos hquote, hquote]
    exact closeText?_short (by decide) rfl
  rw [if_neg hquote]
  by_cases hescape : c = '\\'
  · rw [if_pos hescape, hescape]
    exact closeText?_short (by decide) rfl
  rw [if_neg hescape]
  by_cases hmin : 0x20 ≤ c.toNat
  · rw [if_pos hmin]
    exact closeText?_plain hquote hescape hmin
  rw [if_neg hmin]
  -- Of the control characters five have an escape of their own.
  by_cases hfeed : c = '\n'
  · rw [if_pos hfeed, hfeed]
    exact closeText?_short (by decide) rfl
  rw [if_neg hfeed]
  by_cases hreturn : c = '\r'
  · rw [if_pos hreturn, hreturn]
    exact closeText?_short (by decide) rfl
  rw [if_neg hreturn]
  by_cases htab : c = '\t'
  · rw [if_pos htab, htab]
    exact closeText?_short (by decide) rfl
  rw [if_neg htab]
  by_cases hback : c.toNat = 0x08
  · rw [if_pos hback, show c = '\x08' from Char.toNat_inj.mp hback]
    exact closeText?_short (by decide) rfl
  rw [if_neg hback]
  by_cases hform : c.toNat = 0x0C
  · rw [if_pos hform, show c = '\x0c' from Char.toNat_inj.mp hform]
    exact closeText?_short (by decide) rfl
  rw [if_neg hform]
  exact closeText?_escaped (escaped?_control (Nat.not_le.mp hmin) rest)

theorem closeText?_flatMap_escape (reversed cs rest : List Char) :
    closeText? reversed (cs.flatMap escape ++ '"' :: rest) =
      some (reversed.reverse ++ cs, rest) := by
  induction cs generalizing reversed with
  | nil =>
    rw [List.append_nil]
    exact closeText?_quote reversed rest
  | cons c more ih =>
    rw [List.flatMap_cons, List.append_assoc, closeText?_escape, ih, List.reverse_cons,
      List.append_assoc, List.singleton_append]

end Texts

/-! ## Numbers -/

theorem isNumberChar_of_isDigit {c : Char} (h : c.isDigit = true) : isNumberChar c = true := by
  simp [isNumberChar, h]

theorem isNumberChar_digits (n : Nat) : ∀ c ∈ Text.digits n, isNumberChar c = true :=
  fun _ hc => isNumberChar_of_isDigit (Text.isDigit_of_mem_digits hc)

section Digits

variable (n : Nat)

theorem takeWhile_digits : (Text.digits n).takeWhile Char.isDigit = Text.digits n :=
  List.takeWhile_eq_self_iff.mpr fun _ hc => Text.isDigit_of_mem_digits hc

theorem dropWhile_digits : (Text.digits n).dropWhile Char.isDigit = [] :=
  List.dropWhile_eq_nil_iff.mpr fun _ hc => Text.isDigit_of_mem_digits hc

theorem digits_isWhole : ((Text.digits n).isEmpty ||
    ((Text.digits n).head? == some '0' && (Text.digits n).length != 1)) = false := by
  have hne := Text.digits_ne_nil n
  rw [Bool.or_eq_false_iff, List.isEmpty_eq_false_iff]
  refine ⟨hne, ?_⟩
  by_cases hzero : (Text.digits n).head? = some '0'
  · rw [Text.eq_zero_of_head_digits hzero]
    rfl
  · rw [beq_eq_false_iff_ne.mpr hzero]
    rfl

theorem number?_digits : number? (Text.digits n) = ofWhole? false (Text.digits n) := by
  have hsign : ∀ rest, Text.digits n ≠ '-' :: rest := by
    intro rest heq
    have hdigit := Text.isDigit_of_mem_digits (heq ▸ List.mem_cons_self : '-' ∈ Text.digits n)
    revert hdigit
    decide
  unfold number?
  split
  rename_i heq
  split at heq
  · rename_i rest heq'
    exact absurd heq' (hsign rest)
  · cases heq
    simp only [takeWhile_digits, dropWhile_digits, digits_isWhole, Bool.false_eq_true, if_false]

theorem number?_neg_digits :
    number? ('-' :: Text.digits n) = ofWhole? true (Text.digits n) := by
  unfold number?
  simp only [takeWhile_digits, dropWhile_digits, digits_isWhole, Bool.false_eq_true, if_false]

end Digits

theorem number?_numeral {n : Int} (hmin : leastInteger ≤ n) (hmax : n ≤ greatestInteger) :
    number? (numeral n) = some (integer n) := by
  by_cases h : n < 0
  · have hzero : (n.natAbs == 0) = false := beq_eq_false_iff_ne.mpr (by omega)
    have hvalue : -(n.natAbs : Int) = n := by omega
    rw [numeral_of_neg h, number?_neg_digits, ofWhole?]
    simp only [Text.natOfDigits_digits, hzero, hvalue, hmin, hmax, Bool.and_false,
      Bool.false_eq_true, and_self, if_true, if_false]
  · have hvalue : (n.natAbs : Int) = n := by omega
    rw [numeral_of_nonneg h, number?_digits, ofWhole?]
    simp only [Text.natOfDigits_digits, hvalue, hmin, hmax, Bool.false_and, Bool.false_eq_true,
      and_self, if_true, if_false]

/-! ## Tokens -/

mutual

/-- The tokens of a printed value. -/
def tokensOf : Json → List Token
  | array items => .openArray :: itemTokens items ++ [.closeArray]
  | object fields => .openObject :: fieldTokens fields ++ [.closeObject]
  | value => [.scalar value]

def itemTokens : List Json → List Token
  | [] => []
  | [item] => tokensOf item
  | item :: next :: rest => tokensOf item ++ .comma :: itemTokens (next :: rest)

def fieldTokens : List (String × Json) → List Token
  | [] => []
  | [(name, value)] => [.scalar (.text name), .colon] ++ tokensOf value
  | (name, value) :: next :: rest =>
    [.scalar (.text name), .colon] ++ tokensOf value ++ .comma :: fieldTokens (next :: rest)

end

/-- In front of `rest`, a text is cut into the given tokens. -/
def Scans (cs rest : List Char) (tokens : List Token) : Prop :=
  ∀ found, scanFrom found (cs ++ rest) = scanFrom (tokens.reverse ++ found) rest

/-- A number or a name is not continued. -/
def Ends (rest : List Char) : Prop :=
  ∀ c ∈ rest.head?, isNumberChar c = false ∧ c.isLower = false

theorem ends_cons {c : Char} {rest : List Char}
    (h : isNumberChar c = false ∧ c.isLower = false) : Ends (c :: rest) := by
  intro d hd
  cases hd
  exact h

section Scanning

variable {a b rest more : List Char} {s t : List Token} {c : Char} {token : Token}

theorem Scans.nil : Scans [] rest [] := fun _ => rfl

theorem Scans.append (ha : Scans a (b ++ rest) s) (hb : Scans b rest t) :
    Scans (a ++ b) rest (s ++ t) := by
  intro found
  rw [List.append_assoc, ha, hb, List.reverse_append, List.append_assoc]

theorem scans_token (hspace : isSpace c = false)
    (h : tokenAt? c (more ++ rest) = some (token, rest)) : Scans (c :: more) rest [token] := by
  intro found
  rw [List.cons_append, scanFrom, if_neg (by rw [hspace]; decide)]
  split
  · rename_i hnone
    rw [h] at hnone
    cases hnone
  · rename_i hsome
    rw [h] at hsome
    cases hsome
    rfl

theorem Scans.mark (h : Scans b rest t) (hspace : isSpace c = false)
    (hmark : mark? c = some token) : Scans (c :: b) rest (token :: t) := by
  refine Scans.append (a := [c]) (s := [token]) (scans_token hspace ?_) h
  rw [tokenAt?, hmark]
  rfl

theorem scans_quoted (name : String) (rest : List Char) :
    Scans (quoted name) rest [.scalar (.text name)] := by
  rw [quoted, List.cons_append]
  apply scans_token (by decide)
  rw [List.append_assoc, List.singleton_append]
  show (closeText? [] (name.toList.flatMap escape ++ '"' :: rest)).map _ = _
  rw [closeText?_flatMap_escape, Option.map_some, List.reverse_nil, List.nil_append]
  simp only [String.ofList_toList]

/-- The characters of a name or a number end where others begin. -/
theorem takeWhile_append_of_head {p : Char → Bool} (hmore : ∀ d ∈ more, p d = true)
    (hrest : ∀ d ∈ rest.head?, p d = false) :
    (more ++ rest).takeWhile p = more ∧ (more ++ rest).dropWhile p = rest := by
  rw [List.takeWhile_append_of_pos hmore, List.dropWhile_append_of_pos hmore]
  cases rest with
  | nil => exact ⟨List.append_nil more, rfl⟩
  | cons d after =>
    have hd : ¬p d = true := by
      rw [hrest d rfl]
      decide
    rw [List.takeWhile_cons_of_neg hd, List.dropWhile_cons_of_neg hd, List.append_nil]
    exact ⟨rfl, rfl⟩

theorem word_begins (h : c.isLower = true ∨ isNumberChar c = true) :
    mark? c = none ∧ c ≠ '"' ∧ isSpace c = false := by
  refine ⟨?_, ?_, ?_⟩
  · unfold mark?
    split
    iterate 6
      revert h
      decide
    rfl
  · rintro rfl
    revert h
    decide
  · rw [← Bool.not_eq_true]
    intro hspace
    simp only [isSpace, Bool.or_eq_true, beq_iff_eq] at hspace
    rcases hspace with ((hc | hc) | hc) | hc <;> subst hc <;> revert h <;> decide

theorem scans_named {value : Json} (hlower : (c :: more).all Char.isLower = true)
    (h : named? (c :: more) = some value) (hends : Ends rest) :
    Scans (c :: more) rest [.scalar value] := by
  obtain ⟨hc, hmore⟩ := List.forall_mem_cons.mp (List.all_eq_true.mp hlower)
  obtain ⟨hmark, hquote, hspace⟩ := word_begins (Or.inl hc)
  obtain ⟨htake, hdrop⟩ := takeWhile_append_of_head hmore fun d hd => (hends d hd).2
  apply scans_token hspace
  rw [tokenAt?, hmark]
  simp only
  rw [if_neg hquote, if_pos hc, htake, hdrop, h]
  rfl

theorem scans_number {value : Json} (hc : c.isLower = false)
    (hchars : ∀ d ∈ c :: more, isNumberChar d = true) (h : number? (c :: more) = some value)
    (hends : Ends rest) : Scans (c :: more) rest [.scalar value] := by
  obtain ⟨hchar, hmore⟩ := List.forall_mem_cons.mp hchars
  obtain ⟨hmark, hquote, hspace⟩ := word_begins (Or.inr hchar)
  obtain ⟨htake, hdrop⟩ := takeWhile_append_of_head hmore fun d hd => (hends d hd).1
  apply scans_token hspace
  rw [tokenAt?, hmark]
  simp only
  rw [if_neg hquote, if_neg (by rw [hc]; decide), if_pos hchar, htake, hdrop, h]
  rfl

theorem isLower_of_isDigit (h : c.isDigit = true) : c.isLower = false := by
  have hmax : c.toNat ≤ 57 := of_decide_eq_true (Bool.and_eq_true_iff.mp h).2
  rw [← Bool.not_eq_true]
  intro hlower
  have hmin : 97 ≤ c.toNat := of_decide_eq_true (Bool.and_eq_true_iff.mp hlower).1
  omega

theorem scans_numeral {n : Int} (hmin : leastInteger ≤ n) (hmax : n ≤ greatestInteger)
    (hends : Ends rest) : Scans (numeral n) rest [.scalar (.integer n)] := by
  have hread := number?_numeral hmin hmax
  have hdigits := isNumberChar_digits n.natAbs
  by_cases h : n < 0
  · rw [numeral_of_neg h] at hread ⊢
    exact scans_number rfl (List.forall_mem_cons.mpr ⟨rfl, hdigits⟩) hread hends
  · rw [numeral_of_nonneg h] at hread ⊢
    have hfirst : ∀ d ∈ Text.digits n.natAbs, d.isLower = false :=
      fun d hd => isLower_of_isDigit (Text.isDigit_of_mem_digits hd)
    cases hcs : Text.digits n.natAbs with
    | nil => exact absurd hcs (Text.digits_ne_nil _)
    | cons d others =>
      rw [hcs] at hread hdigits hfirst
      exact scans_number (hfirst d List.mem_cons_self) hdigits hread hends

theorem scans_renderItems {items : List Json}
    (h : ∀ item ∈ items, ∀ rest, Ends rest → Scans item.render rest item.tokensOf)
    (hends : Ends rest) : Scans (renderItems items) rest (itemTokens items) := by
  induction items with
  | nil =>
    intro found
    rfl
  | cons item others ih =>
    have hitem := h item List.mem_cons_self
    cases others with
    | nil => exact hitem rest hends
    | cons next after =>
      show Scans (item.render ++ ',' :: renderItems (next :: after)) rest
        (item.tokensOf ++ .comma :: itemTokens (next :: after))
      have hrest := ih fun other hmem => h other (List.mem_cons_of_mem _ hmem)
      exact (hitem _ (ends_cons (by decide))).append (hrest.mark rfl rfl)

theorem scans_renderFields {fields : List (String × Json)}
    (h : ∀ field ∈ fields, ∀ rest, Ends rest → Scans field.2.render rest field.2.tokensOf)
    (hends : Ends rest) : Scans (renderFields fields) rest (fieldTokens fields) := by
  induction fields with
  | nil =>
    intro found
    rfl
  | cons field others ih =>
    obtain ⟨name, value⟩ := field
    have hfield (after : List Char) (hafter : Ends after) :
        Scans (quoted name ++ ':' :: value.render) after
          ([.scalar (.text name), .colon] ++ value.tokensOf) := by
      have hvalue := h (name, value) List.mem_cons_self after hafter
      exact (scans_quoted name _).append (hvalue.mark rfl rfl)
    cases others with
    | nil => exact hfield rest hends
    | cons next after =>
      show Scans (quoted name ++ ':' :: value.render ++ ',' :: renderFields (next :: after)) rest
        ([.scalar (.text name), .colon] ++ value.tokensOf ++
          .comma :: fieldTokens (next :: after))
      have hrest := ih fun other hmem => h other (List.mem_cons_of_mem _ hmem)
      exact (hfield _ (ends_cons (by decide))).append (hrest.mark rfl rfl)

end Scanning

theorem scans_render {value : Json} (h : value.Plain) (rest : List Char) (hends : Ends rest) :
    Scans value.render rest value.tokensOf := by
  induction h generalizing rest with
  | null => exact scans_named rfl rfl hends
  | boolean b =>
    cases b
    · exact scans_named rfl rfl hends
    · exact scans_named rfl rfl hends
  | integer hmin hmax => exact scans_numeral hmin hmax hends
  | text s => exact scans_quoted s rest
  | @array items _ ih =>
    show Scans ('[' :: renderItems items ++ [']']) rest
      (.openArray :: itemTokens items ++ [.closeArray])
    have hbracket : Ends (']' :: rest) := ends_cons (by decide)
    have hitems := scans_renderItems ih hbracket
    exact (hitems.mark rfl rfl).append (Scans.nil.mark rfl rfl)
  | @object fields _ _ ih =>
    show Scans ('\x7b' :: renderFields fields ++ ['\x7d']) rest
      (.openObject :: fieldTokens fields ++ [.closeObject])
    have hbrace : Ends ('\x7d' :: rest) := ends_cons (by decide)
    have hfields := scans_renderFields ih hbrace
    exact (hfields.mark rfl rfl).append (Scans.nil.mark rfl rfl)

theorem tokens?_render {value : Json} (h : value.Plain) :
    tokens? value.render = some value.tokensOf := by
  have hscan := scans_render h [] (by rintro c ⟨⟩) []
  rw [List.append_nil, List.append_nil] at hscan
  rw [tokens?, hscan, scanFrom, List.reverse_reverse]

end RecordArchive.Json
