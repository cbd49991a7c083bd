import RecordArchive.Text.Utf8

/-!
# Texts that are written and read again

A text that is written in UTF-8 is read as what it was: `decodeChars_encodeChars`.
Every byte of a character that takes more than one is out of the range of ASCII, so a
line feed among the bytes stands for a line feed in the text.
-/

namespace RecordArchive.Utf8

theorem toNat_ofNat_of_lt {n : Nat} (h : n < 256) : (UInt8.ofNat n).toNat = n := by
  rw [UInt8.toNat_ofNat']
  exact Nat.mod_eq_of_lt h

theorem toNat_valid (c : Char) : c.toNat < 0xD800 ∨ 0xDFFF < c.toNat ∧ c.toNat < 0x110000 :=
  c.valid

namespace Reading

variable {reversed : List Char} {value missing low high m : Nat}

theorem feed_first (reversed : List Char) (byte : UInt8) :
    feed ⟨reversed, none⟩ byte = feedLead reversed byte := rfl

/-- A byte in range continues a character of which more is missing. -/
theorem feed_more (hlow : low ≤ 0x80 + m % 0x40) (hhigh : 0x80 + m % 0x40 ≤ high) :
    feed ⟨reversed, some ⟨value, missing + 2, low, high⟩⟩ (UInt8.ofNat (0x80 + m % 0x40)) =
      ⟨reversed, some ⟨value * 0x40 + m % 0x40, missing + 1, 0x80, 0xBF⟩⟩ := by
  have hbyte : (UInt8.ofNat (0x80 + m % 0x40)).toNat = 0x80 + m % 0x40 :=
    toNat_ofNat_of_lt (by omega)
  have hvalue : (0x80 + m % 0x40) % 0x40 = m % 0x40 := by omega
  have hleft : ¬ missing + 2 ≤ 1 := by omega
  unfold feed
  simp only [hbyte, hlow, hhigh, hleft, hvalue, and_self, if_true, if_false]
  rfl

/-- A byte in range completes a character of which it was all that was missing. -/
theorem feed_last (hlow : low ≤ 0x80 + m % 0x40) (hhigh : 0x80 + m % 0x40 ≤ high) :
    feed ⟨reversed, some ⟨value, 1, low, high⟩⟩ (UInt8.ofNat (0x80 + m % 0x40)) =
      ⟨Char.ofNat (value * 0x40 + m % 0x40) :: reversed, none⟩ := by
  have hbyte : (UInt8.ofNat (0x80 + m % 0x40)).toNat = 0x80 + m % 0x40 :=
    toNat_ofNat_of_lt (by omega)
  have hvalue : (0x80 + m % 0x40) % 0x40 = m % 0x40 := by omega
  unfold feed
  simp only [hbyte, hlow, hhigh, hvalue, and_self, Nat.le_refl, if_true]

end Reading

/-! ## First bytes -/

theorem lead_two {q : Nat} (hmin : 2 ≤ q) (hmax : q < 0x20) :
    lead (UInt8.ofNat (0xC0 + q)) = .begun ⟨q, 1, 0x80, 0xBF⟩ := by
  have h₁ : ¬ 0xC0 + q < 0x80 := by omega
  have h₂ : ¬ 0xC0 + q < 0xC2 := by omega
  have h₃ : 0xC0 + q < 0xE0 := by omega
  unfold lead
  simp only [toNat_ofNat_of_lt (show 0xC0 + q < 256 by omega), h₁, h₂, h₃, if_false, if_true,
    Nat.add_sub_cancel_left]

theorem lead_three {q : Nat} (hmax : q < 0x10) :
    lead (UInt8.ofNat (0xE0 + q)) =
      .begun ⟨q, 2, if q = 0 then 0xA0 else 0x80, if q = 13 then 0x9F else 0xBF⟩ := by
  have h₁ : ¬ 0xE0 + q < 0x80 := by omega
  have h₂ : ¬ 0xE0 + q < 0xC2 := by omega
  have h₃ : ¬ 0xE0 + q < 0xE0 := by omega
  have h₄ : 0xE0 + q < 0xF0 := by omega
  unfold lead
  simp only [toNat_ofNat_of_lt (show 0xE0 + q < 256 by omega), h₁, h₂, h₃, h₄, if_false, if_true]
  by_cases hfirst : q = 0
  · subst hfirst
    rfl
  · by_cases hsurrogate : q = 13
    · subst hsurrogate
      rfl
    · have h₅ : ¬ 0xE0 + q = 0xE0 := by omega
      have h₆ : ¬ 0xE0 + q = 0xED := by omega
      simp only [hfirst, hsurrogate, h₅, h₆, if_false, Nat.add_sub_cancel_left]

theorem lead_four {q : Nat} (hmax : q < 5) :
    lead (UInt8.ofNat (0xF0 + q)) =
      .begun ⟨q, 3, if q = 0 then 0x90 else 0x80, if q = 4 then 0x8F else 0xBF⟩ := by
  match q, hmax with
  | 0, _ | 1, _ | 2, _ | 3, _ | 4, _ => rfl

/-! ## Characters and texts -/

theorem foldl_encodeChar (reversed : List Char) (c : Char) :
    (encodeChar c).foldl Reading.feed ⟨reversed, none⟩ = ⟨c :: reversed, none⟩ := by
  have hvalid := toNat_valid c
  have hback : Char.ofNat c.toNat = c := Char.ofNat_toNat c
  unfold encodeChar
  simp only
  generalize c.toNat = n at hvalid hback ⊢
  by_cases hone : n < 0x80
  · have hbyte : (UInt8.ofNat n).toNat = n := toNat_ofNat_of_lt (by omega)
    rw [if_pos hone, List.foldl_cons, List.foldl_nil, Reading.feed_first, Reading.feedLead, lead]
    simp only [hbyte, hone, if_true, hback]
  rw [if_neg hone]
  by_cases htwo : n < 0x800
  · have hvalue : n / 0x40 * 0x40 + n % 0x40 = n := by omega
    rw [if_pos htwo, List.foldl_cons, List.foldl_cons, List.foldl_nil, Reading.feed_first,
      Reading.feedLead, lead_two (by omega) (by omega)]
    simp only
    rw [Reading.feed_last (by omega) (by omega), hvalue, hback]
  rw [if_neg htwo]
  by_cases hthree : n < 0x10000
  · -- The range of the second byte keeps short forms and surrogates out.
    have hlow : (if n / 0x1000 = 0 then 0xA0 else 0x80) ≤ 0x80 + n / 0x40 % 0x40 := by
      split <;> omega
    have hhigh : 0x80 + n / 0x40 % 0x40 ≤ (if n / 0x1000 = 13 then 0x9F else 0xBF) := by
      split <;> omega
    have hvalue : (n / 0x1000 * 0x40 + n / 0x40 % 0x40) * 0x40 + n % 0x40 = n := by omega
    rw [if_pos hthree, List.foldl_cons, List.foldl_cons, List.foldl_cons, List.foldl_nil,
      Reading.feed_first, Reading.feedLead, lead_three (by omega)]
    simp only
    rw [Reading.feed_more hlow hhigh, Reading.feed_last (by omega) (by omega), hvalue, hback]
  · rw [if_neg hthree]
    have hlow : (if n / 0x40000 = 0 then 0x90 else 0x80) ≤ 0x80 + n / 0x1000 % 0x40 := by
      split <;> omega
    have hhigh : 0x80 + n / 0x1000 % 0x40 ≤ (if n / 0x40000 = 4 then 0x8F else 0xBF) := by
      split <;> omega
    have hvalue : ((n / 0x40000 * 0x40 + n / 0x1000 % 0x40) * 0x40 + n / 0x40 % 0x40) * 0x40 +
        n % 0x40 = n := by omega
    rw [List.foldl_cons, List.foldl_cons, List.foldl_cons, List.foldl_cons, List.foldl_nil,
      Reading.feed_first, Reading.feedLead, lead_four (by omega)]
    simp only
    rw [Reading.feed_more hlow hhigh, Reading.feed_more (by omega) (by omega),
      Reading.feed_last (by omega) (by omega), hvalue, hback]

theorem foldl_encodeChars (reversed cs : List Char) :
    (encodeChars cs).foldl Reading.feed ⟨reversed, none⟩ = ⟨cs.reverse ++ reversed, none⟩ := by
  induction cs generalizing reversed with
  | nil => rfl
  | cons c rest ih =>
    have hsplit : encodeChars (c :: rest) = encodeChar c ++ encodeChars rest := rfl
    rw [hsplit, List.foldl_append, foldl_encodeChar, ih, List.reverse_cons, List.append_assoc,
      List.singleton_append]

theorem decodeChars_encodeChars (cs : List Char) : decodeChars (encodeChars cs) = cs := by
  rw [decodeChars, Reading.start, foldl_encodeChars, List.append_nil, Reading.finish]
  exact List.reverse_reverse cs

/-! ## Characters of ASCII -/

/-- A byte in the range of ASCII is all that its character is written with. -/
theorem encodeChar_of_mem {c : Char} {byte : UInt8} (hbyte : byte.toNat < 0x80)
    (h : byte ∈ encodeChar c) : encodeChar c = [byte] ∧ c = Char.ofNat byte.toNat := by
  have hvalue {n : Nat} (hn : n < 256) (heq : byte = UInt8.ofNat n) : byte.toNat = n := by
    rw [heq, toNat_ofNat_of_lt hn]
  have hvalid := toNat_valid c
  have hback : Char.ofNat c.toNat = c := Char.ofNat_toNat c
  unfold encodeChar at h ⊢
  simp only at h ⊢
  generalize c.toNat = n at hvalid hback h ⊢
  by_cases hone : n < 0x80
  · rw [if_pos hone, List.mem_singleton] at h
    rw [if_pos hone, ← h, hvalue (by omega) h]
    exact ⟨rfl, hback.symm⟩
  -- The bytes of a longer character are all 0x80 or more.
  exfalso
  rw [if_neg hone] at h
  by_cases htwo : n < 0x800
  · simp only [if_pos htwo, List.mem_cons, List.not_mem_nil, or_false] at h
    rcases h with heq | heq <;> have := hvalue (by omega) heq <;> omega
  rw [if_neg htwo] at h
  by_cases hthree : n < 0x10000
  · simp only [if_pos hthree, List.mem_cons, List.not_mem_nil, or_false] at h
    rcases h with heq | heq | heq <;> have := hvalue (by omega) heq <;> omega
  · simp only [if_neg hthree, List.mem_cons, List.not_mem_nil, or_false] at h
    rcases h with heq | heq | heq | heq <;> have := hvalue (by omega) heq <;> omega

/-- Only a line feed is written with the byte of a line feed. -/
theorem eq_lineFeed_of_mem_encodeChar {c : Char} (h : lineFeed ∈ encodeChar c) : c = '\n' :=
  (encodeChar_of_mem (by decide) h).2

theorem lineFeed_notMem_encodeChars {cs : List Char} (h : '\n' ∉ cs) :
    lineFeed ∉ encodeChars cs := by
  intro hmem
  obtain ⟨c, hc, hbyte⟩ := List.mem_flatMap.mp hmem
  rw [eq_lineFeed_of_mem_encodeChar hbyte] at hc
  exact h hc

/-- The line feeds among the bytes are those of the text. -/
theorem count_encodeChars (cs : List Char) : (encodeChars cs).count lineFeed = cs.count '\n' := by
  induction cs with
  | nil => rfl
  | cons c rest ih =>
    have hcons : encodeChars (c :: rest) = encodeChar c ++ encodeChars rest := List.flatMap_cons
    rw [hcons, List.count_append, ih, List.count_cons, Nat.add_comm]
    by_cases hc : c = '\n'
    · subst hc
      rfl
    · have hnone : lineFeed ∉ encodeChar c := fun hmem => hc (eq_lineFeed_of_mem_encodeChar hmem)
      rw [List.count_eq_zero_of_not_mem hnone, if_neg (by simpa using hc)]

end RecordArchive.Utf8
