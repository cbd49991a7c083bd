import Mathlib.Data.List.Basic
import RecordArchive.Naming.ObjectKey
import RecordArchive.Proofs.Text.Numeral

/-!
# Keys that are told apart

An identifier is written with all of its bits in places of their own, so its text
determines it.  The text of an identifier has one length, and so has the extension of a
namer, so both are found again by counting from the end of a key.  The main statement is
`id_eq_of_key_eq`: keys with unique suffixes are equal only if their identifiers are.
-/

namespace RecordArchive

theorem Text.hexDigit_inj {d e : Nat} (hd : d < 16) (he : e < 16)
    (h : Text.hexDigit d = Text.hexDigit e) : d = e := by
  have hvalue := Text.hexValue?_hexDigit hd
  rw [h, Text.hexValue?_hexDigit he] at hvalue
  exact (Option.some.inj hvalue).symm

namespace Naming

namespace Uuid

@[simp] theorem length_hexDigits (n low count : Nat) : (hexDigits n low count).length = count := by
  induction count with
  | zero => rfl
  | succ count ih => rw [hexDigits, List.length_cons, ih]

/-- A digit shows the four bits of its place. -/
theorem testBit_of_digit_eq {m n place : Nat}
    (h : (m >>> (4 * place)) % 16 = (n >>> (4 * place)) % 16)
    {k : Nat} (hlow : 4 * place ≤ k) (hhigh : k < 4 * (place + 1)) : m.testBit k = n.testBit k := by
  have hsplit (x : Nat) : x.testBit k = ((x >>> (4 * place)) % 2 ^ 4).testBit (k - 4 * place) := by
    rw [Nat.testBit_mod_two_pow, Nat.testBit_shiftRight, Nat.add_sub_cancel' hlow,
      decide_eq_true (show k - 4 * place < 4 by omega), Bool.true_and]
  rw [hsplit m, hsplit n]
  exact congrArg (Nat.testBit · (k - 4 * place)) h

/-- Digits show the bits of their places. -/
theorem testBit_of_hexDigits_eq {m n low count : Nat}
    (h : hexDigits m low count = hexDigits n low count) {k : Nat} (hlow : 4 * low ≤ k)
    (hhigh : k < 4 * (low + count)) : m.testBit k = n.testBit k := by
  induction count with
  | zero => omega
  | succ count ih =>
    rw [hexDigits, hexDigits, List.cons.injEq] at h
    obtain ⟨hfirst, hrest⟩ := h
    by_cases hk : k < 4 * (low + count)
    · exact ih hrest hk
    · have hdigit := Text.hexDigit_inj (Nat.mod_lt _ (by decide)) (Nat.mod_lt _ (by decide)) hfirst
      exact testBit_of_digit_eq hdigit (by omega) (by omega)

theorem length_text (u : Uuid) : u.text.length = 36 := by
  simp [text]

/-- The parts of a text that vary: the three numbers into which the bits are cut. -/
theorem parts_of_text_eq {u v : Uuid} (h : u.text = v.text) :
    hexDigits (u.bits >>> 74) 4 8 = hexDigits (v.bits >>> 74) 4 8 ∧
      hexDigits (u.bits >>> 74) 0 4 = hexDigits (v.bits >>> 74) 0 4 ∧
      hexDigits ((u.bits >>> 62) % (1 <<< 12)) 0 3 = hexDigits ((v.bits >>> 62) % (1 <<< 12)) 0 3 ∧
      Text.hexDigit (8 + (u.bits % (1 <<< 62)) >>> 60) =
        Text.hexDigit (8 + (v.bits % (1 <<< 62)) >>> 60) ∧
      hexDigits (u.bits % (1 <<< 62)) 12 3 = hexDigits (v.bits % (1 <<< 62)) 12 3 ∧
      hexDigits (u.bits % (1 <<< 62)) 0 12 = hexDigits (v.bits % (1 <<< 62)) 0 12 := by
  simp only [text, List.append_assoc, List.cons_append] at h
  obtain ⟨h₁, h⟩ := List.append_inj h (by simp)
  obtain ⟨h₂, h⟩ := List.append_inj (List.cons.inj h).2 (by simp)
  obtain ⟨h₃, h⟩ := List.append_inj (List.cons.inj (List.cons.inj h).2).2 (by simp)
  obtain ⟨h₄, h⟩ := List.cons.inj (List.cons.inj h).2
  obtain ⟨h₅, h⟩ := List.append_inj h (by simp)
  exact ⟨h₁, h₂, h₃, h₄, h₅, (List.cons.inj h).2⟩

theorem testBit_low {width k : Nat} (h : k < width) (n : Nat) :
    (n % (1 <<< width)).testBit k = n.testBit k := by
  rw [Nat.shiftLeft_eq, Nat.one_mul, Nat.testBit_mod_two_pow, decide_eq_true h, Bool.true_and]

/-- Two bits stand in the digit that begins the fourth group. -/
theorem top_lt (n : Nat) : (n % (1 <<< 62)) >>> 60 < 4 := by
  rw [Nat.shiftRight_eq_div_pow, Nat.div_lt_iff_lt_mul (by decide)]
  exact Nat.mod_lt n (by decide)

theorem testBit_of_text_eq {u v : Uuid} (h : u.text = v.text) {k : Nat} (hk : k < 122) :
    u.bits.testBit k = v.bits.testBit k := by
  obtain ⟨h₁, h₂, h₃, h₄, h₅, h₆⟩ := parts_of_text_eq h
  by_cases htail : k < 62
  · rw [← testBit_low htail u.bits, ← testBit_low htail v.bits]
    by_cases hlow : k < 48
    · exact testBit_of_hexDigits_eq h₆ (by omega) (by omega)
    · by_cases hmid : k < 60
      · exact testBit_of_hexDigits_eq h₅ (by omega) (by omega)
      · have hu := top_lt u.bits
        have hv := top_lt v.bits
        have hdigit := Text.hexDigit_inj (by omega) (by omega) h₄
        have htop : (u.bits % (1 <<< 62)) >>> 60 = (v.bits % (1 <<< 62)) >>> 60 := by omega
        have hbit := congrArg (Nat.testBit · (k - 60)) htop
        simpa only [Nat.testBit_shiftRight, Nat.add_sub_cancel' (show 60 ≤ k by omega)] using hbit
  · by_cases hmiddle : k < 74
    · have hbit : _ = Nat.testBit _ (k - 62) :=
        testBit_of_hexDigits_eq h₃ (Nat.zero_le _) (by omega)
      have hplace : k - 62 < 12 := by omega
      rwa [testBit_low hplace, testBit_low hplace, Nat.testBit_shiftRight, Nat.testBit_shiftRight,
        Nat.add_sub_cancel' (show 62 ≤ k by omega)] at hbit
    · have hbit : (u.bits >>> 74).testBit (k - 74) = (v.bits >>> 74).testBit (k - 74) := by
        by_cases hlow : k - 74 < 16
        · exact testBit_of_hexDigits_eq h₂ (by omega) (by omega)
        · exact testBit_of_hexDigits_eq h₁ (by omega) (by omega)
      rwa [Nat.testBit_shiftRight, Nat.testBit_shiftRight,
        Nat.add_sub_cancel' (show 74 ≤ k by omega)] at hbit

theorem testBit_of_le (u : Uuid) {k : Nat} (hk : 122 ≤ k) : u.bits.testBit k = false := by
  have hbound := u.bits_lt
  rw [Nat.shiftLeft_eq, Nat.one_mul] at hbound
  exact Nat.testBit_lt_two_pow (Nat.lt_of_lt_of_le hbound (Nat.pow_le_pow_right (by decide) hk))

/-- An identifier can be read from its text. -/
theorem text_inj {u v : Uuid} (h : u.text = v.text) : u = v := by
  have hbits : u.bits = v.bits := by
    refine Nat.eq_of_testBit_eq fun k => ?_
    by_cases hk : k < 122
    · exact testBit_of_text_eq h hk
    · rw [testBit_of_le u (by omega), testBit_of_le v (by omega)]
  cases u
  cases v
  rwa [Uuid.mk.injEq]

end Uuid

namespace KeyNamer

/-- A key with a unique suffix ends in an identifier, a point and the extension. -/
theorem key_eq {namer : KeyNamer} (hunique : namer.uniqueSuffix = true) (now : Instant)
    (id : Uuid) :
    namer.key now id = String.ofList ((namer.directoryPart now ++ namer.name.render now ++
      '-' :: Text.paddedInt 1 now.milliseconds ++ ['-']) ++
        (id.text ++ '.' :: namer.extension.toList)) := by
  simp [key, fileName, suffix, hunique]

/-- Keys with unique suffixes are equal only if their identifiers are, whatever the
templates are rendered to. -/
theorem id_eq_of_key_eq {namer : KeyNamer} (hunique : namer.uniqueSuffix = true)
    {now now' : Instant} {id id' : Uuid} (h : namer.key now id = namer.key now' id') :
    id = id' := by
  rw [key_eq hunique, key_eq hunique, String.ofList_inj] at h
  -- What stands before an identifier may have any length, so the key is cut from the right.
  have hlength : (id.text ++ '.' :: namer.extension.toList).length =
      (id'.text ++ '.' :: namer.extension.toList).length := by
    rw [List.length_append, List.length_append, Uuid.length_text, Uuid.length_text]
  have hright := (List.append_inj' h hlength).2
  exact Uuid.text_inj (List.append_inj' hright rfl).1

end KeyNamer

end Naming

end RecordArchive
