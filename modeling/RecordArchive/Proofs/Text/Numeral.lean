import Mathlib.Data.List.Basic
import RecordArchive.Text.Numeral

/-!
# Numerals that are read again

The digits of a number spell it, and no numeral but that of zero begins with a zero:
`natOfDigits_digits` and `eq_zero_of_head_digits`.
-/

namespace RecordArchive.Text

theorem digits_of_lt {n : Nat} (h : n < 10) : digits n = [n.digitChar] :=
  Nat.toDigits_of_lt_base h

/-- The last digit comes off the end. -/
theorem digits_of_le {n : Nat} (h : 10 ≤ n) : digits n = digits (n / 10) ++ [(n % 10).digitChar] :=
  Nat.toDigits_of_base_le (by decide) h

theorem digits_ne_nil (n : Nat) : digits n ≠ [] := Nat.toDigits_ne_nil

theorem isDigit_of_mem_digits {n : Nat} {c : Char} (h : c ∈ digits n) : c.isDigit = true :=
  Nat.isDigit_of_mem_toDigits (by decide) (by decide) h

theorem digitValue?_digitChar {d : Nat} (h : d < 10) : digitValue? d.digitChar = some d := by
  have hall : ∀ d : Fin 10, digitValue? d.val.digitChar = some d.val := by decide
  exact hall ⟨d, h⟩

theorem natOfDigits_concat {d : Nat} (h : d < 10) (cs : List Char) :
    natOfDigits (cs ++ [d.digitChar]) = natOfDigits cs * 10 + d := by
  rw [natOfDigits, List.foldl_append, List.foldl_cons, List.foldl_nil, digitValue?_digitChar h]
  rfl

theorem natOfDigits_digits (n : Nat) : natOfDigits (digits n) = n := by
  induction n using Nat.strongRecOn with
  | ind n ih =>
    by_cases hsmall : n < 10
    · have hvalue := natOfDigits_concat hsmall []
      rw [digits_of_lt hsmall]
      rw [List.nil_append] at hvalue
      rw [hvalue]
      exact Nat.zero_add n
    · rw [digits_of_le (by omega), natOfDigits_concat (by omega), ih (n / 10) (by omega)]
      omega

theorem eq_zero_of_head_digits {n : Nat} (h : (digits n).head? = some '0') : n = 0 := by
  induction n using Nat.strongRecOn with
  | ind n ih =>
    by_cases hsmall : n < 10
    · rw [digits_of_lt hsmall, List.head?_cons, Option.some.injEq] at h
      exact Nat.digitChar_eq_zero.mp h
    · -- The first digit is that of the number without its last one.
      rw [digits_of_le (by omega), List.head?_append_of_ne_nil _ (digits_ne_nil _)] at h
      have htenth := ih (n / 10) (by omega) h
      omega

theorem padded_of_le {width : Nat} (h : width ≤ 1) (n : Nat) : padded width n = digits n := by
  have hlength : 0 < (digits n).length := List.length_pos_iff.mpr (digits_ne_nil n)
  have hnone : width - (digits n).length = 0 := by omega
  rw [padded, zeroFill, hnone]
  rfl

theorem padded_ne_nil (width n : Nat) : padded width n ≠ [] :=
  List.append_ne_nil_of_right_ne_nil _ (digits_ne_nil n)

theorem isDigit_of_mem_padded {width n : Nat} {c : Char} (h : c ∈ padded width n) :
    c.isDigit = true := by
  rcases List.mem_append.mp h with hzero | hdigit
  · rw [List.eq_of_mem_replicate hzero]
    rfl
  · exact isDigit_of_mem_digits hdigit

theorem paddedInt_ne_nil (width : Nat) (n : Int) : paddedInt width n ≠ [] := by
  unfold paddedInt
  split
  · exact List.cons_ne_nil _ _
  · exact padded_ne_nil _ _

theorem isDigit_or_of_mem_paddedInt {width : Nat} {n : Int} {c : Char}
    (h : c ∈ paddedInt width n) : c.isDigit = true ∨ c = '-' := by
  unfold paddedInt at h
  split at h
  · rcases List.mem_cons.mp h with hsign | hdigit
    · exact Or.inr hsign
    · exact Or.inl (isDigit_of_mem_padded hdigit)
  · exact Or.inl (isDigit_of_mem_padded h)

theorem hexValue?_hexDigit {d : Nat} (h : d < 16) : hexValue? (hexDigit d) = some d := by
  have hall : ∀ d : Fin 16, hexValue? (hexDigit d) = some d.val := by decide
  exact hall ⟨d, h⟩

end RecordArchive.Text
