import Mathlib.Data.List.Lex
import RecordArchive.Proofs.Text.Numeral
import RecordArchive.Proofs.Text.Search

/-!
# Texts in order

Texts are compared at the first place where they differ.  In UTF-8 it makes no difference whether
they are compared by characters or by bytes: `before_encodeChars`.  Numerals of one width are in
the order of their numbers: `before_padded`.
-/

namespace RecordArchive

/-- A text comes before another if it ends first, or has the smaller character, where they begin
to differ. -/
def Text.Before (cs ds : List Char) : Prop := List.Lex (fun c d => c.toNat < d.toNat) cs ds

/-- The same for bytes. -/
def Bytes.Before (xs ys : Bytes) : Prop := List.Lex (fun x y => x.toNat < y.toNat) xs ys

/-- What follows texts of one length does not matter if they differ. -/
theorem lex_append {α : Type} {r : α → α → Prop} {xs ys : List α} (h : List.Lex r xs ys)
    (hlength : xs.length = ys.length) (xs' ys' : List α) : List.Lex r (xs ++ xs') (ys ++ ys') := by
  induction h with
  | nil => cases hlength
  | rel hrel => exact .rel hrel
  | cons _ ih => exact .cons (ih (Nat.succ.inj hlength))

namespace Utf8

/-- Bytes in order are followed by bytes that matter only if they are the same. -/
theorem before_cons {m n : Nat} {xs ys : Bytes} (hm : m < 256) (hn : n < 256) (hle : m ≤ n)
    (h : m = n → Bytes.Before xs ys) :
    Bytes.Before (UInt8.ofNat m :: xs) (UInt8.ofNat n :: ys) := by
  rcases Nat.lt_or_eq_of_le hle with hlt | rfl
  · refine .rel ?_
    rwa [toNat_ofNat_of_lt hm, toNat_ofNat_of_lt hn]
  · exact .cons (h rfl)

/-- A character of more bytes begins with a greater byte, and of two with as many bytes the
greater one has the greater byte where they begin to differ. -/
theorem before_encodeChar {c d : Char} (h : c.toNat < d.toNat) (xs ys : Bytes) :
    Bytes.Before (encodeChar c ++ xs) (encodeChar d ++ ys) := by
  have hc := toNat_valid c
  have hd := toNat_valid d
  unfold encodeChar
  simp only
  generalize c.toNat = m at h hc ⊢
  generalize d.toNat = n at h hd ⊢
  by_cases hm₁ : m < 0x80
  · rw [if_pos hm₁]
    by_cases hn₁ : n < 0x80
    · rw [if_pos hn₁]
      exact before_cons (by omega) (by omega) (by omega) fun heq => absurd heq (by omega)
    rw [if_neg hn₁]
    by_cases hn₂ : n < 0x800
    · rw [if_pos hn₂]
      exact before_cons (by omega) (by omega) (by omega) fun heq => absurd heq (by omega)
    rw [if_neg hn₂]
    split <;> exact before_cons (by omega) (by omega) (by omega) fun heq => absurd heq (by omega)
  rw [if_neg hm₁, if_neg (show ¬ n < 0x80 by omega)]
  by_cases hm₂ : m < 0x800
  · rw [if_pos hm₂]
    by_cases hn₂ : n < 0x800
    · rw [if_pos hn₂]
      exact before_cons (by omega) (by omega) (by omega) fun h₁ =>
        before_cons (by omega) (by omega) (by omega) fun h₂ => absurd h₂ (by omega)
    rw [if_neg hn₂]
    split <;> exact before_cons (by omega) (by omega) (by omega) fun heq => absurd heq (by omega)
  rw [if_neg hm₂, if_neg (show ¬ n < 0x800 by omega)]
  by_cases hm₃ : m < 0x10000
  · rw [if_pos hm₃]
    by_cases hn₃ : n < 0x10000
    · rw [if_pos hn₃]
      exact before_cons (by omega) (by omega) (by omega) fun h₁ =>
        before_cons (by omega) (by omega) (by omega) fun h₂ =>
          before_cons (by omega) (by omega) (by omega) fun h₃ => absurd h₃ (by omega)
    rw [if_neg hn₃]
    exact before_cons (by omega) (by omega) (by omega) fun heq => absurd heq (by omega)
  rw [if_neg hm₃, if_neg (show ¬ n < 0x10000 by omega)]
  exact before_cons (by omega) (by omega) (by omega) fun h₁ =>
    before_cons (by omega) (by omega) (by omega) fun h₂ =>
      before_cons (by omega) (by omega) (by omega) fun h₃ =>
        before_cons (by omega) (by omega) (by omega) fun h₄ => absurd h₄ (by omega)

theorem before_encodeChars {cs ds : List Char} (h : Text.Before cs ds) :
    Bytes.Before (encodeChars cs) (encodeChars ds) := by
  induction h with
  | @nil c rest =>
    obtain ⟨first, more, hfirst⟩ := List.exists_cons_of_ne_nil (encodeChar_ne_nil c)
    rw [encodeChars, List.flatMap_nil, encodeChars, List.flatMap_cons, hfirst]
    exact .nil
  | rel hrel => exact before_encodeChar hrel _ _
  | cons _ ih => exact List.Lex.append_left _ ih _

end Utf8

namespace Text

theorem before_digitChar {d e : Nat} (h : d < e) (he : e < 10) :
    d.digitChar.toNat < e.digitChar.toNat := by
  have hall : ∀ d e : Fin 10, d < e → d.val.digitChar.toNat < e.val.digitChar.toNat := by decide
  exact hall ⟨d, Nat.lt_trans h he⟩ ⟨e, he⟩ h

/-- The last digit comes off the end of a numeral of more digits than one. -/
theorem padded_succ {width : Nat} (h : 0 < width) (n : Nat) :
    padded (width + 1) n = padded width (n / 10) ++ [(n % 10).digitChar] := by
  obtain ⟨width, rfl⟩ := Nat.exists_eq_add_one_of_ne_zero h.ne'
  by_cases hsmall : n < 10
  · have hzero : n / 10 = 0 := by omega
    have hself : n % 10 = n := by omega
    rw [hzero, hself, padded, padded, digits_of_lt hsmall, digits_of_lt (by decide)]
    simp only [zeroFill, List.length_singleton, Nat.add_sub_cancel]
    exact congrArg (· ++ [n.digitChar]) List.replicate_succ'
  · rw [padded, padded, digits_of_le (by omega)]
    simp [zeroFill]

/-- A numeral with enough digits of its own is not filled. -/
theorem padded_of_pow_le {width n : Nat} (h : Nat.pow 10 width ≤ n) :
    padded (width + 1) n = digits n := by
  induction width generalizing n with
  | zero => exact padded_of_le (Nat.le_refl 1) n
  | succ width ih =>
    have hbound : Nat.pow 10 width * 10 ≤ n := h
    have hpos : 0 < Nat.pow 10 width := Nat.pow_pos (by decide)
    rw [padded_succ (Nat.succ_pos width), ih (by omega), digits_of_le (show 10 ≤ n by omega)]

theorem length_padded {width n : Nat} (h : 0 < width) (hn : n < Nat.pow 10 width) :
    (padded width n).length = width := by
  induction width, h using Nat.le_induction generalizing n with
  | base =>
    rw [padded_of_le (Nat.le_refl 1), digits_of_lt hn]
    rfl
  | succ width hwidth ih =>
    have hbound : n < Nat.pow 10 width * 10 := hn
    rw [padded_succ hwidth, List.length_append, ih (by omega)]
    rfl

/-- Numerals of one width differ first at the greatest place where their numbers do. -/
theorem before_padded {width m n : Nat} (h : 0 < width) (hlt : m < n) (hn : n < Nat.pow 10 width) :
    Before (padded width m) (padded width n) := by
  induction width, h using Nat.le_induction generalizing m n with
  | base =>
    have hsmall : n < 10 := hn
    rw [padded_of_le (Nat.le_refl 1), padded_of_le (Nat.le_refl 1), digits_of_lt hsmall,
      digits_of_lt (Nat.lt_trans hlt hsmall)]
    exact .rel (before_digitChar hlt hsmall)
  | succ width hwidth ih =>
    have hbound : n < Nat.pow 10 width * 10 := hn
    rw [padded_succ hwidth, padded_succ hwidth]
    have hle : m / 10 ≤ n / 10 := Nat.div_le_div_right (Nat.le_of_lt hlt)
    rcases Nat.lt_or_eq_of_le hle with hfront | hfront
    · have hlength : (padded width (m / 10)).length = (padded width (n / 10)).length := by
        rw [length_padded hwidth (by omega), length_padded hwidth (by omega)]
      exact lex_append (ih hfront (by omega)) hlength _ _
    · have hlast : m % 10 < n % 10 := by omega
      have hdigit : Before [(m % 10).digitChar] [(n % 10).digitChar] :=
        .rel (before_digitChar hlast (Nat.mod_lt n (by decide)))
      rw [hfront]
      exact List.Lex.append_left _ hdigit _

end Text

/-! ## Comparisons -/

theorem Bytes.Before.asymm {xs ys : Bytes} (h : Before xs ys) : ¬ Before ys xs := by
  have hbytes : Std.Asymm fun x y : UInt8 => x.toNat < y.toNat := ⟨fun _ _ => Nat.lt_asymm⟩
  exact (List.Lex.asymm _).asymm xs ys h

theorem Bytes.Before.ne {xs ys : Bytes} (h : Before xs ys) : xs ≠ ys := by
  rintro rfl
  exact h.asymm h

end RecordArchive
