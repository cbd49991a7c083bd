import Mathlib.Algebra.Order.Field.Basic
import Mathlib.Algebra.Order.Field.Power
import Mathlib.Data.Nat.Cast.Order.Field
import Mathlib.Data.Rat.Cast.Order
import Mathlib.Tactic.FieldSimp
import Mathlib.Tactic.GCongr
import Mathlib.Tactic.Positivity
import Mathlib.Tactic.Ring
import RecordArchive.Retrier

/-!
# Pauses between attempts

A pause is the delay, lengthened by at most the part of it that the jitter allows.  Where that
is more than the longest duration the loop breaks down, and `checked_loop` says when: exactly
if one of the pauses that come up is too long.  With a jitter of at most the whole delay no
delay that is set in milliseconds leads there.
-/

namespace RecordArchive

/-- The number that a finite binary number is. -/
def Binary64.value? : Binary64 → Option ℚ
  | finite negative mantissa exponent =>
    some ((if negative then -(mantissa : ℚ) else mantissa) * 2 ^ exponent)
  | infinite _ | nan => none

theorem Binary64.isPositiveFinite_iff (x : Binary64) :
    x.isPositiveFinite = true ↔ ∃ value, x.value? = some value ∧ 0 < value := by
  cases x with
  | infinite negative => simp [isPositiveFinite, value?]
  | nan => simp [isPositiveFinite, value?]
  | finite negative mantissa exponent =>
    have hpower : (0 : ℚ) < 2 ^ exponent := zpow_pos (by norm_num) exponent
    have hmantissa : (0 : ℚ) ≤ mantissa := Nat.cast_nonneg mantissa
    simp only [value?, Option.some.injEq, exists_eq_left', mul_pos_iff_of_pos_right hpower]
    cases negative with
    | true =>
      have hnot : ¬ (0 : ℚ) < -mantissa := not_lt.mpr (neg_nonpos.mpr hmantissa)
      simp [isPositiveFinite, hnot]
    | false => simp [isPositiveFinite, Nat.pos_iff_ne_zero]

theorem Binary64.value?_le_one {x : Binary64} (h : x.inUnitInterval = true) :
    ∃ value, x.value? = some value ∧ value ≤ 1 := by
  cases x with
  | infinite | nan => cases h
  | finite negative mantissa exponent =>
    refine ⟨_, rfl, ?_⟩
    cases negative with
    | true =>
      obtain rfl : mantissa = 0 := beq_iff_eq.mp h
      simp
    | false =>
      simp only [inUnitInterval, Bool.false_eq_true, if_false, Nat.shiftLeft_eq, one_mul] at h ⊢
      by_cases hexponent : 0 ≤ exponent
      · rw [if_pos hexponent, decide_eq_true_eq] at h
        rw [← Int.toNat_of_nonneg hexponent, zpow_natCast]
        exact_mod_cast h
      · rw [if_neg hexponent, decide_eq_true_eq] at h
        obtain ⟨places, rfl⟩ : ∃ places : ℕ, exponent = -places := ⟨(-exponent).toNat, by omega⟩
        rw [neg_neg, Int.toNat_natCast] at h
        rw [zpow_neg, zpow_natCast, ← div_eq_mul_inv, div_le_one (by positivity)]
        exact_mod_cast h

namespace Retrier

variable {σ : Type}

/-! ## Pauses -/

theorem jitter_of_positive {jitter : Binary64} {x : ℚ} (hx : jitter.value? = some x) (hpos : 0 < x)
    (budget : Nat) (delay : Duration) : (make budget delay jitter).jitter.value? = some x := by
  rw [make, jitter.isPositiveFinite_iff.mpr ⟨x, hx, hpos⟩]
  exact hx

theorem jitter_of_not_positive {jitter : Binary64} (h : ∀ x, jitter.value? = some x → x ≤ 0)
    (budget : Nat) (delay : Duration) : (make budget delay jitter).jitter = .zero false := by
  have hnot : jitter.isPositiveFinite = false := by
    rw [Bool.eq_false_iff, ne_eq, jitter.isPositiveFinite_iff]
    rintro ⟨x, hx, hpos⟩
    exact absurd hpos (not_lt.mpr (h x hx))
  rw [make, hnot]
  rfl

theorem pauseFor_of_no_jitter {r : Retrier} (h : r.jitter = .zero false) (parts : Nat) :
    r.pauseFor parts = r.delay := by
  unfold pauseFor Binary64.zero at *
  simp only [h, Nat.mul_zero, Nat.zero_mul, Nat.zero_shiftLeft, Nat.zero_shiftRight, Nat.add_zero]

theorem delay_le_pauseFor (r : Retrier) (parts : Nat) : r.delay ≤ r.pauseFor parts := by
  unfold pauseFor
  split
  · exact Nat.le_add_right _ _
  · exact Nat.le_refl _

/-- The extra part of a pause is at most the jitter times the delay. -/
theorem pauseFor_le {r : Retrier} {x : ℚ} (hx : r.jitter.value? = some x) (hpos : 0 ≤ x)
    {parts : Nat} (hparts : parts ≤ 1 <<< 53) :
    ((r.pauseFor parts).nanoseconds : ℚ) ≤ r.delay.nanoseconds + x * r.delay.nanoseconds := by
  have hdelay : (0 : ℚ) ≤ r.delay.nanoseconds := Nat.cast_nonneg _
  unfold pauseFor
  split
  · rename_i mantissa exponent hjitter
    rw [hjitter] at hx
    obtain rfl : (mantissa : ℚ) * 2 ^ exponent = x := Option.some.inj hx
    simp only [Nat.shiftRight_eq_div_pow, Nat.shiftLeft_eq]
    rw [Nat.cast_add]
    have hfloor := Nat.cast_div_le (α := ℚ)
      (m := r.delay.nanoseconds * mantissa * parts * 2 ^ exponent.toNat)
      (n := 2 ^ (53 + (-exponent).toNat))
    have hexponent : (2 : ℚ) ^ exponent = 2 ^ exponent.toNat / 2 ^ (-exponent).toNat := by
      rw [← zpow_natCast, ← zpow_natCast, ← zpow_sub₀ (by norm_num)]
      congr 1
      omega
    have hwhole : ((parts : ℕ) : ℚ) ≤ 2 ^ 53 := by
      have hle : parts ≤ 2 ^ 53 := by simpa [Nat.shiftLeft_eq] using hparts
      exact_mod_cast hle
    refine add_le_add_right (hfloor.trans ?_) _
    push_cast
    rw [div_le_iff₀ (by positivity), hexponent, pow_add]
    calc (r.delay.nanoseconds : ℚ) * mantissa * parts * 2 ^ exponent.toNat
        ≤ r.delay.nanoseconds * mantissa * 2 ^ 53 * 2 ^ exponent.toNat := by gcongr
      _ = mantissa * (2 ^ exponent.toNat / 2 ^ (-exponent).toNat) * r.delay.nanoseconds *
          (2 ^ 53 * 2 ^ (-exponent).toNat) := by field_simp
  · exact le_add_of_nonneg_right (mul_nonneg hpos hdelay)

/-! ## Pauses that are too long -/

theorem pauseFor_of_no_delay {r : Retrier} (h : r.delay.isZero = true) (parts : Nat) :
    r.pauseFor parts = r.delay := by
  have hzero : r.delay.nanoseconds = 0 := beq_iff_eq.mp h
  unfold pauseFor
  split
  · apply congrArg Duration.mk
    simp only [hzero, Nat.zero_mul, Nat.zero_shiftLeft, Nat.zero_shiftRight]
  · rfl

/-- A pause that can be worked out is the pause. -/
theorem eq_pauseFor {r : Retrier} {parts : Nat} {d : Duration} (h : r.pauseFor? parts = some d) :
    d = r.pauseFor parts := by
  unfold pauseFor? at h
  by_cases hfixed : r.jitter = .zero false ∨ r.delay.isZero
  · rw [if_pos hfixed] at h
    rcases hfixed with hjitter | hdelay
    · rw [pauseFor_of_no_jitter hjitter, Option.some.inj h]
    · rw [pauseFor_of_no_delay hdelay, Option.some.inj h]
  · rw [if_neg hfixed] at h
    by_cases hlong : r.pauseFor parts ≤ .longest
    · rw [if_pos hlong] at h
      exact (Option.some.inj h).symm
    · rw [if_neg hlong] at h
      cases h

/-- No pause is too long where the jitter does not take the delay beyond the longest
duration. -/
theorem pauseFor?_ne_none {delay : Duration} {jitter : Binary64}
    (h : ∀ x, jitter.value? = some x → 0 < x →
      (delay.nanoseconds : ℚ) + x * delay.nanoseconds ≤ Duration.longest.nanoseconds)
    (budget : Nat) {parts : Nat} (hparts : parts ≤ 1 <<< 53) :
    (make budget delay jitter).pauseFor? parts ≠ none := by
  unfold pauseFor?
  by_cases hfixed : (make budget delay jitter).jitter = .zero false ∨
      (make budget delay jitter).delay.isZero
  · rw [if_pos hfixed]
    exact Option.some_ne_none _
  · have hpositive : jitter.isPositiveFinite = true := by
      by_contra hnot
      exact hfixed (Or.inl (by rw [make, if_neg hnot]))
    obtain ⟨x, hx, hpos⟩ := jitter.isPositiveFinite_iff.mp hpositive
    have hmost := pauseFor_le (jitter_of_positive hx hpos budget delay) hpos.le hparts
    have hlong : (make budget delay jitter).pauseFor parts ≤ .longest := by
      rw [Duration.le_def]
      exact_mod_cast hmost.trans (h x hx hpos)
    rw [if_neg hfixed, if_pos hlong]
    exact Option.some_ne_none _

/-- A jitter that passes the checks at most doubles a pause, which is far from the longest
duration where the delay is a number of milliseconds of 64 bits. -/
theorem pauseFor?_ne_none_of_inUnitInterval {jitter : Binary64}
    (h : jitter.inUnitInterval = true) {milliseconds : Nat} (hdelay : milliseconds < 2 ^ 64)
    (budget : Nat) {parts : Nat} (hparts : parts ≤ 1 <<< 53) :
    (make budget (.ofMilliseconds milliseconds) jitter).pauseFor? parts ≠ none := by
  apply pauseFor?_ne_none _ budget hparts
  intro x hx hpos
  obtain ⟨y, hy, hle⟩ := Binary64.value?_le_one h
  obtain rfl : y = x := Option.some.inj (hy.symm.trans hx)
  have hdouble : milliseconds * 1000000 + milliseconds * 1000000 ≤
      Duration.longest.nanoseconds := by
    show _ ≤ 2 ^ 64 * 1000000000 - 1
    omega
  calc ((milliseconds * 1000000 : ℕ) : ℚ) + y * (milliseconds * 1000000 : ℕ)
      ≤ (milliseconds * 1000000 : ℕ) + (milliseconds * 1000000 : ℕ) :=
        add_le_add_right (mul_le_of_le_one_left (Nat.cast_nonneg _) hle) _
    _ ≤ (Duration.longest.nanoseconds : ℚ) := by exact_mod_cast hdouble

/-! ## Loops that break down -/

section Loops

variable {r : Retrier} {fractions : Fractions} {operation : σ → Attempt σ} {p : Progress σ}

/-- None of the pauses for which a loop draws the fractions from `first` up to `last` is too
long. -/
def Told (r : Retrier) (fractions : Fractions) (first last : Nat) : Prop :=
  ∀ i, first ≤ i → i < last → r.pauseFor? (fractions.parts i) ≠ none

theorem told_self (n : Nat) : r.Told fractions n n :=
  fun _ hfirst hlast => absurd hlast (Nat.not_lt.mpr hfirst)

theorem told_succ_iff {first last : Nat} (h : r.pauseFor? (fractions.parts first) ≠ none) :
    r.Told fractions first last ↔ r.Told fractions (first + 1) last := by
  constructor
  · intro htold i hi
    exact htold i (Nat.le_of_succ_le hi)
  · intro htold i hi hlast
    rcases Nat.eq_or_lt_of_le hi with rfl | hlater
    · exact h
    · exact htold i hlater hlast

/-- The rest of a loop that has drawn `n` fractions: it breaks down exactly if one of the pauses
to come is too long. -/
structure Checked (r : Retrier) (fractions : Fractions) (n : Nat) (looped : Verdict × Progress σ)
    (looped? : Option (Verdict × Progress σ)) : Prop where
  drawn_le : n ≤ looped.2.drawn
  whole : r.Told fractions n looped.2.drawn → looped? = some looped
  broken : ¬r.Told fractions n looped.2.drawn → looped? = none

theorem checked_of_no_pause (verdict : Verdict) (p : Progress σ) :
    r.Checked fractions p.drawn (verdict, p) (some (verdict, p)) where
  drawn_le := Nat.le_refl _
  whole _ := rfl
  broken hnot := absurd (told_self _) hnot

theorem Checked.of_pause {n : Nat} {looped : Verdict × Progress σ}
    {looped? later? : Option (Verdict × Progress σ)}
    (h : r.Checked fractions (n + 1) looped later?)
    (hpause : looped? = (r.pauseFor? (fractions.parts n)).bind fun _ => later?) :
    r.Checked fractions n looped looped? := by
  subst hpause
  cases hpause : r.pauseFor? (fractions.parts n) with
  | none =>
    refine ⟨Nat.le_of_succ_le h.drawn_le, fun htold => ?_, fun _ => rfl⟩
    exact absurd hpause (htold n (Nat.le_refl n) h.drawn_le)
  | some d =>
    have hnext : r.Told fractions n looped.2.drawn ↔ r.Told fractions (n + 1) looped.2.drawn :=
      told_succ_iff (hpause.trans_ne (Option.some_ne_none d))
    exact ⟨Nat.le_of_succ_le h.drawn_le, fun htold => h.whole (hnext.mp htold),
      fun hnot => h.broken (mt hnext.mpr hnot)⟩

theorem rest?_eq (p : Progress σ) : p.rest? r fractions =
    (r.pauseFor? (fractions.parts p.drawn)).bind fun _ => some (p.rest r fractions) := by
  rw [Progress.rest?, Progress.rest]
  cases hpause : r.pauseFor? (fractions.parts p.drawn) with
  | none => rfl
  | some d => rw [eq_pauseFor hpause]; rfl

theorem checked_loop (budget : Nat) (p : Progress σ) :
    r.Checked fractions p.drawn (r.loop fractions operation budget p)
      (r.loop? fractions operation budget p) := by
  induction budget generalizing p with
  | zero => exact checked_of_no_pause ..
  | succ left ih =>
    unfold loop loop?
    by_cases hcancelled : p.clock.isCancelled = true
    · rw [if_pos hcancelled, if_pos hcancelled]
      exact checked_of_no_pause ..
    · rw [if_neg hcancelled, if_neg hcancelled]
      have hdrawn : (p.attemptOnce operation).2.drawn = p.drawn := rfl
      rw [← hdrawn]
      cases p.attemptOnce operation with
      | mk outcome q =>
        cases outcome with
        | ok u => exact checked_of_no_pause ..
        | error e =>
          by_cases hlast : left = 0
          · simp only [if_pos hlast]
            exact checked_of_no_pause ..
          · simp only [if_neg hlast, rest?_eq]
            have hnext : (q.rest r fractions).2.drawn = q.drawn + 1 := rfl
            generalize q.rest r fractions = rested at hnext ⊢
            obtain ⟨cut, q'⟩ := rested
            -- Either way the loop goes on from the next fraction.
            cases cut with
            | true =>
              have hcut : r.Checked fractions q'.drawn (.cancelled, q') (some (.cancelled, q')) :=
                checked_of_no_pause ..
              apply Checked.of_pause (hnext ▸ hcut)
              cases r.pauseFor? (fractions.parts q.drawn) <;> rfl
            | false =>
              apply Checked.of_pause (hnext ▸ ih q')
              cases r.pauseFor? (fractions.parts q.drawn) <;> rfl

end Loops

end Retrier

end RecordArchive
