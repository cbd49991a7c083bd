import Mathlib.Algebra.BigOperators.Group.Finset.Basic
import Mathlib.Algebra.Order.BigOperators.Group.Finset
import RecordArchive.Proofs.Retrier.Pauses
import RecordArchive.Proofs.Retrier.Timeline

/-!
# The budget of a loop of attempts

A loop that is not cancelled tries until the first success or until its budget is used up, and
rests after every attempt but the last.  A pause is the delay, lengthened by at most the part
of it that the jitter allows.  The main statement is `attempts_and_pauses`, which also says how
long the whole takes.
-/

namespace RecordArchive

namespace Retrier

variable {σ : Type}

/-! ## Attempts -/

/-- The `n`-th attempt is the last that a budget allows: all before it failed, and it succeeds
or uses the budget up. -/
structure EndsAt (operation : σ → Attempt σ) (s : σ) (budget n : Nat) : Prop where
  lt : n < budget
  failures : ∀ i < n, ∃ e, (attemptAt operation s i).outcome = .error e
  done : (attemptAt operation s n).outcome = .ok () ∨ n + 1 = budget

/-- How a loop ends whose last attempt ended so. -/
def verdictOf : Except StoreError Unit → Verdict
  | .ok () => .succeeded
  | .error _ => .exhausted

theorem uploaded_verdictOf (outcome : Except StoreError Unit) (key : String) :
    ((verdictOf outcome).uploaded key = .ok true ↔ outcome = .ok ()) ∧
      ((verdictOf outcome).uploaded key = .ok false ↔ outcome ≠ .ok ()) := by
  cases outcome <;> simp [verdictOf, Verdict.uploaded]

section Attempts

variable {r : Retrier} {fractions : Fractions} {operation : σ → Attempt σ} {s : σ}
  {budget n : Nat}

theorem exists_endsAt (operation : σ → Attempt σ) (s : σ) (hbudget : 0 < budget) :
    ∃ n, EndsAt operation s budget n := by
  induction budget with
  | zero => exact absurd hbudget (Nat.lt_irrefl 0)
  | succ left ih =>
    by_cases hnone : left = 0
    · subst hnone
      exact ⟨0, Nat.one_pos, fun i hi => absurd hi (Nat.not_lt_zero i), Or.inr rfl⟩
    · obtain ⟨n, hlt, hfail, hdone⟩ := ih (Nat.pos_of_ne_zero hnone)
      cases hout : (attemptAt operation s n).outcome with
      | ok u => exact ⟨n, by omega, hfail, Or.inl hout⟩
      | error e =>
        -- The smaller budget was used up, and there is one attempt more.
        have hlast : n + 1 = left := by
          rcases hdone with hok | hlast
          · rw [hout] at hok
            cases hok
          · exact hlast
        refine ⟨left, Nat.lt_succ_self left, fun i hi => ?_, Or.inr rfl⟩
        rcases Nat.lt_or_ge i n with hi | hge
        · exact hfail i hi
        · obtain rfl : i = n := by omega
          exact ⟨e, hout⟩

theorem EndsAt.eq_of_success (h : EndsAt operation s budget n) {k : Nat}
    (hok : (attemptAt operation s k).outcome = .ok ())
    (hbefore : ∀ i < k, (attemptAt operation s i).outcome ≠ .ok ()) :
    n + 1 = min (k + 1) budget ∧
      ((attemptAt operation s n).outcome = .ok () ↔ k + 1 ≤ budget) := by
  have hle : n ≤ k := by
    by_contra hlt
    obtain ⟨e, he⟩ := h.failures k (Nat.lt_of_not_le hlt)
    rw [hok] at he
    cases he
  have hlt := h.lt
  by_cases hsuccess : (attemptAt operation s n).outcome = .ok ()
  · obtain rfl : n = k := by
      by_contra hne
      exact hbefore n (by omega) hsuccess
    exact ⟨by omega, iff_of_true hsuccess hlt⟩
  · have hlast := h.done.resolve_left hsuccess
    have hne : n ≠ k := fun heq => hsuccess (heq ▸ hok)
    exact ⟨by omega, iff_of_false hsuccess (by omega)⟩

theorem EndsAt.eq_of_failures (h : EndsAt operation s budget n)
    (hfail : ∀ i, (attemptAt operation s i).outcome ≠ .ok ()) : n + 1 = budget :=
  h.done.resolve_left (hfail n)

theorem going_of_free {p : Progress σ} (h : p.clock.cancelAt = none) (n : Nat) :
    p.Going r fractions operation n := by
  intro moment hmoment
  cases h.symm.trans hmoment

/-- A loop that comes to its last attempt ends with it. -/
theorem timed_whole {p : Progress σ} (h : EndsAt operation p.state budget n)
    (hgoing : p.Going r fractions operation n) :
    r.timed fractions operation budget p =
      (p.rounds r fractions operation n ++ [p.attemptSpan r fractions operation n],
        verdictOf (attemptAt operation p.state n).outcome, p.behind r fractions operation n) := by
  obtain ⟨left, rfl⟩ : ∃ left, budget = n + left + 1 := ⟨budget - n - 1, by have := h.lt; omega⟩
  rw [timed_of_failures hgoing h.failures]
  cases hout : (attemptAt operation p.state n).outcome with
  | ok u => rw [timed_of_success hgoing.isCancelled_eq hout]; rfl
  | error e =>
    have hlast : n + 1 = n + left + 1 := h.done.resolve_left (by rw [hout]; exact nofun)
    obtain rfl : left = 0 := by omega
    rw [timed_of_last hgoing.isCancelled_eq hout]
    rfl

theorem run_of_endsAt {clock : Clock} {drawn : Nat} (h : EndsAt operation s r.attempts n)
    (hfree : clock.cancelAt = none) :
    r.run fractions operation clock drawn s =
      (verdictOf (attemptAt operation s n).outcome,
        (⟨clock, drawn, 0, s⟩ : Progress σ).behind r fractions operation n) := by
  rw [run, ← timed_eq, timed_whole h (going_of_free hfree n)]

/-! ## Elapsed time -/

theorem nanoseconds_ending (p : Progress σ) (n : Nat) :
    (p.ending r fractions operation n).nanoseconds = p.clock.now.nanoseconds +
      ∑ i ∈ Finset.range (n + 1), (attemptAt operation p.state i).took.nanoseconds +
      ∑ i ∈ Finset.range n, (p.slept r fractions operation i).nanoseconds := by
  induction n with
  | zero => simp [Progress.ending, Progress.beginning, begins]
  | succ n ih =>
    rw [Progress.ending, ← ending_add_slept, Duration.nanoseconds_add, Duration.nanoseconds_add, ih]
    simp only [Finset.sum_range_succ]
    omega

end Attempts

/-- In a loop that is never cancelled the operation is invoked until it first succeeds, and no
more often than the budget says, which is at least once, unless a pause comes up that is too
long: then, and only then, the loop breaks down, and none is too long where the jitter does not
take the delay beyond the longest duration.

Between two attempts there is one pause and after the last there is none, so the loop takes as
long as its attempts and these pauses.  A pause is the delay, or, where the jitter is a positive
number, at least the delay and at most that much longer.  It is over at the first whole
millisecond that is not before its end.  So it may take longer by less than a millisecond, and
takes exactly what it should where that end is a whole millisecond. -/
theorem attempts_and_pauses (budget : Nat) (delay : Duration) (jitter : Binary64)
    (fractions : Fractions) (operation : σ → Attempt σ) (start : Duration) (drawn : Nat) (s : σ)
    (key : String) :
    let r := make budget delay jitter
    let p : Progress σ := ⟨{ now := start }, drawn, 0, s⟩
    let outcome (i : Nat) := (attemptAt operation s i).outcome
    let took (i : Nat) := (attemptAt operation s i).took
    let pause (i : Nat) := r.pauseAt fractions drawn i
    let slept (i : Nat) := p.slept r fractions operation i
    let tooLong (i : Nat) := r.pauseFor? (fractions.parts (drawn + i)) = none
    let ended := r.run fractions operation { now := start } drawn s
    let ended? := r.run? fractions operation { now := start } drawn s
    let answer := ended.1.uploaded key
    ((∀ i, i + 1 < ended.2.tries → ¬tooLong i) → ended? = some ended) ∧
    ((∃ i, i + 1 < ended.2.tries ∧ tooLong i) → ended? = none) ∧
    ((∀ x, jitter.value? = some x → 0 < x →
      (delay.nanoseconds : ℚ) + x * delay.nanoseconds ≤ Duration.longest.nanoseconds) →
      ∀ i, ¬tooLong i) ∧
    (∀ k, outcome k = .ok () → (∀ i < k, outcome i ≠ .ok ()) →
      ended.2.tries = min (k + 1) (max 1 budget) ∧
      (answer = .ok true ↔ k + 1 ≤ max 1 budget) ∧
      (answer = .ok false ↔ max 1 budget < k + 1)) ∧
    ((∀ i, outcome i ≠ .ok ()) → ended.2.tries = max 1 budget ∧ answer = .ok false) ∧
    (∃ n, ended.2.tries = n + 1 ∧ ended.2.state = stateBefore operation s (n + 1) ∧
      r.timed fractions operation r.attempts p =
        (p.rounds r fractions operation n ++ [p.attemptSpan r fractions operation n], ended) ∧
      ended.2.clock.now.nanoseconds = start.nanoseconds +
        ∑ i ∈ Finset.range (n + 1), (took i).nanoseconds +
        ∑ i ∈ Finset.range n, (slept i).nanoseconds) ∧
    (∀ i, pause i ≤ slept i ∧ slept i < pause i + .ofMilliseconds 1 ∧
      ((p.ending r fractions operation i + pause i).Whole → slept i = pause i)) ∧
    ((∀ x, jitter.value? = some x → x ≤ 0) → ∀ i, pause i = delay ∧
      (start.Whole → delay.Whole → (∀ j, (took j).Whole) → slept i = delay)) ∧
    (∀ x, jitter.value? = some x → 0 < x → ∀ i, delay ≤ pause i ∧
      ((pause i).nanoseconds : ℚ) ≤ delay.nanoseconds + x * delay.nanoseconds) := by
  intro r p outcome took pause slept tooLong ended ended? answer
  obtain ⟨n, hends⟩ := exists_endsAt operation s r.attempts_pos
  have hwhole : r.timed fractions operation r.attempts p =
      (p.rounds r fractions operation n ++ [p.attemptSpan r fractions operation n],
        verdictOf (outcome n), p.behind r fractions operation n) :=
    timed_whole hends (going_of_free rfl n)
  have hended : ended = (verdictOf (outcome n), p.behind r fractions operation n) :=
    run_of_endsAt hends rfl
  have htries : ended.2.tries = n + 1 := by rw [hended]; exact congrArg (· + 1) (Nat.zero_add n)
  have hdrawn : ended.2.drawn = drawn + n := by rw [hended]; rfl
  have hchecked : r.Checked fractions drawn ended ended? := checked_loop r.attempts p
  have hanswer : answer = (verdictOf (outcome n)).uploaded key := by
    show ended.1.uploaded key = _
    rw [hended]
  obtain ⟨htrue, hfalse⟩ := uploaded_verdictOf (outcome n) key
  rw [← hanswer] at htrue hfalse
  have hplain (hx : ∀ x, jitter.value? = some x → x ≤ 0) (i : Nat) : pause i = delay :=
    pauseFor_of_no_jitter (jitter_of_not_positive hx budget delay) _
  refine ⟨fun hshort => hchecked.whole fun i hfirst hlast => ?_, fun hlong =>
    hchecked.broken fun htold => ?_, fun hfits i => ?_, fun k hok hbefore => ?_, fun hfail => ?_,
    ⟨n, htries, ?_, ?_, ?_⟩, fun i => ?_, fun hx i => ⟨hplain hx i, fun hstart hdelay htook => ?_⟩,
    fun x hx hpos i => ⟨delay_le_pauseFor r _, ?_⟩⟩
  · obtain ⟨i, rfl⟩ := Nat.exists_eq_add_of_le hfirst
    exact hshort i (by omega)
  · obtain ⟨i, hi, hnone⟩ := hlong
    exact htold (drawn + i) (Nat.le_add_right drawn i) (by omega) hnone
  · exact pauseFor?_ne_none hfits budget (fractions.parts_le _)
  · obtain ⟨hcount, hsuccess⟩ := hends.eq_of_success hok hbefore
    refine ⟨htries.trans hcount, htrue.trans hsuccess, hfalse.trans ?_⟩
    exact (not_congr hsuccess).trans Nat.not_le
  · exact ⟨htries.trans (hends.eq_of_failures hfail), hfalse.mpr (hfail n)⟩
  · rw [hended]
    rfl
  · rw [hended, hwhole]
  · rw [hended]
    exact nanoseconds_ending p n
  · obtain ⟨hleast, hmost⟩ := @slept_within _ r fractions operation p i
    exact ⟨hleast, hmost, slept_of_whole⟩
  · have hpause : (pause i).Whole := by rw [hplain hx]; exact hdelay
    exact (slept_of_whole ((whole_ending hstart htook i).add hpause)).trans (hplain hx i)
  · exact pauseFor_le (jitter_of_positive hx hpos budget delay) hpos.le (fractions.parts_le _)

/-- An operation whose attempts are laid down beforehand.  Its state counts them. -/
def scripted (script : Nat → Except StoreError Unit × Duration) (n : Nat) : Attempt Nat :=
  ⟨(script n).1, n + 1, (script n).2⟩

theorem attemptAt_scripted (script : Nat → Except StoreError Unit × Duration) (n : Nat) :
    attemptAt (scripted script) 0 n = ⟨(script n).1, n + 1, (script n).2⟩ := by
  have hstate : stateBefore (scripted script) 0 n = n := by
    induction n with
    | zero => rfl
    | succ n ih => rw [stateBefore, ih, scripted]
  rw [attemptAt, hstate, scripted]

/-- The third attempt succeeds: three milliseconds of attempts and two pauses of ten. -/
theorem attempts_and_pauses_third_time :
    let script (n : Nat) : Except StoreError Unit × Duration :=
      (if n < 2 then .error (.client "connection reset") else .ok (), .ofMilliseconds 1)
    let ended := (make 5 (.ofMilliseconds 10) .nan).run .zero (scripted script) {} 0 0
    ended.2.tries = 3 ∧ ended.1.uploaded "k" = .ok true ∧
      ended.2.clock.now = .ofMilliseconds 23 := by
  intro script ended
  obtain ⟨-, -, -, hfirst, -, ⟨n, htries, -, -, hnow⟩, -, hpause, -⟩ :=
    attempts_and_pauses 5 (.ofMilliseconds 10) .nan .zero (scripted script) .zero 0 0 "k"
  have houtcome : ∀ i, (attemptAt (scripted script) 0 i).outcome = (script i).1 :=
    fun i => congrArg Attempt.outcome (attemptAt_scripted script i)
  have hbefore : ∀ i < 2, (attemptAt (scripted script) 0 i).outcome ≠ .ok () := by
    intro i hi
    rw [houtcome]
    simp [script, hi]
  obtain ⟨hcount, hanswer, -⟩ := hfirst 2 (houtcome 2) hbefore
  refine ⟨hcount, hanswer.mpr (by decide), ?_⟩
  obtain rfl : n = 2 := Nat.succ.inj (htries.symm.trans hcount)
  have htook (i : Nat) : (attemptAt (scripted script) 0 i).took.Whole := by
    rw [attemptAt_scripted]
    exact Duration.whole_ofMilliseconds 1
  have hslept (i : Nat) := (hpause (fun x hx => nomatch hx) i).2 (by decide)
    (Duration.whole_ofMilliseconds 10) htook
  simp only [attemptAt_scripted, hslept, script, Finset.sum_const, Finset.card_range] at hnow
  exact congrArg Duration.mk hnow

/-- Half of a jitter of 10^300 takes a delay of five seconds beyond the longest duration, and
the loop breaks down after the first of its two attempts.  A pause of a tenth of a millisecond
takes a whole one. -/
theorem attempts_and_pauses_out_of_range :
    let failing (_ : Nat) : Except StoreError Unit × Duration :=
      (.error (.transient "503"), .zero)
    let huge : Binary64 := Binary64.ofDecimal false 1 300
    (make 2 (.ofSeconds 5) huge).run? .half (scripted failing) {} 0 0 = none ∧
      (((make 2 (.ofMicroseconds 100) (.zero false)).run? .half (scripted failing) {} 0 0).map
        fun ended => (ended.1.uploaded "k", ended.2.tries, ended.2.clock.now)) =
          some (.ok false, 2, .ofMilliseconds 1) := by
  decide +kernel

end Retrier

end RecordArchive
