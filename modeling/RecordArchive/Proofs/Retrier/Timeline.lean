import RecordArchive.Retrier

/-!
# The timeline of a loop of attempts

A loop of attempts spends its time on attempts and on pauses.  `timed` is the loop that also
tells these spans, each with its start and its finish, and `timed_eq` says that it is no
other loop.  The main statement is `timed_of_failures`: where attempts fail and the moment of
cancellation has not come, an attempt begins when all attempts before it are over and each of
them has been followed by a whole pause.  What a pause really takes is `slept`: its timer goes
off on a whole millisecond, so that is never less than the pause and less than a millisecond
more.
-/

namespace RecordArchive

namespace Clock

theorem isCancelled_eq_false_iff {c : Clock} :
    c.isCancelled = false ↔ ∀ moment, c.cancelAt = some moment → c.now < moment := by
  unfold isCancelled
  cases c.cancelAt with
  | none => simp
  | some moment => simp [Duration.le_def, Duration.lt_def]

theorem pause_of_going {c : Clock} {d : Duration}
    (h : ∀ moment, c.cancelAt = some moment → (c.now + d).ceilMillisecond < moment) :
    c.pause d = (false, { c with now := (c.now + d).ceilMillisecond }) := by
  obtain ⟨now, cancelAt⟩ := c
  cases cancelAt with
  | none => rfl
  | some moment =>
    have hlater : (now + d).ceilMillisecond < moment := h moment rfl
    have hnot : ¬ moment ≤ (now + d).ceilMillisecond := Nat.not_le.mpr hlater
    simp only [pause, if_neg hnot]

/-- A pause is cut short at the moment of cancellation, or at once when that has passed. -/
theorem pause_of_cancelled {c : Clock} {d moment : Duration} (hcancel : c.cancelAt = some moment)
    (hsoon : moment ≤ (c.now + d).ceilMillisecond) :
    c.pause d = (true, { c with now := if moment ≤ c.now then c.now else moment }) := by
  obtain ⟨now, cancelAt⟩ := c
  obtain rfl : cancelAt = some moment := hcancel
  simp only [pause, if_pos hsoon]

end Clock

namespace Retrier

variable {σ : Type}

/-- What a loop of attempts spends its time on. -/
inductive Span
  | attempt (start finish : Duration) (outcome : Except StoreError Unit)
  | pause (start finish : Duration)

/-- The loop of attempts, with its spans, in order, before its answer. -/
def timed (r : Retrier) (fractions : Fractions) (operation : σ → Attempt σ) :
    Nat → Progress σ → List Span × Verdict × Progress σ
  | 0, p => ([], .exhausted, p)
  | left + 1, p =>
    if p.clock.isCancelled then ([], .cancelled, p)
    else
      let tried := p.attemptOnce operation
      let attempt := Span.attempt p.clock.now tried.2.clock.now tried.1
      match tried.1 with
      | .ok () => ([attempt], .succeeded, tried.2)
      | .error _ =>
        if left = 0 then ([attempt], .exhausted, tried.2)
        else
          let rested := tried.2.rest r fractions
          let pause := Span.pause tried.2.clock.now rested.2.clock.now
          if rested.1 then ([attempt, pause], .cancelled, rested.2)
          else
            let later := timed r fractions operation left rested.2
            (attempt :: pause :: later.1, later.2)

/-- What the operation works on in its `n`-th attempt, counted from zero. -/
def stateBefore (operation : σ → Attempt σ) (s : σ) : Nat → σ
  | 0 => s
  | n + 1 => (operation (stateBefore operation s n)).state

/-- The `n`-th attempt, counted from zero. -/
def attemptAt (operation : σ → Attempt σ) (s : σ) (n : Nat) : Attempt σ :=
  operation (stateBefore operation s n)

/-- When the `n`-th attempt begins, if each of those before took its time and was followed by
a pause, which ends on a whole millisecond. -/
def begins (start : Duration) (took pause : Nat → Duration) : Nat → Duration
  | 0 => start
  | n + 1 => (begins start took pause n + took n + pause n).ceilMillisecond

section Timeline

variable (r : Retrier) (fractions : Fractions) (operation : σ → Attempt σ) (p : Progress σ)

/-- The `n`-th pause of a loop, counted from zero. -/
def pauseAt (drawn n : Nat) : Duration := r.pauseFor (fractions.parts (drawn + n))

/-- When the `n`-th attempt of a loop begins. -/
def Progress.beginning (n : Nat) : Duration :=
  begins p.clock.now (fun i => (attemptAt operation p.state i).took) (r.pauseAt fractions p.drawn) n

/-- When the `n`-th attempt of a loop ends. -/
def Progress.ending (n : Nat) : Duration :=
  p.beginning r fractions operation n + (attemptAt operation p.state n).took

/-- What the `n`-th pause of a loop takes. -/
def Progress.slept (n : Nat) : Duration :=
  p.beginning r fractions operation (n + 1) - p.ending r fractions operation n

/-- The loop when its `n`-th attempt is about to begin. -/
def Progress.before (n : Nat) : Progress σ where
  clock := { p.clock with now := p.beginning r fractions operation n }
  drawn := p.drawn + n
  tries := p.tries + n
  state := stateBefore operation p.state n

/-- The loop when its `n`-th attempt has just ended. -/
def Progress.behind (n : Nat) : Progress σ where
  clock := { p.clock with now := p.ending r fractions operation n }
  drawn := p.drawn + n
  tries := p.tries + n + 1
  state := stateBefore operation p.state (n + 1)

/-- The span of the `n`-th attempt. -/
def Progress.attemptSpan (n : Nat) : Span :=
  .attempt (p.beginning r fractions operation n) (p.ending r fractions operation n)
    (attemptAt operation p.state n).outcome

/-- The spans of `n` attempts, each with a whole pause after it. -/
def Progress.rounds (n : Nat) : List Span :=
  (List.range n).flatMap fun i => [p.attemptSpan r fractions operation i,
    .pause (p.ending r fractions operation i) (p.beginning r fractions operation (i + 1))]

end Timeline

variable {r : Retrier} {fractions : Fractions} {operation : σ → Attempt σ} {p : Progress σ}

/-- Telling what a loop spends its time on changes nothing. -/
theorem timed_eq (budget : Nat) (p : Progress σ) :
    (r.timed fractions operation budget p).2 = r.loop fractions operation budget p := by
  induction budget generalizing p with
  | zero => rfl
  | succ left ih =>
    unfold timed loop
    by_cases hcancelled : p.clock.isCancelled = true
    · rw [if_pos hcancelled, if_pos hcancelled]
    · rw [if_neg hcancelled, if_neg hcancelled]
      cases p.attemptOnce operation with
      | mk outcome q =>
        cases outcome with
        | ok u => rfl
        | error e =>
          by_cases hlast : left = 0
          · simp only [if_pos hlast]
          · simp only [if_neg hlast]
            cases q.rest r fractions with
            | mk cut q' =>
              cases cut with
              | true => rfl
              | false => exact ih q'

/-! ## One attempt -/

theorem timed_of_cancelled (h : p.clock.isCancelled = true) (left : Nat) :
    r.timed fractions operation (left + 1) p = ([], .cancelled, p) := by
  rw [timed, if_pos h]

theorem attemptOnce_before (n : Nat) :
    (p.before r fractions operation n).attemptOnce operation =
      ((attemptAt operation p.state n).outcome, p.behind r fractions operation n) := rfl

variable {n : Nat}

theorem timed_of_success
    (hgoing : (p.before r fractions operation n).clock.isCancelled = false)
    (hok : (attemptAt operation p.state n).outcome = .ok ()) (left : Nat) :
    r.timed fractions operation (left + 1) (p.before r fractions operation n) =
      ([p.attemptSpan r fractions operation n], .succeeded, p.behind r fractions operation n) := by
  rw [timed, hgoing, if_neg Bool.false_ne_true, attemptOnce_before]
  simp only [hok, Progress.attemptSpan]
  rfl

theorem timed_of_last
    (hgoing : (p.before r fractions operation n).clock.isCancelled = false) {e : StoreError}
    (hfail : (attemptAt operation p.state n).outcome = .error e) :
    r.timed fractions operation 1 (p.before r fractions operation n) =
      ([p.attemptSpan r fractions operation n], .exhausted, p.behind r fractions operation n) := by
  rw [timed, hgoing, if_neg Bool.false_ne_true, attemptOnce_before]
  simp only [hfail, Progress.attemptSpan]
  rfl

/-- A failed attempt is followed by a pause unless it was the last. -/
theorem timed_of_failure
    (hgoing : (p.before r fractions operation n).clock.isCancelled = false) {e : StoreError}
    (hfail : (attemptAt operation p.state n).outcome = .error e) (left : Nat) :
    r.timed fractions operation (left + 2) (p.before r fractions operation n) =
      let rested := (p.behind r fractions operation n).rest r fractions
      let pause := Span.pause (p.ending r fractions operation n) rested.2.clock.now
      if rested.1 then ([p.attemptSpan r fractions operation n, pause], .cancelled, rested.2)
      else
        let later := r.timed fractions operation (left + 1) rested.2
        (p.attemptSpan r fractions operation n :: pause :: later.1, later.2) := by
  rw [timed, hgoing, if_neg Bool.false_ne_true, attemptOnce_before]
  simp only [hfail, Progress.attemptSpan]
  rfl

/-! ## Attempts one after the other -/

theorem beginning_le_ending (n : Nat) :
    p.beginning r fractions operation n ≤ p.ending r fractions operation n := by
  simp only [Progress.ending, Duration.le_def, Duration.nanoseconds_add]
  omega

theorem beginning_succ (n : Nat) :
    p.beginning r fractions operation (n + 1) =
      (p.ending r fractions operation n + r.pauseAt fractions p.drawn n).ceilMillisecond := rfl

theorem ending_add_pause_le (n : Nat) :
    p.ending r fractions operation n + r.pauseAt fractions p.drawn n ≤
      p.beginning r fractions operation (n + 1) := Duration.le_ceilMillisecond _

theorem ending_le_beginning (n : Nat) :
    p.ending r fractions operation n ≤ p.beginning r fractions operation (n + 1) :=
  Nat.le_trans (Nat.le_add_right _ _) (ending_add_pause_le n)

theorem ending_add_slept (n : Nat) :
    p.ending r fractions operation n + p.slept r fractions operation n =
      p.beginning r fractions operation (n + 1) :=
  congrArg Duration.mk (Nat.add_sub_cancel' (ending_le_beginning n))

/-- A pause is never too short, and less than a millisecond too long. -/
theorem slept_within (n : Nat) :
    r.pauseAt fractions p.drawn n ≤ p.slept r fractions operation n ∧
      p.slept r fractions operation n < r.pauseAt fractions p.drawn n + .ofMilliseconds 1 := by
  have hleast : p.ending r fractions operation n + r.pauseAt fractions p.drawn n ≤
      p.beginning r fractions operation (n + 1) := ending_add_pause_le n
  have hmost : p.beginning r fractions operation (n + 1) <
      p.ending r fractions operation n + r.pauseAt fractions p.drawn n + .ofMilliseconds 1 :=
    Duration.ceilMillisecond_lt _
  simp only [Progress.slept, Duration.le_def, Duration.lt_def, Duration.nanoseconds_add,
    Duration.nanoseconds_sub] at *
  omega

/-- A pause that ends on a whole millisecond takes as long as it should. -/
theorem slept_of_whole
    (h : (p.ending r fractions operation n + r.pauseAt fractions p.drawn n).Whole) :
    p.slept r fractions operation n = r.pauseAt fractions p.drawn n := by
  rw [Progress.slept, beginning_succ, h.ceilMillisecond_eq]
  exact Duration.add_sub_cancel_left _ _

theorem whole_ending (hstart : p.clock.now.Whole)
    (htook : ∀ i, (attemptAt operation p.state i).took.Whole) (n : Nat) :
    (p.ending r fractions operation n).Whole := by
  cases n with
  | zero => exact hstart.add (htook 0)
  | succ n => exact (Duration.whole_ceilMillisecond _).add (htook (n + 1))

theorem beginning_mono {m n : Nat} (h : m ≤ n) :
    p.beginning r fractions operation m ≤ p.beginning r fractions operation n := by
  induction h with
  | refl => exact Nat.le_refl _
  | step _ ih =>
    exact Nat.le_trans ih (Nat.le_trans (beginning_le_ending _) (ending_le_beginning _))

/-- The moment of cancellation comes after the beginning of the `n`-th attempt, or never. -/
def Progress.Going (r : Retrier) (fractions : Fractions) (operation : σ → Attempt σ)
    (p : Progress σ) (n : Nat) : Prop :=
  ∀ moment, p.clock.cancelAt = some moment → p.beginning r fractions operation n < moment

theorem Progress.Going.isCancelled_eq (h : p.Going r fractions operation n) :
    (p.before r fractions operation n).clock.isCancelled = false :=
  Clock.isCancelled_eq_false_iff.mpr h

theorem Progress.Going.earlier (h : p.Going r fractions operation n) {m : Nat} (hm : m ≤ n) :
    p.Going r fractions operation m :=
  fun moment hmoment => Nat.lt_of_le_of_lt (beginning_mono hm) (h moment hmoment)

theorem rest_of_going (h : p.Going r fractions operation (n + 1)) :
    (p.behind r fractions operation n).rest r fractions =
      (false, p.before r fractions operation (n + 1)) := by
  have hpause := Clock.pause_of_going (c := (p.behind r fractions operation n).clock)
    (d := r.pauseAt fractions p.drawn n) h
  have hdrawn : r.pauseFor (fractions.parts (p.behind r fractions operation n).drawn) =
      r.pauseAt fractions p.drawn n := rfl
  rw [Progress.rest, Progress.restFor, hdrawn, hpause]
  rfl

/-- Where the attempts before fail and nothing is cancelled, the loop comes to its `n`-th
attempt. -/
theorem timed_of_failures (hgoing : p.Going r fractions operation n)
    (hfail : ∀ i < n, ∃ e, (attemptAt operation p.state i).outcome = .error e) (left : Nat) :
    r.timed fractions operation (n + left + 1) p =
      let later := r.timed fractions operation (left + 1) (p.before r fractions operation n)
      (p.rounds r fractions operation n ++ later.1, later.2) := by
  -- The induction is on the attempts made, so the budget left over is any.
  induction n generalizing left with
  | zero => rw [Nat.zero_add]; rfl
  | succ n ih =>
    have hearlier := hgoing.earlier (Nat.le_succ n)
    obtain ⟨e, he⟩ := hfail n (Nat.lt_succ_self n)
    have hbudget : n + 1 + left + 1 = n + (left + 1) + 1 := by omega
    rw [hbudget, ih hearlier (fun i hi => hfail i (Nat.lt_succ_of_lt hi)) (left + 1),
      timed_of_failure hearlier.isCancelled_eq he, rest_of_going hgoing]
    simp only [Bool.false_eq_true, if_false, Progress.rounds, List.range_succ,
      List.flatMap_append, List.flatMap_singleton, List.append_assoc, List.cons_append,
      List.nil_append]
    rfl

end Retrier

end RecordArchive
