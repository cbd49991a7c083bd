import RecordArchive.Proofs.Retrier.Budget

/-!
# Cancelling a loop of attempts

A loop looks at the cancellation before every attempt and during every pause, so what a
cancellation does is settled by where its moment falls on the timeline of the loop that is not
cancelled.  The main statement is `cancelled_where_it_falls`.
-/

namespace RecordArchive

namespace Retrier

variable {σ : Type} {r : Retrier} {fractions : Fractions} {operation : σ → Attempt σ}
  {p : Progress σ} {moment : Duration} {budget n : Nat}

/-- The loop that was cancelled after its `n`-th attempt, when it rested or was about to. -/
def Progress.cutShort (r : Retrier) (fractions : Fractions) (operation : σ → Attempt σ)
    (p : Progress σ) (n : Nat) (now : Duration) : Progress σ :=
  { p.behind r fractions operation n with
    clock := { p.clock with now := now }
    drawn := p.drawn + n + 1 }

/-- When a loop stops that is cancelled after its `n`-th attempt has begun: in the pause after
that attempt, but not before the attempt is over. -/
def Progress.stopping (r : Retrier) (fractions : Fractions) (operation : σ → Attempt σ)
    (p : Progress σ) (n : Nat) (moment : Duration) : Duration :=
  if moment ≤ p.ending r fractions operation n then p.ending r fractions operation n else moment

theorem rest_of_cancelled (hcancel : p.clock.cancelAt = some moment)
    (hsoon : moment ≤ p.beginning r fractions operation (n + 1)) :
    (p.behind r fractions operation n).rest r fractions =
      (true, p.cutShort r fractions operation n (p.stopping r fractions operation n moment)) := by
  have hpause := Clock.pause_of_cancelled (c := (p.behind r fractions operation n).clock)
    (d := r.pauseAt fractions p.drawn n) hcancel hsoon
  have hdrawn : r.pauseFor (fractions.parts (p.behind r fractions operation n).drawn) =
      r.pauseAt fractions p.drawn n := rfl
  rw [Progress.rest, Progress.restFor, hdrawn, hpause]
  rfl

theorem going_of_begun (hcancel : p.clock.cancelAt = some moment)
    (hbegun : p.beginning r fractions operation n < moment) : p.Going r fractions operation n := by
  intro moment' hmoment'
  rw [hcancel] at hmoment'
  exact Option.some.inj hmoment' ▸ hbegun

/-- A loop that would have gone on is cancelled after the last attempt that began before the
moment. -/
theorem timed_cut (h : EndsAt operation p.state budget n) (hcancel : p.clock.cancelAt = some moment)
    {i : Nat} (hi : i < n) (hbegun : p.beginning r fractions operation i < moment)
    (hsoon : moment ≤ p.beginning r fractions operation (i + 1)) :
    r.timed fractions operation budget p =
      (p.rounds r fractions operation i ++ [p.attemptSpan r fractions operation i,
          .pause (p.ending r fractions operation i) (p.stopping r fractions operation i moment)],
        .cancelled,
        p.cutShort r fractions operation i (p.stopping r fractions operation i moment)) := by
  have hgoing := going_of_begun hcancel hbegun
  obtain ⟨left, rfl⟩ : ∃ left, budget = i + (left + 1) + 1 :=
    ⟨budget - i - 2, by have := h.lt; omega⟩
  obtain ⟨e, he⟩ := h.failures i hi
  rw [timed_of_failures hgoing (fun j hj => h.failures j (Nat.lt_trans hj hi)),
    timed_of_failure hgoing.isCancelled_eq he, rest_of_cancelled hcancel hsoon]
  rfl

theorem timed_late (hcancel : p.clock.cancelAt = some moment) (hlate : moment ≤ p.clock.now)
    (hbudget : 0 < budget) : r.timed fractions operation budget p = ([], .cancelled, p) := by
  have hcancelled : p.clock.isCancelled = true := by
    rw [← Bool.not_eq_false, Clock.isCancelled_eq_false_iff]
    intro hgoing
    exact absurd (hgoing moment hcancel) (Nat.not_lt.mpr hlate)
  obtain ⟨left, rfl⟩ : ∃ left, budget = left + 1 := ⟨budget - 1, by omega⟩
  exact timed_of_cancelled hcancelled left

/-! ## Where the moment falls -/

theorem moment_falls (r : Retrier) (fractions : Fractions) (operation : σ → Attempt σ)
    (p : Progress σ) (moment : Duration) (n : Nat) :
    moment ≤ p.clock.now ∨
      (∃ i < n, p.beginning r fractions operation i < moment ∧
        moment ≤ p.beginning r fractions operation (i + 1)) ∨
      p.beginning r fractions operation n < moment := by
  induction n with
  | zero =>
    rcases Nat.lt_or_ge p.clock.now.nanoseconds moment.nanoseconds with hafter | hbefore
    · exact Or.inr (Or.inr hafter)
    · exact Or.inl hbefore
  | succ n ih =>
    rcases ih with hbefore | ⟨i, hi, hwithin⟩ | hbegun
    · exact Or.inl hbefore
    · exact Or.inr (Or.inl ⟨i, Nat.lt_succ_of_lt hi, hwithin⟩)
    · rcases Nat.lt_or_ge (p.beginning r fractions operation (n + 1)).nanoseconds
        moment.nanoseconds with hnext | hwithin
      · exact Or.inr (Or.inr hnext)
      · exact Or.inr (Or.inl ⟨n, Nat.lt_succ_self n, hbegun, hwithin⟩)

theorem start_of_mem_rounds {start finish : Duration} {outcome : Except StoreError Unit}
    (h : Span.attempt start finish outcome ∈ p.rounds r fractions operation n) :
    ∃ i < n, start = p.beginning r fractions operation i := by
  rw [Progress.rounds, List.mem_flatMap] at h
  obtain ⟨i, hi, hspan⟩ := h
  refine ⟨i, List.mem_range.mp hi, ?_⟩
  simp only [Progress.attemptSpan, List.mem_cons, Span.attempt.injEq, reduceCtorEq,
    List.not_mem_nil, or_false] at hspan
  exact hspan.1

theorem start_of_mem_append {start finish : Duration} {outcome : Except StoreError Unit}
    {rest : List Span} (hrest : ∀ span ∈ rest, ∃ a b, span = .pause a b)
    (h : Span.attempt start finish outcome ∈
      p.rounds r fractions operation n ++ p.attemptSpan r fractions operation n :: rest) :
    ∃ i ≤ n, start = p.beginning r fractions operation i := by
  rcases List.mem_append.mp h with hround | hlast
  · obtain ⟨i, hi, hstart⟩ := start_of_mem_rounds hround
    exact ⟨i, Nat.le_of_lt hi, hstart⟩
  · rcases List.mem_cons.mp hlast with hspan | hpause
    · rw [Progress.attemptSpan, Span.attempt.injEq] at hspan
      exact ⟨n, Nat.le_refl n, hspan.1⟩
    · obtain ⟨a, b, hspan⟩ := hrest _ hpause
      cases hspan

/-- No attempt begins once the moment has come. -/
theorem start_lt_of_mem_timed (h : EndsAt operation p.state budget n)
    (hcancel : p.clock.cancelAt = some moment) {start finish : Duration}
    {outcome : Except StoreError Unit}
    (hspan : Span.attempt start finish outcome ∈ (r.timed fractions operation budget p).1) :
    start < moment := by
  rcases moment_falls r fractions operation p moment n with hlate | ⟨i, hi, hbegun, hsoon⟩ | hbegun
  · rw [timed_late hcancel hlate (Nat.zero_lt_of_lt h.lt)] at hspan
    cases hspan
  · rw [timed_cut h hcancel hi hbegun hsoon] at hspan
    obtain ⟨j, hj, rfl⟩ := start_of_mem_append (by simp) hspan
    exact Nat.lt_of_le_of_lt (beginning_mono hj) hbegun
  · rw [timed_whole h (going_of_begun hcancel hbegun)] at hspan
    obtain ⟨j, hj, rfl⟩ := start_of_mem_append (by simp) hspan
    exact Nat.lt_of_le_of_lt (beginning_mono hj) hbegun

theorem timed_in_attempt (h : EndsAt operation p.state budget n)
    (hcancel : p.clock.cancelAt = some moment) {i : Nat} (hi : i ≤ n)
    (hbegun : p.beginning r fractions operation i < moment)
    (hsoon : moment ≤ p.ending r fractions operation i) :
    let timed := r.timed fractions operation budget p
    p.attemptSpan r fractions operation i ∈ timed.1 ∧
      timed.2.1 = (if i = n then verdictOf (attemptAt operation p.state i).outcome
        else .cancelled) ∧
      timed.2.2.tries = p.tries + i + 1 ∧
      timed.2.2.state = stateBefore operation p.state (i + 1) ∧
      timed.2.2.clock.now = p.ending r fractions operation i := by
  intro timed
  have hspan (rest : List Span) : p.attemptSpan r fractions operation i ∈
      p.rounds r fractions operation i ++ p.attemptSpan r fractions operation i :: rest :=
    List.mem_append_right _ List.mem_cons_self
  by_cases hlast : i = n
  · subst hlast
    have hwhole : timed = _ := timed_whole h (going_of_begun hcancel hbegun)
    rw [hwhole, if_pos rfl]
    exact ⟨hspan _, rfl, rfl, rfl, rfl⟩
  · have hcut : timed = _ := timed_cut h hcancel (Nat.lt_of_le_of_ne hi hlast) hbegun
      (Nat.le_trans hsoon (ending_le_beginning i))
    rw [hcut, Progress.stopping, if_pos hsoon, if_neg hlast]
    exact ⟨hspan _, rfl, rfl, rfl, rfl⟩

theorem timed_in_pause (h : EndsAt operation p.state budget n)
    (hcancel : p.clock.cancelAt = some moment) {i : Nat} (hi : i < n)
    (hafter : p.ending r fractions operation i < moment)
    (hsoon : moment ≤ p.beginning r fractions operation (i + 1)) :
    let timed := r.timed fractions operation budget p
    timed.2.1 = .cancelled ∧ timed.2.2.tries = p.tries + i + 1 ∧
      timed.2.2.state = stateBefore operation p.state (i + 1) ∧
      timed.2.2.clock.now = moment := by
  intro timed
  have hcut : timed = _ :=
    timed_cut h hcancel hi (Nat.lt_of_le_of_lt (beginning_le_ending i) hafter) hsoon
  have hnot : ¬ moment ≤ p.ending r fractions operation i := Nat.not_le.mpr hafter
  rw [hcut, Progress.stopping, if_neg hnot]
  exact ⟨rfl, rfl, rfl, rfl⟩

theorem uploaded_of_error {verdict : Verdict} {key : String} {e : ArchiveError}
    (h : verdict.uploaded key = .error e) : e = .cancelled key := by
  cases verdict <;> cases h
  rfl

/-- What a cancellation does to a loop, by where its moment falls on the timeline of the loop
that is not cancelled.  Before the call it leaves nothing to do.  An attempt that it falls into
runs to its end, and only where another attempt would have followed is the loop cancelled, right
there.  In a pause the loop is cancelled at once, and after the end nothing is changed.  The
moment at which an attempt would begin belongs to the pause before it. -/
theorem cancelled_where_it_falls (budget : Nat) (delay : Duration) (jitter : Binary64)
    (fractions : Fractions) (operation : σ → Attempt σ) (start : Duration) (drawn : Nat) (s : σ)
    (key : String) (moment : Duration) :
    let r := make budget delay jitter
    let free := r.run fractions operation { now := start } drawn s
    let p : Progress σ := ⟨{ now := start, cancelAt := some moment }, drawn, 0, s⟩
    let ended := r.run fractions operation p.clock drawn s
    let answer := ended.1.uploaded key
    let spans := (r.timed fractions operation r.attempts p).1
    let outcome (i : Nat) := (attemptAt operation s i).outcome
    let begins (i : Nat) := p.beginning r fractions operation i
    let ends (i : Nat) := p.ending r fractions operation i
    (moment ≤ start → answer = .error (.cancelled key) ∧ ended.2 = p ∧ spans = []) ∧
    (∀ i < free.2.tries, begins i < moment → moment ≤ ends i →
      p.attemptSpan r fractions operation i ∈ spans ∧ ended.2.tries = i + 1 ∧
      ended.2.state = stateBefore operation s (i + 1) ∧ ended.2.clock.now = ends i ∧
      (outcome i = .ok () → answer = .ok true) ∧
      (outcome i ≠ .ok () → i + 1 = max 1 budget → answer = .ok false) ∧
      (outcome i ≠ .ok () → i + 1 ≠ max 1 budget → answer = .error (.cancelled key))) ∧
    (∀ i, i + 1 < free.2.tries → ends i < moment → moment ≤ begins (i + 1) →
      answer = .error (.cancelled key) ∧ ended.2.tries = i + 1 ∧
      ended.2.state = stateBefore operation s (i + 1) ∧ ended.2.clock.now = moment) ∧
    (free.2.clock.now < moment → answer = free.1.uploaded key ∧
      ended.2 = { free.2 with clock := { free.2.clock with cancelAt := some moment } }) ∧
    (moment ≤ start ∨ (∃ i < free.2.tries, begins i < moment ∧ moment ≤ ends i) ∨
      (∃ i, i + 1 < free.2.tries ∧ ends i < moment ∧ moment ≤ begins (i + 1)) ∨
      free.2.clock.now < moment) ∧
    (∀ begun finish result, Span.attempt begun finish result ∈ spans → begun < moment) ∧
    (∀ e, answer = .error e → e = .cancelled key) := by
  intro r free p ended answer spans outcome begins ends
  obtain ⟨n, hends⟩ := exists_endsAt operation s r.attempts_pos
  -- The loop that is not cancelled has the same timeline.
  have hfree : free = (verdictOf (outcome n),
      (⟨{ now := start }, drawn, 0, s⟩ : Progress σ).behind r fractions operation n) :=
    run_of_endsAt hends rfl
  have htries : free.2.tries = n + 1 := by rw [hfree]; exact congrArg (· + 1) (Nat.zero_add n)
  have hfinish : free.2.clock.now = ends n := by rw [hfree]; rfl
  have hended : ended = (r.timed fractions operation r.attempts p).2 := (timed_eq _ p).symm
  have hcount (i : Nat) : p.tries + i + 1 = i + 1 := congrArg (· + 1) (Nat.zero_add i)
  refine ⟨fun hmoment => ?_, fun i hi hbegun hsoon => ?_, fun i hi hafter hsoon => ?_,
    fun hafter => ?_, ?_, fun begun finish result hspan => ?_, fun e he => uploaded_of_error he⟩
  · have hlate : r.timed fractions operation r.attempts p = ([], .cancelled, p) :=
      timed_late rfl hmoment r.attempts_pos
    simp only [answer, spans, hended, hlate, Verdict.uploaded, and_self]
  · obtain ⟨hspan, hverdict, hmade, hstate, hnow⟩ :=
      timed_in_attempt hends rfl (by omega) hbegun hsoon
    rw [← hended] at hverdict hmade hstate hnow
    have hanswer : answer = (if i = n then verdictOf (outcome i) else .cancelled).uploaded key :=
      congrArg (Verdict.uploaded key) hverdict
    refine ⟨hspan, hmade.trans (hcount i), hstate, hnow, ?_⟩
    by_cases hlast : i = n
    · obtain ⟨htrue, hfalse⟩ := uploaded_verdictOf (outcome i) key
      rw [if_pos hlast] at hanswer
      rw [← hanswer] at htrue hfalse
      refine ⟨htrue.mpr, fun hfail _ => hfalse.mpr hfail, fun hfail hmore => ?_⟩
      exact absurd (hends.done.resolve_left (hlast ▸ hfail)) (hlast ▸ hmore)
    · obtain ⟨e, he⟩ := hends.failures i (by omega)
      have hlt := hends.lt
      refine ⟨fun hok => ?_, fun _ hbudget => ?_, fun _ _ => by rw [hanswer, if_neg hlast]; rfl⟩
      · cases he.symm.trans hok
      · have hbudget : i + 1 = r.attempts := hbudget
        omega
  · obtain ⟨hverdict, hmade, hstate, hnow⟩ :=
      timed_in_pause hends rfl (by omega) hafter hsoon
    rw [← hended] at hverdict hmade hstate hnow
    exact ⟨congrArg (Verdict.uploaded key) hverdict, hmade.trans (hcount i), hstate, hnow⟩
  · rw [hfinish] at hafter
    have hbegun : begins n < moment := Nat.lt_of_le_of_lt (beginning_le_ending n) hafter
    have hwhole : r.timed fractions operation r.attempts p = _ :=
      timed_whole hends (going_of_begun rfl hbegun)
    simp only [answer, hended, hwhole, hfree]
    exact ⟨rfl, rfl⟩
  · rw [htries, hfinish]
    rcases moment_falls r fractions operation p moment n with hlate | ⟨i, hi, hbegun, hnext⟩ | hbegun
    · exact Or.inl hlate
    · rcases Nat.lt_or_ge (ends i).nanoseconds moment.nanoseconds with hafter | hsoon
      · exact Or.inr (Or.inr (Or.inl ⟨i, by omega, hafter, hnext⟩))
      · exact Or.inr (Or.inl ⟨i, by omega, hbegun, hsoon⟩)
    · rcases Nat.lt_or_ge (ends n).nanoseconds moment.nanoseconds with hafter | hsoon
      · exact Or.inr (Or.inr (Or.inr hafter))
      · exact Or.inr (Or.inl ⟨n, Nat.lt_succ_self n, hbegun, hsoon⟩)
  · exact start_lt_of_mem_timed hends rfl hspan

/-- Cancelled in the first of nine long pauses. -/
example :
    let ended := (make 10 (.ofSeconds 60) .nan).run .zero
      (scripted fun _ => (.error (.client "connection reset"), .ofMilliseconds 1))
      { cancelAt := some (.ofSeconds 1) } 0 0
    ended.1.uploaded "doomed.json" = .error (.cancelled "doomed.json") ∧ ended.2.tries = 1 ∧
      ended.2.clock.now = .ofSeconds 1 :=
  ⟨rfl, rfl, rfl⟩

end Retrier

end RecordArchive
