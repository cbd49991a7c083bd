import RecordArchive.Proofs.Connector.Order

/-!
# A connector that has been stopped

Once a connector is stopped it stays so, whatever is asked of it.  The flag is read
before each record, and a record for which that was done earlier may still land much
later, since it may have to wait for room.  `WindsDown` is the bound on what a transfer
can still do, kept by every step.  The main statement is `stopped_for_good`.
-/

namespace RecordArchive

variable {α : Type}

namespace Phase

/-- The record for which the connector was found running, and which has not landed. -/
def passed? : Phase α → Option α
  | choosing record _ | writing _ record _ _ => some record
  | checking _ | finished _ => none

/-- How far a transfer has come since the connector was stopped, which it did where
`start` says.  What has landed since, and what may still land, is the record for which the
check had passed at most. -/
structure WindsDown (start : Phase α) (more : List α) (phase : Phase α) : Prop where
  lands : more ++ phase.passed?.toList <+: start.passed?.toList
  ends : phase = .finished .timedOut ∨ phase = .finished .closed →
    more = [] ∧ start.passed?.isSome = true

theorem windsDown_refl {phase : Phase α} (h : ∀ delivery, phase ≠ .finished delivery) :
    phase.WindsDown [] phase :=
  ⟨List.prefix_refl _, fun hend => hend.elim (fun h' => absurd h' (h _)) fun h' => absurd h' (h _)⟩

/-- A transfer that waits has not written a record since. -/
theorem WindsDown.eq_nil {start phase : Phase α} {more : List α} {record : α}
    (h : start.WindsDown more phase) (hpassed : phase.passed? = some record) :
    more = [] ∧ start.passed?.isSome = true := by
  have hlands := h.lands
  rw [hpassed] at hlands
  cases hstart : start.passed? with
  | none =>
    rw [hstart] at hlands
    have hlength := hlands.length_le
    simp at hlength
  | some first =>
    rw [hstart] at hlands
    have hlength := hlands.length_le
    simp only [Option.toList_some, List.length_append, List.length_singleton] at hlength
    exact ⟨List.eq_nil_of_length_eq_zero (by omega), rfl⟩

end Phase

namespace Exchange

variable {e e' : Exchange α} {action : Action α} {n : Nat} {more : List (Event α)}

theorem stopped_step (h : Step e action e') (hstopped : e.stopped = true) :
    e'.stopped = true := by
  cases h with
  | stop => rfl
  | make | ignore | start | attach | close | read | receive | finish | gather | answer | output |
    write | check | choose | push | expire | refuse | advance => exact hstopped

theorem state_of_stopped (h : e.stopped = true) : e.state = .stopped := by
  unfold state
  rw [if_pos h]

theorem afterCheck_of_stopped (h : e.stopped = true) {records : List α} (hne : records ≠ []) :
    e.afterCheck records = .finished .inactive := by
  cases records with
  | nil => exact absurd rfl hne
  | cons record rest => exact if_pos h

/-- A check finds a connector inactive that is stopped. -/
theorem check_of_stopped (h : e.stopped = true) {records : List α} (hne : records ≠ [])
    (hphase : e.phase? n = some (.checking records)) :
    ∃ next, e.step? (.check n) = some next ∧ next.phase? n = some (.finished .inactive) := by
  refine ⟨e.setPhase n (e.afterCheck records), ?_, ?_⟩
  · simp only [step?, hphase]
  · rw [phase?_setPhase_self hphase, afterCheck_of_stopped h hne]

/-- The way of a transfer to its end takes its own actions, and time. -/
def EndsAlone (e : Exchange α) (n : Nat) : Prop :=
  ∃ actions later delivery, e.run? actions = some later ∧
    later.phase? n = some (.finished delivery) ∧
    ∀ action ∈ actions, action ∈ [.check n, .choose n, .expire n] ∨ ∃ d, action = .advance d

/-- A transfer that waits is given up in time. -/
theorem endsAlone_of_writing {queue : Nat} {record : α} {rest : List α} {deadline : Duration}
    (hphase : e.phase? n = some (.writing queue record rest deadline)) : e.EndsAlone n := by
  have hlater : { e with now := e.now + deadline }.phase? n =
      some (.writing queue record rest deadline) := hphase
  have hdue : deadline ≤ e.now + deadline := by
    rw [Duration.le_def, Duration.nanoseconds_add]
    omega
  refine ⟨[.advance deadline, .expire n],
    { e with now := e.now + deadline }.setPhase n (.finished .timedOut), .timedOut, ?_,
    phase?_setPhase_self hlater _, by simp⟩
  simp [run?, step?, hlater, hdue]

theorem endsAlone_of_stopped (h : e.stopped = true) {phase : Phase α}
    (hphase : e.phase? n = some phase) : e.EndsAlone n := by
  cases phase with
  | finished delivery => exact ⟨[], e, delivery, rfl, hphase, by simp⟩
  | writing queue record rest deadline => exact endsAlone_of_writing hphase
  | checking records =>
    have hends : ∃ delivery, e.afterCheck records = .finished delivery := by
      cases records with
      | nil => exact ⟨.complete, rfl⟩
      | cons record rest => exact ⟨.inactive, afterCheck_of_stopped h (List.cons_ne_nil _ _)⟩
    obtain ⟨delivery, hdelivery⟩ := hends
    refine ⟨[.check n], e.setPhase n (e.afterCheck records), delivery, ?_, ?_, by simp⟩
    · simp [run?, step?, hphase]
    · rw [phase?_setPhase_self hphase, hdelivery]
  | choosing record rest =>
    obtain ⟨⟨patience, phase⟩, htransfer, hsame⟩ := Option.map_eq_some_iff.mp hphase
    obtain rfl : phase = .choosing record rest := hsame
    have hstep : e.step? (.choose n) =
        some (e.setPhase n (e.afterChoice patience record rest)) := by
      simp only [step?, htransfer]
    have hnext := phase?_setPhase_self hphase (e.afterChoice patience record rest)
    -- The flag was read already, so with a queue the transfer goes on to wait.
    have hends : (e.setPhase n (e.afterChoice patience record rest)).EndsAlone n := by
      cases hattached : e.attached with
      | none =>
        simp only [afterChoice, hattached] at hnext ⊢
        exact ⟨[], _, .inactive, rfl, hnext, by simp⟩
      | some queue =>
        simp only [afterChoice, hattached] at hnext ⊢
        exact endsAlone_of_writing hnext
    obtain ⟨actions, later, delivery, hrun, hlater, hown⟩ := hends
    refine ⟨.choose n :: actions, later, delivery, ?_, hlater, ?_⟩
    · unfold run? at hrun ⊢
      rw [List.foldlM_cons, hstep]
      exact hrun
    · simpa using hown

theorem windsDown_step (hstopped : e.stopped = true) {start phase : Phase α} {landed : List α}
    {phase?' : Option (Phase α)} (hstep : PhaseStep e n (some phase) more phase?')
    (h : start.WindsDown landed phase) :
    ∃ phase', phase?' = some phase' ∧
      start.WindsDown (landed ++ more.filterMap Event.landed?) phase' := by
  cases hstep with
  | still =>
    refine ⟨phase, rfl, ?_⟩
    simpa using h
  | checked records =>
    refine ⟨_, rfl, ?_⟩
    have hlands := h.lands
    cases records with
    | nil => exact ⟨by simpa [afterCheck, Phase.passed?] using hlands, by simp [afterCheck]⟩
    | cons record rest =>
      rw [afterCheck_of_stopped hstopped (by simp)]
      exact ⟨by simpa [Phase.passed?] using hlands, by simp⟩
  | chosen patience record rest =>
    refine ⟨_, rfl, ?_⟩
    unfold afterChoice
    cases e.attached with
    | none =>
      obtain ⟨hnil, -⟩ := h.eq_nil rfl
      subst hnil
      exact ⟨List.nil_prefix, by simp⟩
    | some queue =>
      exact ⟨by simpa [List.filterMap_cons, Event.landed?, Phase.passed?] using h.lands, by simp⟩
  | pushed queue record rest deadline =>
    exact ⟨_, rfl, by simpa [List.filterMap_cons, Event.landed?, Phase.passed?] using h.lands,
      by simp⟩
  | expired queue record rest deadline =>
    obtain ⟨hnil, hpassed⟩ := h.eq_nil rfl
    subst hnil
    exact ⟨_, rfl, List.nil_prefix, fun _ => ⟨rfl, hpassed⟩⟩
  | refused queue record rest deadline =>
    obtain ⟨hnil, hpassed⟩ := h.eq_nil rfl
    subst hnil
    exact ⟨_, rfl, List.nil_prefix, fun _ => ⟨rfl, hpassed⟩⟩

/-- A transfer to the connector that is begun after the stop is yet to be checked, or was
refused. -/
def Barred (told : List (Event α)) : Option (Phase α) → Prop
  | none => told = []
  | some phase => ∀ records, told.filterMap Event.given? = [(records, none)] → records ≠ [] →
      told.filterMap Event.landed? = [] ∧
        (phase = .checking records ∨ phase = .finished .inactive)

theorem barred_step (hstopped : e.stopped = true) {told : List (Event α)}
    {phase? phase?' : Option (Phase α)} (hstep : PhaseStep e n phase? more phase?')
    (h : Barred told phase?) : Barred (told ++ more) phase?' := by
  cases hstep with
  | still => simpa using h
  | begun records =>
    obtain rfl : told = [] := h
    intro records' hgiven _
    obtain rfl : records = records' := by
      simpa [List.filterMap_cons, Event.given?] using hgiven
    exact ⟨rfl, Or.inl rfl⟩
  | directed queue record deadline =>
    obtain rfl : told = [] := h
    intro records hgiven _
    simp [List.filterMap_cons, Event.given?] at hgiven
  | checked records =>
    rw [List.append_nil]
    intro records' hgiven hne
    obtain ⟨hlanded, hphase⟩ := h records' hgiven hne
    refine ⟨hlanded, Or.inr ?_⟩
    rcases hphase with hphase | hphase
    · cases hphase
      exact afterCheck_of_stopped hstopped hne
    · cases hphase
  | chosen patience record rest =>
    intro records hgiven hne
    have hgiven' : told.filterMap Event.given? = [(records, none)] := by
      cases hattached : e.attached <;>
        simpa [hattached, List.filterMap_cons, Event.given?] using hgiven
    rcases (h records hgiven' hne).2 with hphase | hphase <;> cases hphase
  | pushed queue record rest deadline =>
    intro records hgiven hne
    have hgiven' : told.filterMap Event.given? = [(records, none)] := by
      simpa [List.filterMap_cons, Event.given?] using hgiven
    rcases (h records hgiven' hne).2 with hphase | hphase <;> cases hphase
  | expired queue record rest deadline =>
    rw [List.append_nil]
    intro records hgiven hne
    rcases (h records hgiven hne).2 with hphase | hphase <;> cases hphase
  | refused queue record rest deadline =>
    rw [List.append_nil]
    intro records hgiven hne
    rcases (h records hgiven hne).2 with hphase | hphase <;> cases hphase

end Exchange

namespace Traffic

variable {t t' : Traffic α} {actions : List (Exchange.Action α)} {n : Nat}

/-- A transfer is about to check the connector, and will find it inactive. -/
def AboutToFail (t : Traffic α) (n : Nat) : Prop :=
  ∃ next, t.exchange.step? (.check n) = some next ∧ next.phase? n = some (.finished .inactive)

/-- A transfer through a connector that was stopped before it began: it has landed nothing,
never waits, and finds the connector inactive. -/
structure TurnedAway (t : Traffic α) (n : Nat) : Prop where
  landed : t.landedBy n = []
  inactive : t.exchange.phase? n = some (.finished .inactive) ∨ t.AboutToFail n

/-- How a transfer that was under way when the connector was stopped has gone on since.  It
was given `batch`, stood at `start`, has landed `more` since then and stands at `phase`.
With records left it ends inactive, unless the last that it could write met a time-out or a
closed queue; and it does end, in time. -/
structure CutShort (t : Traffic α) (n : Nat) (batch : List α) (start : Phase α) (more : List α)
    (phase : Phase α) : Prop where
  lands : more ++ phase.passed?.toList <+: start.passed?.toList
  ends : ∀ delivery, phase = .finished delivery → t.landedBy n ≠ batch →
    delivery = .inactive ∨
      (delivery = .timedOut ∨ delivery = .closed) ∧ more = [] ∧ start.passed?.isSome = true
  fails : ∀ record rest, phase = .checking (record :: rest) → t.AboutToFail n
  returns : t.exchange.EndsAlone n

theorem stopped_run (hrun : t.run? actions = some t') (hstopped : t.exchange.stopped = true) :
    t'.exchange.stopped = true :=
  run_invariant (fun t => t.exchange.stopped = true)
    (fun _ _ _ h hstep => Exchange.stopped_step (step_of_step? hstep).1 h) hstopped hrun

/-- To stop a connector is always possible, and no event. -/
theorem run_stop (hrun : t.run? (.stop :: actions) = some t') :
    run? actions ⟨{ t.exchange with stopped := true }, t.events⟩ = some t' := by
  have hstop : t.step? .stop = some ⟨{ t.exchange with stopped := true }, t.events⟩ := by
    simp [step?, Exchange.step?, Exchange.events]
  rwa [run?, hstop, Option.bind_some] at hrun

theorem windsDown_run {start : Phase α} (hrun : t.run? actions = some t')
    (hstopped : t.exchange.stopped = true) (hphase : t.exchange.phase? n = some start)
    (hgoing : ∀ delivery, start ≠ .finished delivery) :
    ∃ more phase, t'.landedBy n = t.landedBy n ++ more ∧ t'.exchange.phase? n = some phase ∧
      start.WindsDown more phase := by
  -- At the stop nothing has landed since; every step adds what it lands.
  have hinv := run_invariant (fun later => later.exchange.stopped = true ∧
      ∃ more phase, later.landedBy n = t.landedBy n ++ more ∧
        later.exchange.phase? n = some phase ∧ start.WindsDown more phase)
    (fun later next action ⟨hlater, more, phase, hlanded, hphase, hdown⟩ hstep => ?_)
    ⟨hstopped, [], start, (List.append_nil _).symm, hphase, Phase.windsDown_refl hgoing⟩ hrun
  · exact hinv.2
  · obtain ⟨hstep, hevents⟩ := step_of_step? hstep
    have hphaseStep := Exchange.phaseStep_of_step hstep n
    rw [hphase] at hphaseStep
    obtain ⟨phase', hphase', hdown'⟩ := Exchange.windsDown_step hlater hphaseStep hdown
    refine ⟨Exchange.stopped_step hstep hlater, _, phase', ?_, hphase', hdown'⟩
    unfold landedBy ofTransfer at hlanded ⊢
    rw [hevents, Event.about_append, List.filterMap_append, hlanded, List.append_assoc]

theorem barred_run (hrun : t.run? actions = some t') (hstopped : t.exchange.stopped = true)
    (h : Exchange.Barred (t.ofTransfer n) (t.exchange.phase? n)) :
    Exchange.Barred (t'.ofTransfer n) (t'.exchange.phase? n) := by
  refine (run_invariant (fun t => t.exchange.stopped = true ∧
      Exchange.Barred (t.ofTransfer n) (t.exchange.phase? n))
    (fun t t' action ⟨hstopped, h⟩ hstep => ?_) ⟨hstopped, h⟩ hrun).2
  obtain ⟨hstep, hevents⟩ := step_of_step? hstep
  refine ⟨Exchange.stopped_step hstep hstopped, ?_⟩
  unfold ofTransfer
  rw [hevents, Event.about_append]
  exact Exchange.barred_step hstopped (Exchange.phaseStep_of_step hstep n) h

/-- What a transfer was given is what its accounts are about. -/
theorem Sound.follows_given (h : t.Sound) {batch : List α} {queue? : Option Nat}
    (hgiven : .given n batch queue? ∈ t.events) :
    ∃ phase, t.exchange.phase? n = some phase ∧ phase.Follows (t.ofTransfer n) batch queue? := by
  have hmem : .given n batch queue? ∈ t.ofTransfer n := Event.mem_about.mpr ⟨hgiven, rfl⟩
  obtain ⟨phase, batch', queue?', hphase, hfollows⟩ := h.exists_follows hmem
  have hsame := mem_given_iff.mpr hgiven
  rw [hfollows.given_eq, List.mem_singleton] at hsame
  cases hsame
  exact ⟨phase, hphase, hfollows⟩

theorem aboutToFail_of_stopped (hstopped : t.exchange.stopped = true) {records : List α}
    (hne : records ≠ []) (hphase : t.exchange.phase? n = some (.checking records)) :
    t.AboutToFail n :=
  Exchange.check_of_stopped hstopped hne hphase

theorem Sound.turnedAway (h : t.Sound) (hstopped : t.exchange.stopped = true)
    (hbarred : Exchange.Barred (t.ofTransfer n) (t.exchange.phase? n)) {records : List α}
    (hgiven : .given n records none ∈ t.events) (hne : records ≠ []) : t.TurnedAway n := by
  obtain ⟨phase, hphase, hfollows⟩ := h.follows_given hgiven
  rw [hphase] at hbarred
  obtain ⟨hlanded, hchecking | hinactive⟩ := hbarred records hfollows.given_eq hne
  · subst hchecking
    exact ⟨hlanded, Or.inr (aboutToFail_of_stopped hstopped hne hphase)⟩
  · subst hinactive
    exact ⟨hlanded, Or.inl hphase⟩

theorem Sound.cutShort (h : t.Sound) (hstopped : t.exchange.stopped = true) {batch : List α}
    {queue? : Option Nat} (hgiven : .given n batch queue? ∈ t.events) {start phase : Phase α}
    {more : List α} (hphase : t.exchange.phase? n = some phase)
    (hdown : start.WindsDown more phase) : t.CutShort n batch start more phase := by
  refine ⟨hdown.lands, fun delivery hdelivery hleft => ?_, fun record rest hchecking => ?_,
    Exchange.endsAlone_of_stopped hstopped hphase⟩
  · subst hdelivery
    obtain ⟨phase', hphase', hfollows⟩ := h.follows_given hgiven
    obtain rfl : .finished delivery = phase' := Option.some.inj (hphase.symm.trans hphase')
    cases delivery with
    | complete => exact absurd hfollows.accounts hleft
    | inactive => exact Or.inl rfl
    | timedOut => exact Or.inr ⟨Or.inl rfl, hdown.ends (Or.inl rfl)⟩
    | closed => exact Or.inr ⟨Or.inr rfl, hdown.ends (Or.inr rfl)⟩
  · subst hchecking
    exact aboutToFail_of_stopped hstopped (List.cons_ne_nil record rest) hphase

/-- A connector that has been stopped stays so, whatever happens next.  A transfer through
it that is begun later lands nothing and finds it inactive; one that was under way lands one
more record at most, for which the check had passed, and then finds it inactive. -/
theorem stopped_for_good {patience : Duration} {before after : List (Exchange.Action α)}
    (hbefore : (start patience).run? before = some t)
    (hafter : t.run? (.stop :: after) = some t') :
    t'.exchange.state = .stopped ∧
      (∀ n records, t.exchange.phase? n = none → .given n records none ∈ t'.events →
        records ≠ [] → t'.TurnedAway n) ∧
      (∀ n batch start, .given n batch none ∈ t.events → t.exchange.phase? n = some start →
        (∀ delivery, start ≠ .finished delivery) →
        ∃ more phase, t'.landedBy n = t.landedBy n ++ more ∧
          t'.exchange.phase? n = some phase ∧ t'.CutShort n batch start more phase) ∧
      ∀ names : PipelineNames,
        Delivery.inactive.output names patience =
            .error (.connectorInactive names.sink names.source) ∧
          Delivery.closed.output names patience =
            .error (.connectorInactive names.sink names.source) ∧
          Delivery.timedOut.output names patience =
            .error (.connectorTimeout names.sink names.source patience) := by
  have hearlier := sound_run hbefore
  have hlater : t'.Sound :=
    run_invariant Sound (fun _ _ _ h hstep => sound_step h hstep) hearlier hafter
  have hrun := run_stop hafter
  have hstopped : t'.exchange.stopped = true := stopped_run hrun rfl
  refine ⟨Exchange.state_of_stopped hstopped, fun n records hnone hgiven hne => ?_,
    fun n batch start hgiven hphase hgoing => ?_, fun names => ⟨rfl, rfl, rfl⟩⟩
  · have hnew : Exchange.Barred (t.ofTransfer n) (t.exchange.phase? n) := by
      have hsound := hearlier.phase n
      rw [hnone] at hsound ⊢
      exact hsound
    exact hlater.turnedAway hstopped (barred_run hrun rfl hnew) hgiven hne
  · obtain ⟨more, phase, hlanded, hphase', hdown⟩ := windsDown_run hrun rfl hphase hgoing
    have hgiven' := mem_events_run hafter hgiven
    exact ⟨more, phase, hlanded, hphase', hlater.cutShort hstopped hgiven' hphase' hdown⟩

/-- A transfer of three records that waits for room for the second. -/
def waiting : Traffic Nat where
  exchange :=
    { patience := .zero
      queues := [{ capacity := 1, items := [1], capacity_pos := by decide }]
      attached := some 0
      transfers := [⟨.zero, .writing 0 2 [3] .zero⟩] }
  events :=
    [.made 0 1, .given 0 [1, 2, 3] none, .assigned 0 0, .landed 0 0 1, .assigned 0 0]

/-- A stop while a transfer waits for room.  It lands the record that it waits with and no
other, and neither a start nor another transfer gets past the stop. -/
theorem stopped_for_good_waiting : ∃ t' : Traffic Nat,
    (start .zero).run? [.make 1, .start 0, .attach 0, .output [1, 2, 3], .check 0, .choose 0,
      .push 0, .check 0, .choose 0] = some waiting ∧
    waiting.run? [.stop, .start 0, .output [4], .read 0 1, .receive 0, .push 0, .check 0] =
      some t' ∧
    t'.exchange.state = .stopped ∧ t'.landedBy 0 = [1, 2] ∧ t'.TurnedAway 1 ∧
    t'.CutShort 0 [1, 2, 3] (.writing 0 2 [3] .zero) [2] (.finished .inactive) := by
  have hbefore : (start .zero : Traffic Nat).run? [.make 1, .start 0, .attach 0,
      .output [1, 2, 3], .check 0, .choose 0, .push 0, .check 0, .choose 0] = some waiting := rfl
  have hafter : waiting.run? [.stop, .start 0, .output [4], .read 0 1, .receive 0, .push 0,
      .check 0] = some
      ⟨{ patience := .zero
         queues := [{ capacity := 1, items := [2], capacity_pos := by decide }]
         attached := some 0
         stopped := true
         transfers := [⟨.zero, .finished .inactive⟩, ⟨.zero, .checking [4]⟩]
         readings := [⟨0, 1, .gathering [1]⟩] },
        waiting.events ++ [.given 1 [4] none, .taken 0 0 1, .landed 0 0 2]⟩ := rfl
  obtain ⟨hstate, hlater, hunderWay, -⟩ := stopped_for_good hbefore hafter
  obtain ⟨more, phase, hlanded, hphase, hcut⟩ :=
    hunderWay 0 [1, 2, 3] (.writing 0 2 [3] .zero) (by simp [waiting]) rfl (by simp)
  have hmore : [1] ++ [2] = [1] ++ more := hlanded
  obtain rfl : [2] = more := List.append_cancel_left hmore
  obtain rfl : .finished .inactive = phase := Option.some.inj hphase
  exact ⟨_, hbefore, hafter, hstate, rfl, hlater 1 [4] rfl (by simp) (by simp), hcut⟩

end Traffic

end RecordArchive
