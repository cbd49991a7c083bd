import RecordArchive.Proofs.Coordinator.Ledger

/-!
# No record is admitted past a limit

A batch is accepted by a cut and an addition for every record.  After the cut there
is no active buffer, or one that is within all three limits, and nothing comes
between that and the addition.  So a buffer exceeds the limit on bytes by its last
record at most, and the limit on records never.  The main statement is
`admitted_within_limits`.  It holds whether calls fail or not.
-/

namespace RecordArchive

namespace Limits

/-- What the limits ask of a buffer that takes another record. -/
structure Admits (limits : Limits) (s : Snapshot) : Prop where
  count_lt : 0 < limits.events → s.count < limits.events
  size_le : s.size ≤ limits.bytes
  age_le : s.age ≤ limits.age

/-- What the limits leave for the records of one buffer. -/
structure Fits (limits : Limits) (records : List Bytes) : Prop where
  length_le : 0 < limits.events → records.length ≤ limits.events
  size_le : records.dropLast.flatten.length ≤ limits.bytes

theorem fits_nil (limits : Limits) : limits.Fits [] :=
  ⟨fun _ => Nat.zero_le _, Nat.zero_le _⟩

theorem admits_of_not_shouldFlush {limits : Limits} {s : Snapshot}
    (h : limits.shouldFlush s = false) : limits.Admits s := by
  obtain ⟨hcount, hage, hsize⟩ := (limits.shouldFlush_eq_false_iff s).mp h
  exact ⟨hcount, hsize, hage⟩

end Limits

namespace Coordinator

variable {σ : Type}

/-- The active buffer, if there is one, may admit another record. -/
def Ready (limits : Limits) (c : Coordinator σ) : Prop :=
  ∀ b, c.current = some b → limits.shouldFlush (b.snapshot c.now) = false

theorem ready_of_none {limits : Limits} {c : Coordinator σ} (h : c.current = none) :
    c.Ready limits := by
  intro b hb
  rw [h] at hb
  cases hb

/-- The buffer that takes a record is the active one, or a new one, which is empty
and of this very moment. -/
theorem admits_of_ready {sink : Sink} {c opened : Coordinator σ} {b : Buffer}
    (h : c.Ready sink.limits) (htake : c.takeBuffer sink = (.ok b, opened)) :
    sink.limits.Admits (b.snapshot c.now) := by
  unfold takeBuffer at htake
  cases hcur : c.current with
  | some active =>
    simp only [hcur, Prod.mk.injEq, Except.ok.injEq] at htake
    rw [← htake.1]
    exact Limits.admits_of_not_shouldFlush (h active hcur)
  | none =>
    cases hnew : Buffer.create sink.kind c.now c.world.staging with
    | mk answer staging =>
      simp only [hcur, hnew, Prod.mk.injEq] at htake
      obtain ⟨rfl, -⟩ := htake
      have hcount : b.count = 0 := (Buffer.holds_create hnew).count_eq
      have hsize : b.size = 0 := (Buffer.holds_create hnew).size_eq
      have hcreated : b.createdAt = c.now := Buffer.createdAt_create hnew
      refine ⟨fun hpos => ?_, ?_, ?_⟩
      · show b.count < sink.limits.events
        omega
      · show b.size ≤ sink.limits.bytes
        omega
      · show c.now.nanoseconds - b.createdAt.nanoseconds ≤ sink.limits.age.nanoseconds
        rw [hcreated]
        omega

theorem fits_append {sink : Sink} {c : Coordinator σ} {active : List Bytes} (hc : c.Holds active)
    (h : c.Ready sink.limits) (record : Bytes) : sink.limits.Fits (active ++ [record]) := by
  have hactive : (0 < sink.limits.events → active.length < sink.limits.events) ∧
      active.flatten.length ≤ sink.limits.bytes := by
    cases hcur : c.current with
    | none =>
      rw [hc.of_none hcur]
      exact ⟨id, Nat.zero_le _⟩
    | some b =>
      obtain ⟨-, hb⟩ := hc.of_some hcur
      have hadmits := Limits.admits_of_not_shouldFlush (h b hcur)
      rw [← hb.count_eq, ← hb.size_eq]
      exact ⟨hadmits.count_lt, hadmits.size_le⟩
  refine ⟨fun hpos => ?_, ?_⟩
  · have hlt := hactive.1 hpos
    rw [List.length_append, List.length_singleton]
    omega
  · rw [List.dropLast_concat]
    exact hactive.2

variable [ObjectStore σ]

/-! ## Moves -/

theorem ready_cut (sink : Sink) (c : Coordinator σ) :
    (c.perform sink (.cut sink.limits.shouldFlush)).state.Ready sink.limits := by
  simp only [perform]
  rcases flushWhen_cases sink sink.limits.shouldFlush c with ⟨hdue, hflush⟩ | ⟨b, -, -, hflush⟩
  · rw [hflush]
    exact hdue
  · rw [hflush]
    exact ready_of_none (current_retire sink b { c with current := none })

/-- Every record of a batch is added by a coordinator that may admit it. -/
theorem ready_of_mem_steps {sink : Sink} {record : Bytes} {before : Coordinator σ} :
    ∀ (records : List Record) (c : Coordinator σ),
      (before, .add record) ∈ c.steps sink (sink.moves records) → before.Ready sink.limits := by
  intro records
  induction records with
  | nil =>
    intro c h
    cases h
  | cons first rest ih =>
    intro c h
    unfold Sink.moves at h
    cases hcode : sink.codec.encode first with
    | error fault =>
      simp only [hcode] at h
      cases hpolicy : sink.policy with
      | abort => simp [hpolicy, steps, perform] at h
      | skip =>
        simp only [hpolicy, steps, perform, List.mem_cons, Prod.mk.injEq, reduceCtorEq, and_false,
          false_or] at h
        exact ih _ h
    | ok bytes =>
      simp only [hcode, steps, List.mem_cons, Prod.mk.injEq, reduceCtorEq, and_false,
        false_or] at h
      cases hout : (c.perform sink (.cut sink.limits.shouldFlush)).outcome with
      | error e => simp [hout] at h
      | ok u =>
        simp only [hout, List.mem_cons, Prod.mk.injEq] at h
        rcases h with ⟨rfl, -⟩ | h
        · exact ready_cut sink c
        · simp only [perform] at h
          exact ih _ h

theorem ready_of_mem_runSteps {sink : Sink} {record : Bytes} {before : Coordinator σ} :
    ∀ (calls : List (Circumstances σ × Call)) (c : Coordinator σ),
      (before, .add record) ∈ c.runSteps sink calls → before.Ready sink.limits := by
  intro calls
  induction calls with
  | nil =>
    intro c h
    cases h
  | cons entry rest ih =>
    intro c h
    obtain ⟨around, call⟩ := entry
    rcases List.mem_append.mp h with h | h
    · cases call with
      | accept batch => exact ready_of_mem_steps batch _ h
      | flushExpired => simp [Call.moves, steps_singleton] at h
      | shutdown => simp [Call.moves, steps_singleton] at h
    · exact ih _ h

/-! ## Groups of records -/

variable {sink : Sink} {old : List Put} {deeds : List Deed} {c : Coordinator σ}

/-- The coordinator has a ledger in which the records of every buffer fit. -/
def Kept (sink : Sink) (old : List Put) (deeds : List Deed) (c : Coordinator σ) : Prop :=
  ∃ groups active, Ledger sink old deeds c groups active ∧
    ∀ records ∈ active :: groups, sink.limits.Fits records

theorem kept_perform (h : Kept sink old deeds c) {move : Move}
    (hready : ∀ record, move = .add record → c.Ready sink.limits) :
    Kept sink old (deeds ++ (c.perform sink move).deeds) (c.perform sink move).state := by
  obtain ⟨groups, active, hledger, hfits⟩ := h
  obtain ⟨groups', active', hledger', hgroups⟩ := ledger_regroup hledger move
  refine ⟨groups', active', hledger', fun records hmem => ?_⟩
  cases hgroups with
  | still => exact hfits records hmem
  | append record =>
    rcases List.mem_cons.mp hmem with rfl | hmem
    · exact fits_append hledger.holds (hready record rfl) record.terminated
    · exact hfits records (List.mem_cons_of_mem _ hmem)
  | retire =>
    rcases List.mem_cons.mp hmem with rfl | hmem
    · exact sink.limits.fits_nil
    · rcases List.mem_append.mp hmem with hmem | hmem
      · exact hfits records (List.mem_cons_of_mem _ hmem)
      · rw [List.mem_singleton.mp hmem]
        exact hfits active List.mem_cons_self

theorem kept_performAll (moves : List Move) (h : Kept sink old deeds c)
    (hready : ∀ before record, (before, .add record) ∈ c.steps sink moves →
      before.Ready sink.limits) :
    Kept sink old (deeds ++ (c.performAll sink moves).deeds) (c.performAll sink moves).state := by
  induction moves generalizing deeds c with
  | nil => simpa [performAll] using h
  | cons move rest ih =>
    simp only [steps, List.mem_cons] at hready
    have hadd : ∀ record, move = .add record → c.Ready sink.limits := by
      intro record hmove
      exact hready c record (Or.inl (by rw [hmove]))
    have hfirst := kept_perform h hadd
    simp only [performAll]
    cases hout : (c.perform sink move).outcome with
    | error e => exact hfirst
    | ok u =>
      simp only [hout] at hready
      have hrest := ih hfirst fun before record hmem => hready before record (Or.inr hmem)
      rwa [List.append_assoc] at hrest

theorem kept_run (calls : List (Circumstances σ × Call)) (h : Kept sink old deeds c)
    (hready : ∀ before record, (before, .add record) ∈ c.runSteps sink calls →
      before.Ready sink.limits) :
    Kept sink old (deeds ++ (c.run sink calls).deeds) (c.run sink calls).final := by
  induction calls generalizing deeds c with
  | nil => simpa [run] using h
  | cons entry rest ih =>
    obtain ⟨around, call⟩ := entry
    have hamid : Kept sink old deeds (c.amid around) := by
      obtain ⟨groups, active, hledger, hfits⟩ := h
      exact ⟨groups, active, ledger_amid hledger around, hfits⟩
    have hcall := kept_performAll (call.moves sink) hamid fun before record hmem =>
      hready before record (List.mem_append_left _ hmem)
    have hrest := ih hcall fun before record hmem =>
      hready before record (List.mem_append_right _ (by rwa [call_eq]))
    simp only [run, call_eq]
    rwa [List.append_assoc] at hrest

/-- A put offers the records of one buffer, which had one at least. -/
theorem exists_group_of_mem_puts {rs : List Retired} {groups : List (List Bytes)}
    (hheld : List.Forall₂ (Retired.Held sink) rs groups)
    (hcount : ∀ r ∈ rs, r.puts ≠ [] → 0 < r.buffer.count) {put : Put}
    (hput : put ∈ rs.flatMap (·.puts)) :
    ∃ records ∈ groups, records ≠ [] ∧ put.body.content? = some records.flatten := by
  induction hheld with
  | nil => cases hput
  | @cons r records rs groups hr _ ih =>
    rw [List.flatMap_cons] at hput
    rcases List.mem_append.mp hput with hput | hput
    · obtain ⟨name, -, hattempts⟩ := hr.attempts
      have hpos := hcount r List.mem_cons_self (List.ne_nil_of_mem hput)
      rw [hr.holds.count_eq] at hpos
      exact ⟨records, List.mem_cons_self, List.length_pos_iff.mp hpos,
        hattempts.content_eq put hput⟩
    · obtain ⟨found, hmem, hfound⟩ := ih (fun r hr => hcount r (List.mem_cons_of_mem _ hr)) hput
      exact ⟨found, List.mem_cons_of_mem _ hmem, hfound⟩

theorem count_pos_of_puts (h : ∀ deed ∈ deeds, deed.Consistent) {r : Retired}
    (hr : r ∈ retirements deeds) (hputs : r.puts ≠ []) : 0 < r.buffer.count := by
  obtain ⟨deed, hdeed, hretired⟩ := List.mem_filterMap.mp hr
  have hconsistent := h deed hdeed
  cases deed with
  | refused | unopened | appended => cases hretired
  | abandoned record r' =>
    cases hretired
    exact absurd hconsistent hputs
  | uploaded fate r' =>
    cases hretired
    exact hconsistent.1

/-- At every addition of a run the buffer that takes the record is within the limits.
Every body that is offered holds records that were appended one after the other, one
at least, no more than the limit on records, and without the last of them no more
bytes than the limit on bytes. -/
theorem admitted_within_limits (sink : Sink) (world : World σ)
    (calls : List (Circumstances σ × Call)) :
    let history := (start world).run sink calls
    let steps := (start world).runSteps sink calls
    history.deeds = steps.flatMap (fun step => (step.1.perform sink step.2).deeds) ∧
    (∀ c record b opened, (c, .add record) ∈ steps → c.takeBuffer sink = (.ok b, opened) →
      (0 < sink.limits.events → b.count < sink.limits.events) ∧ b.size ≤ sink.limits.bytes ∧
        (b.snapshot c.now).age ≤ sink.limits.age) ∧
    ∀ put ∈ world.putsUntil history.final.world,
      ∃ records, records <:+: (appended history.deeds).map Bytes.terminated ∧ records ≠ [] ∧
        put.body.content? = some records.flatten ∧
        (0 < sink.limits.events → records.length ≤ sink.limits.events) ∧
        records.dropLast.flatten.length ≤ sink.limits.bytes := by
  intro history steps
  refine ⟨deeds_run sink calls (start world), ?_, ?_⟩
  · intro c record b opened hmem htake
    have hadmits := admits_of_ready (ready_of_mem_runSteps calls _ hmem) htake
    exact ⟨hadmits.count_lt, hadmits.size_le, hadmits.age_le⟩
  · intro put hput
    have hstart : Kept sink world.puts.reverse [] (start world) :=
      ⟨[], [], ledger_start sink world, by simpa using sink.limits.fits_nil⟩
    obtain ⟨groups, active, hledger, hfits⟩ := kept_run calls hstart fun before record hmem =>
      ready_of_mem_runSteps calls _ hmem
    rw [List.nil_append] at hledger
    rw [hledger.putsUntil_eq] at hput
    obtain ⟨records, hmem, hne, hcontent⟩ := exists_group_of_mem_puts hledger.retired
      (fun r hr => count_pos_of_puts hledger.consistent hr) hput
    have hfit := hfits records (List.mem_cons_of_mem _ hmem)
    refine ⟨records, ?_, hne, hcontent, hfit.length_le, hfit.size_le⟩
    rw [hledger.appended_eq]
    exact (List.infix_of_mem_flatten hmem).trans (List.prefix_append _ _).isInfix

end Coordinator

end RecordArchive
