import RecordArchive.Proofs.Coordinator.Counting
import RecordArchive.Proofs.Coordinator.Dialogue
import RecordArchive.Proofs.Naming.Distinct
import RecordArchive.Proofs.Sample
import RecordArchive.Proofs.Store.Objects

/-!
# Objects that are never overwritten

Every buffer is uploaded under a name of its own, made with an identifier that is drawn
for it.  Where keys have unique suffixes and no identifier is drawn twice, a put that
succeeds makes a new object, so a store in memory that was empty holds as many objects as
buffers were flushed, each with the bytes that it was uploaded with.  The main statement
is `objects_never_overwritten`.
-/

namespace RecordArchive

/-- Of the first `n` identifiers no two are equal. -/
def Chance.DistinctBelow (chance : Chance) (n : Nat) : Prop :=
  ∀ i j, i < n → j < n → chance.ids i = chance.ids j → i = j

theorem Chance.DistinctBelow.mono {chance : Chance} {m n : Nat} (h : chance.DistinctBelow n)
    (hmn : m ≤ n) : chance.DistinctBelow m :=
  fun i j hi hj => h i j (Nat.lt_of_lt_of_le hi hmn) (Nat.lt_of_lt_of_le hj hmn)

/-- A put was made for a buffer for which one of the first `drawn` identifiers was drawn. -/
def Put.Stamped (sink : Sink) (chance : Chance) (drawn : Nat) (put : Put) : Prop :=
  ∃ i now, i < drawn ∧ put.name = ⟨sink.bucket, sink.namer.key now (chance.ids i)⟩

theorem Put.Stamped.mono {sink : Sink} {chance : Chance} {m n : Nat} {put : Put}
    (h : Put.Stamped sink chance m put) (hmn : m ≤ n) : Put.Stamped sink chance n put := by
  obtain ⟨i, now, hi, hname⟩ := h
  exact ⟨i, now, Nat.lt_of_lt_of_le hi hmn, hname⟩

namespace Coordinator

variable {σ : Type}

section Drawing

variable [ObjectStore σ] {sink : Sink}

theorem flush_chance (w : World σ) (retrier : Retrier) (name : ObjectName) (b : Buffer) :
    (w.flush retrier name b).2.chance = w.chance ∧
      (w.flush retrier name b).2.idsDrawn = w.idsDrawn := by
  unfold World.flush
  cases b.finish w.staging with
  | mk finished staging => cases finished <;> exact ⟨rfl, rfl⟩

/-- One identifier is drawn for a buffer with records, and none for one without. -/
theorem retire_chance (sink : Sink) (b : Buffer) (c : Coordinator σ) :
    (retire sink b c).2.world.chance = c.world.chance ∧
      (retire sink b c).2.world.idsDrawn = c.world.idsDrawn + if b.count = 0 then 0 else 1 := by
  unfold retire
  by_cases hnone : b.count = 0
  · rw [if_pos hnone, if_pos hnone]
    exact ⟨rfl, rfl⟩
  · rw [if_neg hnone, if_neg hnone]
    obtain ⟨hchance, hdrawn⟩ := flush_chance c.world.drawId.2 sink.retrier (c.uploadName sink) b
    simp only [uploadName] at hchance hdrawn ⊢
    cases hflush : c.world.drawId.2.flush sink.retrier
        ⟨sink.bucket, sink.namer.key c.world.instant c.world.drawId.1⟩ b with
    | mk outcome world =>
      rw [hflush] at hchance hdrawn
      cases outcome <;> exact ⟨hchance, hdrawn⟩

theorem perform_chance (sink : Sink) (c : Coordinator σ) (move : Move) :
    (c.perform sink move).state.world.chance = c.world.chance ∧
      c.world.idsDrawn ≤ (c.perform sink move).state.world.idsDrawn := by
  cases move with
  | refuse dropped => exact ⟨rfl, Nat.le_refl _⟩
  | cut due =>
    rcases perform_cut_cases sink due c with ⟨-, hstill⟩ | ⟨b, _, next, -, -, hretire, hcourse⟩
    · rw [hstill]
      exact ⟨rfl, Nat.le_refl _⟩
    · obtain ⟨hchance, hdrawn⟩ := retire_chance sink b { c with current := none }
      rw [hretire] at hchance hdrawn
      rw [hcourse]
      exact ⟨hchance, hdrawn ▸ Nat.le_add_right _ _⟩
  | add record =>
    show (c.add sink record).2.world.chance = _ ∧ _ ≤ (c.add sink record).2.world.idsDrawn
    rw [add_world]
    exact ⟨rfl, Nat.le_refl _⟩

omit [ObjectStore σ] in
theorem drawn_amid? (c : Coordinator σ) (around : Option (Circumstances σ)) :
    (c.amid? around).world.idsDrawn = c.world.idsDrawn := by
  cases around <;> rfl

theorem drawn_performAmid (sink : Sink) (around : Nat → Option (Circumstances σ))
    (moves : List Move) (c : Coordinator σ) :
    c.world.idsDrawn ≤ (c.performAmid sink around moves).state.world.idsDrawn :=
  @performAmid_invariant σ _ sink (fun _ next => c.world.idsDrawn ≤ next.world.idsDrawn)
    (fun _ next move h => Nat.le_trans h (perform_chance sink next move).2) around
    (fun n _ next h => (drawn_amid? next (around n)).symm ▸ h) moves [] c (Nat.le_refl _)

theorem drawn_runAmid (sink : Sink) (calls : List ((Nat → Option (Circumstances σ)) × Call))
    (c : Coordinator σ) : c.world.idsDrawn ≤ (c.runAmid sink calls).final.world.idsDrawn :=
  @runAmid_invariant σ _ sink (fun _ next => c.world.idsDrawn ≤ next.world.idsDrawn)
    (fun _ next move h => Nat.le_trans h (perform_chance sink next move).2) (fun _ _ _ h => h)
    calls [] c (Nat.le_refl _)

/-- A buffer that is retired is offered under the name that is due. -/
theorem retire_named (sink : Sink) {b : Buffer} {c : Coordinator σ} {records : List Bytes}
    (hb : b.Holds c.world.staging records) :
    ∃ tried, (retire sink b c).2.world.puts = tried ++ c.world.puts ∧
      (∀ put ∈ tried, put.name = c.uploadName sink) ∧ tried.countP Put.succeeded ≤ 1 := by
  unfold retire
  by_cases hnone : b.count = 0
  · rw [if_pos hnone]
    exact ⟨[], rfl, by simp, Nat.zero_le _⟩
  · rw [if_neg hnone]
    obtain ⟨tried, hputs, hattempts, hcount, -⟩ :=
      c.world.drawId.2.flush_offers sink.retrier (c.uploadName sink) (b := b) hb
    have hone : tried.countP Put.succeeded ≤ 1 := by
      rw [hcount]
      unfold timesStored
      split <;> decide
    simp only [uploadName] at hputs hattempts hcount ⊢
    cases hflush : c.world.drawId.2.flush sink.retrier
        ⟨sink.bucket, sink.namer.key c.world.instant c.world.drawId.1⟩ b with
    | mk outcome world =>
      rw [hflush] at hputs
      cases outcome <;> exact ⟨tried, hputs, hattempts.name_eq, hone⟩

end Drawing

/-! ## Objects in a store in memory -/

variable {sink : Sink} {world : World MemoryStore} {deeds : List Deed}
  {c : Coordinator MemoryStore}

theorem recorded_retire (sink : Sink) (b : Buffer) (c : Coordinator MemoryStore) :
    c.world.Recorded (retire sink b c).2.world := by
  unfold retire
  by_cases hnone : b.count = 0
  · rw [if_pos hnone]
    exact World.recorded_refl c.world
  · rw [if_neg hnone]
    have hrecorded : c.world.Recorded (c.world.drawId.2.flush sink.retrier
        ⟨sink.bucket, sink.namer.key c.world.instant c.world.drawId.1⟩ b).2 :=
      World.recorded_flush c.world.drawId.2 sink.retrier _ b
    simp only
    cases hflush : c.world.drawId.2.flush sink.retrier
        ⟨sink.bucket, sink.namer.key c.world.instant c.world.drawId.1⟩ b with
    | mk outcome next =>
      rw [hflush] at hrecorded
      cases outcome <;> exact hrecorded

/-- The objects are those of the puts that were made since a moment, which have different
names as long as no identifier was drawn twice. -/
structure Intact (sink : Sink) (world : World MemoryStore) (tried : List Put)
    (c : Coordinator MemoryStore) : Prop where
  chance_eq : c.world.chance = world.chance
  puts_eq : c.world.puts = tried ++ world.puts
  objects_eq : c.world.store.objects = objectsAfter [] tried
  stamped : ∀ put ∈ tried, Put.Stamped sink world.chance c.world.idsDrawn put
  distinct : world.chance.DistinctBelow c.world.idsDrawn → Distinct tried

variable {tried : List Put}

theorem Intact.frame (h : Intact sink world tried c) {next : Coordinator MemoryStore}
    (hchance : next.world.chance = c.world.chance) (hdrawn : next.world.idsDrawn = c.world.idsDrawn)
    (hputs : next.world.puts = c.world.puts)
    (hobjects : next.world.store.objects = c.world.store.objects) :
    Intact sink world tried next where
  chance_eq := hchance.trans h.chance_eq
  puts_eq := hputs.trans h.puts_eq
  objects_eq := hobjects.trans h.objects_eq
  stamped := hdrawn ▸ h.stamped
  distinct := hdrawn ▸ h.distinct

/-- A name with an identifier that has not been drawn is the name of no object. -/
theorem Intact.spares (h : Intact sink world tried c) (hunique : sink.namer.uniqueSuffix = true)
    (hdistinct : world.chance.DistinctBelow (c.world.idsDrawn + 1)) :
    Spares tried (c.uploadName sink) := by
  intro put hput _ hname
  obtain ⟨i, now, hi, hstamp⟩ := h.stamped put hput
  rw [hstamp, uploadName, ObjectName.mk.injEq] at hname
  have hid := Naming.KeyNamer.id_eq_of_key_eq hunique hname.2
  rw [World.drawId, h.chance_eq] at hid
  have hsame := hdistinct i c.world.idsDrawn (by omega) (by omega) hid
  omega

theorem intact_retire (h : Intact sink world tried c) (hunique : sink.namer.uniqueSuffix = true)
    {b : Buffer} {records : List Bytes} (hb : b.Holds c.world.staging records)
    (hne : records ≠ []) :
    ∃ later, Intact sink world (later ++ tried) (retire sink b c).2 ∧
      (∀ put ∈ later, put.name = c.uploadName sink) ∧
      (retire sink b c).2.world.idsDrawn = c.world.idsDrawn + 1 := by
  obtain ⟨hchance, hdrawn⟩ := retire_chance sink b c
  obtain ⟨later, hputs, hnames, hone⟩ := retire_named sink (c := c) hb
  obtain ⟨later', hputs', hobjects⟩ := recorded_retire sink b c
  obtain rfl : later' = later := List.append_cancel_right (hputs'.symm.trans hputs)
  have hpos : b.count ≠ 0 := by
    rw [hb.count_eq]
    exact fun hnone => hne (List.eq_nil_of_length_eq_zero hnone)
  rw [if_neg hpos] at hdrawn
  refine ⟨later', ⟨hchance.trans h.chance_eq, ?_, ?_, fun put hput => ?_, fun hdistinct => ?_⟩,
    hnames, hdrawn⟩
  · rw [hputs, h.puts_eq, List.append_assoc]
  · rw [hobjects, h.objects_eq, objectsAfter_append]
  · rcases List.mem_append.mp hput with hput | hput
    · refine ⟨c.world.idsDrawn, c.world.instant, by omega, ?_⟩
      rw [hnames put hput, uploadName, World.drawId, h.chance_eq]
    · exact (h.stamped put hput).mono (by omega)
  · rw [hdrawn] at hdistinct
    exact distinct_append (h.distinct (hdistinct.mono (by omega)))
      (h.spares hunique hdistinct) hnames hone

/-! ## Moves -/

/-- A move leaves the store alone, or puts an object there under a name that is new. -/
theorem intact_perform (h : Intact sink world tried c) (hunique : sink.namer.uniqueSuffix = true)
    {active : List Bytes} (hactive : c.Holds active) (move : Move) :
    ∃ later, Intact sink world (later ++ tried) (c.perform sink move).state ∧
      (world.chance.DistinctBelow (c.perform sink move).state.world.idsDrawn →
        ∀ put ∈ later, c.world.store.object? put.name = none) := by
  cases move with
  | refuse dropped => exact ⟨[], h.frame rfl rfl rfl rfl, by simp⟩
  | add record =>
    refine ⟨[], ?_, by simp⟩
    show Intact sink world tried (c.add sink record).2
    rw [add_world]
    exact h.frame rfl rfl rfl rfl
  | cut due =>
    rcases perform_cut_cases sink due c with ⟨-, hstill⟩ | ⟨b, _, next, hcur, -, hretire, hcourse⟩
    · rw [hstill]
      exact ⟨[], h, by simp⟩
    · obtain ⟨hne, hb⟩ := hactive.of_some hcur
      obtain ⟨later, hintact, hnames, hdrawn⟩ :=
        intact_retire (c := { c with current := none }) (h.frame rfl rfl rfl rfl) hunique hb hne
      rw [hretire] at hintact hdrawn
      rw [hcourse]
      refine ⟨later, hintact, fun hdistinct put hput => ?_⟩
      have hspares : Spares tried (c.uploadName sink) := h.spares hunique (hdrawn ▸ hdistinct)
      rw [hnames put hput, MemoryStore.object?, h.objects_eq]
      exact find?_objectsAfter_of_spares hspares

/-- The store is intact, and a ledger is kept. -/
def Guarded (sink : Sink) (world : World MemoryStore) (deeds : List Deed)
    (c : Coordinator MemoryStore) : Prop :=
  (∃ groups active, Ledger sink world.puts.reverse deeds c groups active) ∧
    ∃ tried, Intact sink world tried c

/-- Every object that was put between two moments is a new one. -/
def Adds (c next : Coordinator MemoryStore) : Prop :=
  ∀ put ∈ c.world.putsUntil next.world, put.succeeded = true →
    c.world.store.object? put.name = none

/-- The store has one object for each buffer that was flushed, and under the name of every
put that succeeded the bytes that were put. -/
def Safe (world : World MemoryStore) (c : Coordinator MemoryStore) : Prop :=
  c.world.store.size = c.tally.buffersFlushed ∧
    ∀ put ∈ world.putsUntil c.world, put.succeeded = true →
      ∃ content, put.body.content? = some content ∧
        c.world.store.object? put.name = some content

theorem guarded_perform (hunique : sink.namer.uniqueSuffix = true)
    (h : Guarded sink world deeds c) (move : Move) :
    Guarded sink world (deeds ++ (c.perform sink move).deeds) (c.perform sink move).state := by
  obtain ⟨⟨groups, active, hledger⟩, tried, hintact⟩ := h
  obtain ⟨later, hnext, -⟩ := intact_perform hintact hunique hledger.holds move
  exact ⟨ledger_perform hledger move, later ++ tried, hnext⟩

theorem adds_perform (hunique : sink.namer.uniqueSuffix = true) (h : Guarded sink world deeds c)
    (move : Move)
    (hdistinct : world.chance.DistinctBelow (c.perform sink move).state.world.idsDrawn) :
    Adds c (c.perform sink move).state := by
  obtain ⟨⟨groups, active, hledger⟩, tried, hintact⟩ := h
  obtain ⟨later, hnext, hnew⟩ := intact_perform hintact hunique hledger.holds move
  have hputs : (c.perform sink move).state.world.puts = later ++ c.world.puts := by
    rw [hnext.puts_eq, hintact.puts_eq, List.append_assoc]
  intro put hput _
  rw [World.putsUntil_eq hputs] at hput
  exact hnew hdistinct put (List.mem_reverse.mp hput)

theorem safe_of_guarded (h : Guarded sink world deeds c)
    (hdistinct : world.chance.DistinctBelow c.world.idsDrawn) : Safe world c := by
  obtain ⟨⟨groups, active, hledger⟩, tried, hintact⟩ := h
  have hputs := World.putsUntil_eq hintact.puts_eq
  have hflushed := (flushed_foldl hledger.consistent {}).1
  rw [← hledger.tally_eq, ← hledger.putsUntil_eq, hputs, List.countP_reverse] at hflushed
  refine ⟨?_, fun put hput hstored => ?_⟩
  · rw [MemoryStore.size, hintact.objects_eq, length_objectsAfter (hintact.distinct hdistinct),
      hflushed]
    exact (Nat.zero_add _).symm
  · have hmade := hput
    rw [hledger.putsUntil_eq, List.mem_flatMap] at hmade
    obtain ⟨r, hr, hmade⟩ := hmade
    obtain ⟨records, hheld⟩ := Retired.held_of_mem hledger.retired hr
    obtain ⟨name, -, hattempts⟩ := hheld.attempts
    have hcontent := hattempts.content_eq put hmade
    rw [hputs, List.mem_reverse] at hput
    refine ⟨records.flatten, hcontent, ?_⟩
    rw [MemoryStore.object?, hintact.objects_eq,
      find?_objectsAfter (hintact.distinct hdistinct) hput hstored, hcontent, Option.getD_some]

/-! ## Runs -/

section Steps

variable {σ : Type} [ObjectStore σ]

/-- The moves that are made up to the first that fails, each with the coordinator that makes
it, in the surroundings that the move finds. -/
def stepsAmid (sink : Sink) (around : Nat → Option (Circumstances σ)) :
    List Move → Coordinator σ → List (Coordinator σ × Move)
  | [], _ => []
  | move :: rest, c =>
    let found := c.amid? (around 0)
    (found, move) :: match (found.perform sink move).outcome with
      | .error _ => []
      | .ok () => stepsAmid sink (fun n => around (n + 1)) rest (found.perform sink move).state

/-- The moves that a run makes, each with the coordinator that makes it. -/
def runStepsAmid (sink : Sink) :
    List ((Nat → Option (Circumstances σ)) × Call) → Coordinator σ → List (Coordinator σ × Move)
  | [], _ => []
  | (around, call) :: rest, c =>
    let begun := c.amid? (around 0)
    begun.stepsAmid sink (fun n => around (n + 1)) (call.moves sink) ++
      runStepsAmid sink rest
        (begun.performAmid sink (fun n => around (n + 1)) (call.moves sink)).state

end Steps

/-- New surroundings, where there are any, have the objects that were there. -/
def Spared (c : Coordinator MemoryStore) (around : Option (Circumstances MemoryStore)) : Prop :=
  ∀ new, around = some new → new.store.objects = c.world.store.objects

/-- Each of the moves finds the objects in the store as the one before has left them. -/
def MovesSheltered (sink : Sink) (around : Nat → Option (Circumstances MemoryStore)) :
    List Move → Coordinator MemoryStore → Prop
  | [], _ => True
  | move :: rest, c =>
    let course := (c.amid? (around 0)).perform sink move
    c.Spared (around 0) ∧ (course.outcome = .ok () →
      MovesSheltered sink (fun n => around (n + 1)) rest course.state)

theorem spared_some {around : Circumstances MemoryStore}
    (h : around.store.objects = c.world.store.objects) : c.Spared (some around) :=
  fun _ hnew => Option.some.inj hnew ▸ h

theorem movesSheltered_none (sink : Sink) (moves : List Move) (c : Coordinator MemoryStore) :
    c.MovesSheltered sink (fun _ => none) moves := by
  induction moves generalizing c with
  | nil => trivial
  | cons move rest ih => exact ⟨nofun, fun _ => ih _⟩

/-- Between its calls, and in the middle of them, a run finds the objects in the store as it
left them.  Anything else may change: the time, the disk, and how many puts are to fail. -/
def Sheltered (sink : Sink) :
    List ((Nat → Option (Circumstances MemoryStore)) × Call) → Coordinator MemoryStore → Prop
  | [], _ => True
  | (around, call) :: rest, c =>
    let begun := c.amid? (around 0)
    c.Spared (around 0) ∧
      begun.MovesSheltered sink (fun n => around (n + 1)) (call.moves sink) ∧
      Sheltered sink rest
        (begun.performAmid sink (fun n => around (n + 1)) (call.moves sink)).state

theorem guarded_start (hempty : world.store.objects = []) : Guarded sink world [] (start world) :=
  ⟨⟨[], [], ledger_start sink world⟩, [], rfl, rfl, hempty, by simp, fun _ => .nil⟩

theorem guarded_amid? (h : Guarded sink world deeds c)
    {around : Option (Circumstances MemoryStore)} (hspared : c.Spared around) :
    Guarded sink world deeds (c.amid? around) := by
  obtain ⟨⟨groups, active, hledger⟩, tried, hintact⟩ := h
  refine ⟨⟨groups, active, ledger_amid? hledger around⟩, tried, ?_⟩
  cases around with
  | none => exact hintact
  | some new => exact hintact.frame rfl rfl rfl (hspared new rfl)

/-- A coordinator that is guarded makes this move, and draws no more than so many identifiers
with it. -/
def GuardedStep (sink : Sink) (world : World MemoryStore) (drawn : Nat)
    (entry : Coordinator MemoryStore × Move) : Prop :=
  (∃ deeds, Guarded sink world deeds entry.1) ∧
    (entry.1.perform sink entry.2).state.world.idsDrawn ≤ drawn

theorem GuardedStep.mono {entry : Coordinator MemoryStore × Move} {m n : Nat}
    (h : GuardedStep sink world m entry) (hmn : m ≤ n) : GuardedStep sink world n entry :=
  ⟨h.1, Nat.le_trans h.2 hmn⟩

/-- Moves that find the objects as they were left are made by guarded coordinators and leave
one. -/
theorem guarded_performAmid (hunique : sink.namer.uniqueSuffix = true) (moves : List Move)
    (around : Nat → Option (Circumstances MemoryStore)) (h : Guarded sink world deeds c)
    (hsheltered : c.MovesSheltered sink around moves) :
    Guarded sink world (deeds ++ (c.performAmid sink around moves).deeds)
        (c.performAmid sink around moves).state ∧
      ∀ entry ∈ c.stepsAmid sink around moves,
        GuardedStep sink world (c.performAmid sink around moves).state.world.idsDrawn entry := by
  induction moves generalizing around deeds c with
  | nil =>
    refine ⟨?_, fun entry hentry => absurd hentry List.not_mem_nil⟩
    simpa [performAmid] using h
  | cons move rest ih =>
    obtain ⟨hspared, hrest⟩ := hsheltered
    have hfound := guarded_amid? h hspared
    have hmove := guarded_perform hunique hfound move
    simp only [performAmid, stepsAmid, List.forall_mem_cons]
    cases hout : ((c.amid? (around 0)).perform sink move).outcome with
    | error e =>
      exact ⟨hmove, ⟨⟨deeds, hfound⟩, Nat.le_refl _⟩, List.forall_mem_nil _⟩
    | ok u =>
      obtain ⟨hlater, hsteps⟩ := ih (fun n => around (n + 1)) hmove (hrest hout)
      simp only
      rw [← List.append_assoc]
      exact ⟨hlater, ⟨⟨deeds, hfound⟩, drawn_performAmid sink _ rest _⟩, hsteps⟩

theorem guarded_runAmid (hunique : sink.namer.uniqueSuffix = true)
    (calls : List ((Nat → Option (Circumstances MemoryStore)) × Call))
    (h : Guarded sink world deeds c) (hsheltered : Sheltered sink calls c) :
    Guarded sink world (deeds ++ (c.runAmid sink calls).deeds) (c.runAmid sink calls).final ∧
      ∀ entry ∈ c.runStepsAmid sink calls,
        GuardedStep sink world (c.runAmid sink calls).final.world.idsDrawn entry := by
  induction calls generalizing deeds c with
  | nil =>
    refine ⟨?_, fun entry hentry => absurd hentry List.not_mem_nil⟩
    simpa [runAmid] using h
  | cons first rest ih =>
    obtain ⟨around, call⟩ := first
    obtain ⟨hspared, hmoves, hrest⟩ := hsheltered
    obtain ⟨hcall, hsteps⟩ := guarded_performAmid hunique (call.moves sink)
      (fun n => around (n + 1)) (guarded_amid? h hspared) hmoves
    obtain ⟨hlater, hlaterSteps⟩ := ih hcall hrest
    simp only [runAmid, runStepsAmid]
    rw [← List.append_assoc]
    refine ⟨hlater, fun entry hentry => ?_⟩
    rcases List.mem_append.mp hentry with hentry | hentry
    · exact (hsteps entry hentry).mono (drawn_runAmid sink rest _)
    · exact hlaterSteps entry hentry

/-- Keys with unique suffixes tell their identifiers apart, so a run that draws no
identifier twice never overwrites an object, whatever else changes around its moves.  From an
empty store on, every put that succeeds makes a new object, and after every move there are as
many objects as buffers were flushed, each with the bytes that were put. -/
theorem objects_never_overwritten :
    (∀ namer : Naming.KeyNamer, namer.uniqueSuffix = true → ∀ now now' id id',
      namer.key now id = namer.key now' id' → id = id') ∧
    ∀ (sink : Sink) (world : World MemoryStore)
      (calls : List ((Nat → Option (Circumstances MemoryStore)) × Call)),
      sink.namer.uniqueSuffix = true → world.store.objects = [] →
      Sheltered sink calls (start world) →
      world.chance.DistinctBelow ((start world).runAmid sink calls).final.world.idsDrawn →
      (∀ entry ∈ (start world).runStepsAmid sink calls,
        Adds entry.1 (entry.1.perform sink entry.2).state ∧
          Safe world (entry.1.perform sink entry.2).state) ∧
      Safe world ((start world).runAmid sink calls).final := by
  refine ⟨fun namer hunique _ _ _ _ h => Naming.KeyNamer.id_eq_of_key_eq hunique h, ?_⟩
  intro sink world calls hunique hempty hsheltered hdistinct
  obtain ⟨hfinal, hsteps⟩ :=
    guarded_runAmid hunique calls (guarded_start hempty) hsheltered
  refine ⟨fun entry hentry => ?_, safe_of_guarded hfinal hdistinct⟩
  obtain ⟨⟨deeds, hguarded⟩, hdrawn⟩ := hsteps entry hentry
  have hbelow := hdistinct.mono hdrawn
  exact ⟨adds_perform hunique hguarded entry.2 hbelow,
    safe_of_guarded (guarded_perform hunique hguarded entry.2) hbelow⟩

/-- Two buffers are flushed, one by the record after it and one at the end. -/
theorem objects_never_overwritten_sample :
    let first : List ((Nat → Option (Circumstances MemoryStore)) × Call) :=
      [(throughout Sample.calm, .accept [Sample.record "a", Sample.record "b"])]
    let left := ((start Sample.world).runAmid Sample.sink first).final.world.store
    let calls := first ++ [(throughout { Sample.calm with store := left }, .shutdown)]
    let final := ((start Sample.world).runAmid Sample.sink calls).final
    Sheltered Sample.sink calls (start Sample.world) ∧
      Sample.world.chance.DistinctBelow final.world.idsDrawn ∧ Safe Sample.world final ∧
      final.world.store.size = 2 := by
  intro first left calls final
  have hsheltered : Sheltered Sample.sink calls (start Sample.world) :=
    ⟨spared_some rfl, movesSheltered_none .., spared_some rfl, movesSheltered_none .., trivial⟩
  have hdistinct : Sample.world.chance.DistinctBelow final.world.idsDrawn := by
    have hdrawn : final.world.idsDrawn = 2 := rfl
    intro i j hi hj h
    rw [hdrawn] at hi hj
    have hbits : i % (1 <<< 122) = j % (1 <<< 122) := congrArg Naming.Uuid.bits h
    rwa [Nat.mod_eq_of_lt (Nat.lt_trans hi (by decide)),
      Nat.mod_eq_of_lt (Nat.lt_trans hj (by decide))] at hbits
  have hsafe := (objects_never_overwritten.2 Sample.sink Sample.world calls rfl rfl hsheltered
    hdistinct).2
  exact ⟨hsheltered, hdistinct, hsafe, hsafe.1⟩

end Coordinator

end RecordArchive
