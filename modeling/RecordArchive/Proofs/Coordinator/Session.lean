import Mathlib.Data.List.Forall2
import RecordArchive.Proofs.Coordinator.Calm
import RecordArchive.Proofs.Coordinator.Partition
import RecordArchive.Proofs.Sample

/-!
# Whole sessions

A session accepts batches and is shut down.  The main statement is
`session_partition`: where nothing fails, the objects, the totals and the summaries
are those of the partition of the stream, so they do not depend on how the stream
came in batches.  The coordinator is followed through the stream, with `Tracks`
between what it holds and where the partition stands.
-/

namespace RecordArchive

instance : Add Summary where
  add a b := ⟨a.appended + b.appended, a.dropped + b.dropped, a.flushes + b.flushes,
    a.encodeFailures + b.encodeFailures⟩

namespace Summary

theorem add_refuse (a b : Summary) (n : Nat) : (a + b).refuse n = a + b.refuse n := by
  show Summary.mk _ _ _ _ = Summary.mk _ _ _ _
  rw [Summary.mk.injEq]
  exact ⟨rfl, Nat.add_assoc _ _ _, rfl, rfl⟩

theorem add_cut_add (a b : Summary) (flushed added : Bool) :
    ((a + b).cut flushed).add added = a + (b.cut flushed).add added := by
  cases flushed <;> cases added <;> rfl

end Summary

/-- The records of batches, each with the time at which its batch is accepted. -/
def arrivals {σ : Type} (calls : List (Circumstances σ × List Record)) :
    List (Duration × Record) :=
  calls.flatMap fun call => call.2.map fun record => (call.1.clock.now, record)

namespace Sink

/-- The records that can be encoded, as bytes. -/
def stream (sink : Sink) (arrivals : List (Duration × Record)) : List (Duration × Bytes) :=
  arrivals.filterMap fun arrival =>
    (sink.codec.encode arrival.2).toOption.map fun bytes => (arrival.1, bytes)

/-- Whether no record of a batch keeps the others from being accepted. -/
def Takes (sink : Sink) (records : List Record) : Prop :=
  sink.policy = .skip ∨ ∀ record ∈ records, ∃ bytes, sink.codec.encode record = .ok bytes

theorem length_stream_le (sink : Sink) (arrivals : List (Duration × Record)) :
    (sink.stream arrivals).length ≤ arrivals.length := List.length_filterMap_le ..

theorem stream_snoc_ok {sink : Sink} {record : Record} {bytes : Bytes}
    (h : sink.codec.encode record = .ok bytes) (arrivals : List (Duration × Record))
    (now : Duration) :
    sink.stream (arrivals ++ [(now, record)]) = sink.stream arrivals ++ [(now, bytes)] := by
  simp [stream, h, Except.toOption]

theorem stream_snoc_error {sink : Sink} {record : Record} {fault : EncodeFault}
    (h : sink.codec.encode record = .error fault) (arrivals : List (Duration × Record))
    (now : Duration) : sink.stream (arrivals ++ [(now, record)]) = sink.stream arrivals := by
  simp [stream, h, Except.toOption]

theorem refused_snoc_ok (sink : Sink) (arrivals : List (Duration × Record)) (now : Duration)
    (record : Record) (bytes : Bytes) :
    (arrivals ++ [(now, record)]).length - (sink.stream arrivals ++ [(now, bytes)]).length =
      arrivals.length - (sink.stream arrivals).length := by
  simp only [List.length_append, List.length_singleton]
  omega

theorem refused_snoc_error (sink : Sink) (arrivals : List (Duration × Record)) (now : Duration)
    (record : Record) :
    (arrivals ++ [(now, record)]).length - (sink.stream arrivals).length =
      arrivals.length - (sink.stream arrivals).length + 1 := by
  have hle := sink.length_stream_le arrivals
  rw [List.length_append, List.length_singleton]
  omega

end Sink

namespace Coordinator

variable {σ : Type}

/-! ## One record -/

variable {ready : σ → Prop} {c : Coordinator σ} {sink : Sink}

/-- The active buffer is the last group, or there is neither. -/
def Works (kind : BufferKind) (c : Coordinator σ) : Option Group → Prop
  | none => c.current = none
  | some group => ∃ b, c.current = some b ∧ b.createdAt = group.begun ∧ group.records ≠ [] ∧
      b.Holds c.world.staging group.records ∧ b.Sound kind

theorem works_amid {kind : BufferKind} {group? : Option Group} (h : c.Works kind group?)
    (around : Circumstances σ) : (c.amid around).Works kind group? := by
  cases group? with
  | none => exact h
  | some group =>
    obtain ⟨b, hcur, hbegun, hne, hb, hsound⟩ := h
    exact ⟨b, hcur, hbegun, hne, Buffer.holds_congr hb rfl, hsound⟩

theorem shouldFlush_eq_isFull {limits : Limits} {group : Group} {b : Buffer} {s : Staging}
    (hlength : 0 < limits.events → group.records.length ≤ limits.events)
    (hbegun : b.createdAt = group.begun) (hb : b.Holds s group.records) (now : Duration) :
    limits.shouldFlush (b.snapshot now) = limits.isFull group now := by
  rw [Bool.eq_iff_iff]
  simp only [Limits.shouldFlush, Limits.countsEvents, Limits.isExpired, Limits.isFull,
    Buffer.snapshot, hb.count_eq, hb.size_eq, hbegun, Bool.or_eq_true, Bool.and_eq_true,
    decide_eq_true_eq, beq_iff_eq]
  constructor
  · rintro ((⟨hpos, hfull⟩ | hold) | hlarge)
    · exact Or.inl (Or.inl ⟨hpos, by have := hlength hpos; omega⟩)
    · exact Or.inr hold
    · exact Or.inl (Or.inr hlarge)
  · rintro ((⟨hpos, hfull⟩ | hlarge) | hold)
    · exact Or.inl (Or.inl ⟨hpos, by omega⟩)
    · exact Or.inr hlarge
    · exact Or.inl (Or.inr hold)

/-- A record joins the last group, or it is the first of another. -/
theorem add_of_calm (group? : Option Group) (hc : c.world.Calm sink.kind ready)
    (hw : c.Works sink.kind group?) {record : Bytes} (hline : record.endsLine = true) :
    ∃ next, c.add sink record = (true, next) ∧
      next.tally = { c.tally with eventsAccepted := c.tally.eventsAccepted + 1 } ∧
      next.world.puts = c.world.puts ∧ next.world.clock = c.world.clock ∧
      next.world.Calm sink.kind ready ∧
      next.Works sink.kind (some (Group.joined c.now record group?)) := by
  have hended : record.terminated = record := by rw [Bytes.terminated, if_pos hline]
  cases group? with
  | none =>
    obtain ⟨b, s, hnew, hsound, hserves⟩ := Buffer.create_of_serves hc.serves c.now
    obtain ⟨b', s', happend, hsound', hserves'⟩ := Buffer.append_of_serves hsound hserves record
    have hcreated := (Buffer.createdAt_append happend).trans (Buffer.createdAt_create hnew)
    have hb := Buffer.holds_append (Buffer.holds_create hnew) happend
    rw [hended] at hb
    have hcur : c.current = none := hw
    unfold add append takeBuffer
    simp only [hcur, hnew, happend]
    exact ⟨_, rfl, rfl, rfl, rfl, ⟨hc.uncancelled, hc.ready, hserves'⟩,
      b', rfl, hcreated, List.cons_ne_nil _ _, hb, hsound'⟩
  | some group =>
    obtain ⟨b, hcur, hbegun, hne, hb, hsound⟩ := hw
    obtain ⟨b', s', happend, hsound', hserves'⟩ := Buffer.append_of_serves hsound hc.serves record
    have hcreated := (Buffer.createdAt_append happend).trans hbegun
    have hb' := Buffer.holds_append hb happend
    rw [hended] at hb'
    unfold add append takeBuffer
    simp only [hcur, happend]
    exact ⟨_, rfl, rfl, rfl, rfl, ⟨hc.uncancelled, hc.ready, hserves'⟩,
      b', rfl, hcreated, List.concat_ne_nil _ _, hb', hsound'⟩

/-! ## What is counted and stored -/

/-- The totals when so many records were accepted and refused, and these groups are
stored. -/
def totals (accepted refused : Nat) (closed : List (List Bytes)) : Tally where
  eventsAccepted := accepted
  eventsDropped := refused
  encodeFailures := refused
  buffersFlushed := closed.length
  eventsFlushed := closed.flatten.length
  bytesFlushed := closed.flatten.flatten.length

theorem flushed_totals {accepted refused : Nat} {closed : List (List Bytes)} {b : Buffer}
    {s : Staging} {records : List Bytes} (hb : b.Holds s records) :
    (totals accepted refused closed).flushed b = totals accepted refused (closed ++ [records]) := by
  simp [totals, Tally.flushed, hb.count_eq, hb.size_eq]

theorem stored_eq {before after : World σ} {made : List Put} {groups : List (List Bytes)}
    (hmade : after.puts.reverse = before.puts.reverse ++ made)
    (hstores : List.Forall₂ (fun put records => put.Stores records.flatten) made groups) :
    before.stored after = groups.map List.flatten := by
  have hputs : after.puts = made.reverse ++ before.puts := by
    rw [← List.reverse_reverse after.puts, hmade, List.reverse_append, List.reverse_reverse]
  unfold World.stored
  rw [World.putsUntil_eq hputs, List.reverse_reverse]
  clear hmade hputs
  induction hstores with
  | nil => rfl
  | cons hput _ ih =>
    obtain ⟨hcontent, hout⟩ := hput
    simp [Put.succeeded, hout, hcontent, ih]

/-- The coordinator stands where the partition stands: every group but the last is
stored, the last one is the active buffer, and everything is counted. -/
structure Tracks (sink : Sink) (old : List Put) (arrivals : List (Duration × Record))
    (told : Summary) (c : Coordinator σ) : Prop where
  works : c.Works sink.kind (sink.limits.groups (sink.stream arrivals)).head?
  puts : ∃ made, c.world.puts.reverse = old ++ made ∧
    List.Forall₂ (fun put records => put.Stores records.flatten) made
      (sink.limits.closed (sink.stream arrivals))
  tally_eq : c.tally = totals (sink.stream arrivals).length
    (arrivals.length - (sink.stream arrivals).length) (sink.limits.closed (sink.stream arrivals))
  told_eq : told = ⟨(sink.stream arrivals).length,
    arrivals.length - (sink.stream arrivals).length,
    (sink.limits.closed (sink.stream arrivals)).length,
    arrivals.length - (sink.stream arrivals).length⟩

variable {old : List Put} {arrivals : List (Duration × Record)} {told : Summary}

theorem tracks_start (sink : Sink) (world : World σ) :
    Tracks sink world.puts.reverse [] {} (start world) :=
  ⟨rfl, ⟨[], by simp [start], .nil⟩, rfl, rfl⟩

theorem tracks_amid (h : Tracks sink old arrivals told c) (around : Circumstances σ) :
    Tracks sink old arrivals told (c.amid around) :=
  ⟨works_amid h.works around, h.puts, h.tally_eq, h.told_eq⟩

theorem tracks_refuse (h : Tracks sink old arrivals told c) {record : Record}
    {fault : EncodeFault} (hcode : sink.codec.encode record = .error fault) (now : Duration) :
    Tracks sink old (arrivals ++ [(now, record)]) (told.refuse 1) (c.refuse 1) := by
  have hrefused := sink.refused_snoc_error arrivals now record
  constructor
  · rw [Sink.stream_snoc_error hcode]
    exact h.works
  · rw [Sink.stream_snoc_error hcode]
    exact h.puts
  · rw [Sink.stream_snoc_error hcode, hrefused, refuse, h.tally_eq]
    rfl
  · rw [Sink.stream_snoc_error hcode, hrefused, h.told_eq]
    rfl

theorem exists_last_of_current (h : Tracks sink old arrivals told c) {b : Buffer}
    (hcur : c.current = some b) :
    ∃ group, (sink.limits.groups (sink.stream arrivals)).head? = some group ∧
      group.records ≠ [] ∧ b.Holds c.world.staging group.records ∧ b.Sound sink.kind ∧
      sink.limits.shouldFlush (b.snapshot c.now) = sink.limits.isFull group c.now := by
  have hworks := h.works
  cases hhead : (sink.limits.groups (sink.stream arrivals)).head? with
  | none =>
    rw [hhead] at hworks
    exact absurd (hworks.symm.trans hcur) (by simp)
  | some group =>
    rw [hhead] at hworks
    obtain ⟨b', hcur', hbegun, hne, hb, hsound⟩ := hworks
    obtain rfl : b' = b := Option.some.inj (hcur'.symm.trans hcur)
    have hmem := List.mem_of_mem_head? (Option.mem_def.mpr hhead)
    exact ⟨group, rfl, hne, hb, hsound, shouldFlush_eq_isFull
      (fun hpos => Limits.length_le_of_mem_groups hpos hmem) hbegun hb c.now⟩

/-- A record that finds the last group not full goes into the active buffer. -/
theorem tracks_joined (hc : c.world.Calm sink.kind ready) (h : Tracks sink old arrivals told c)
    {record : Record} {bytes : Bytes} (hcode : sink.codec.encode record = .ok bytes)
    (hdue : ∀ b, c.current = some b → sink.limits.shouldFlush (b.snapshot c.now) = false) :
    ∃ next, c.add sink bytes = (true, next) ∧ next.world.Calm sink.kind ready ∧
      next.now = c.now ∧ Tracks sink old (arrivals ++ [(c.now, record)]) (told.add true) next := by
  obtain ⟨next, hadd, htally, hputs, hclock, hcalm, hworks⟩ :=
    add_of_calm _ hc h.works (Codec.endsLine_encode hcode)
  have hnot : ∀ group ∈ (sink.limits.groups (sink.stream arrivals)).head?,
      sink.limits.isFull group c.now = false := by
    intro group hgroup
    have hworks := h.works
    rw [Option.mem_def.mp hgroup] at hworks
    obtain ⟨b, hcur, -⟩ := hworks
    obtain ⟨group', hhead, -, -, -, hfull⟩ := exists_last_of_current h hcur
    obtain rfl : group' = group := Option.some.inj (hhead.symm.trans (Option.mem_def.mp hgroup))
    rw [← hfull]
    exact hdue b hcur
  obtain ⟨hclosed, hhead⟩ := Limits.closed_snoc_of_not_full (c.now, bytes) hnot
  have hrefused := sink.refused_snoc_ok arrivals c.now record bytes
  refine ⟨next, hadd, hcalm, congrArg Clock.now hclock, ?_⟩
  constructor
  · rw [Sink.stream_snoc_ok hcode, hhead]
    exact hworks
  · rw [Sink.stream_snoc_ok hcode, hclosed, hputs]
    exact h.puts
  · rw [Sink.stream_snoc_ok hcode, hclosed, hrefused, htally, h.tally_eq, List.length_append]
    rfl
  · rw [Sink.stream_snoc_ok hcode, hclosed, hrefused, h.told_eq, List.length_append]
    rfl

/-! ## Batches -/

section Sessions

variable [ObjectStore σ]

/-- Accepts batches, each in its own surroundings, and adds up what is told of them. -/
def acceptAll (sink : Sink) (told : Summary) :
    List (Circumstances σ × List Record) → Coordinator σ →
      Except ArchiveError Summary × Coordinator σ
  | [], c => (.ok told, c)
  | (around, batch) :: rest, c =>
    match (c.amid around).accept sink batch with
    | (.error e, c) => (.error e, c)
    | (.ok more, c) => acceptAll sink (told + more) rest c

/-- Accepts batches and shuts down. -/
def session (sink : Sink) (calls : List (Circumstances σ × List Record)) (last : Circumstances σ)
    (c : Coordinator σ) : Except ArchiveError (Summary × Tally) × Coordinator σ :=
  match c.acceptAll sink {} calls with
  | (.error e, c) => (.error e, c)
  | (.ok told, c) =>
    match (c.amid last).shutdown sink with
    | (.error e, c) => (.error e, c)
    | (.ok tally, c) => (.ok (told, tally), c)

/-- What is summed up before a batch is added to what is told of it. -/
theorem acceptFrom_add (sink : Sink) (before told : Summary) (records : List Record)
    (c : Coordinator σ) :
    c.acceptFrom sink (before + told) records =
      ((c.acceptFrom sink told records).1.map (before + ·),
        (c.acceptFrom sink told records).2) := by
  induction records generalizing told c with
  | nil => rfl
  | cons record rest ih =>
    unfold acceptFrom
    cases sink.codec.encode record with
    | error fault =>
      cases sink.policy with
      | abort =>
        simp only [Summary.add_refuse]
        rfl
      | skip =>
        simp only [Summary.add_refuse]
        exact ih (told.refuse 1) (c.refuse 1)
    | ok bytes =>
      cases c.flushWhen sink sink.limits.shouldFlush with
      | mk outcome next =>
        cases outcome with
        | error e => rfl
        | ok flushed =>
          simp only [Summary.add_cut_add]
          exact ih _ _

theorem accept_append (sink : Sink) (xs ys : List Record) (c : Coordinator σ)
    (htakes : sink.Takes xs) :
    c.accept sink (xs ++ ys) =
      match c.accept sink xs with
      | (.error e, c) => (.error e, c)
      | (.ok told, c) => ((c.accept sink ys).1.map (told + ·), (c.accept sink ys).2) := by
  -- The loop goes on with what it has told so far, where a second call begins anew.
  have hfrom (told : Summary) : c.acceptFrom sink told (xs ++ ys) =
      match c.acceptFrom sink told xs with
      | (.error e, c) => (.error e, c)
      | (.ok told, c) => c.acceptFrom sink told ys := by
    induction xs generalizing told c with
    | nil => rfl
    | cons record rest ih =>
      have hrest : sink.Takes rest :=
        htakes.imp_right fun h record hmem => h record (List.mem_cons_of_mem _ hmem)
      simp only [List.cons_append, acceptFrom]
      cases hcode : sink.codec.encode record with
      | error fault =>
        rcases htakes with hskip | hall
        · simp only [hskip]
          exact ih _ hrest _
        · obtain ⟨bytes, hok⟩ := hall record List.mem_cons_self
          rw [hcode] at hok
          cases hok
      | ok bytes =>
        simp only
        cases c.flushWhen sink sink.limits.shouldFlush with
        | mk outcome next =>
          cases outcome with
          | error e => rfl
          | ok flushed => exact ih _ hrest _
  unfold accept
  rw [hfrom]
  cases c.acceptFrom sink {} xs with
  | mk outcome next =>
    cases outcome with
    | error e => rfl
    | ok told => exact acceptFrom_add sink told {} ys next

/-- A record that finds the last group full has that group stored and begins another. -/
theorem tracks_begun (hprompt : Prompt ready) (hc : c.world.Calm sink.kind ready)
    (h : Tracks sink old arrivals told c) {record : Record} {bytes : Bytes}
    (hcode : sink.codec.encode record = .ok bytes) {b : Buffer} (hcur : c.current = some b)
    (hdue : sink.limits.shouldFlush (b.snapshot c.now) = true) :
    ∃ cut next, retire sink b { c with current := none } = (.ok (), cut) ∧
      cut.add sink bytes = (true, next) ∧ next.world.Calm sink.kind ready ∧ next.now = c.now ∧
      Tracks sink old (arrivals ++ [(c.now, record)]) ((told.cut true).add true) next := by
  obtain ⟨group, hhead, hne, hb, hsound, hfull⟩ := exists_last_of_current h hcur
  obtain ⟨put, world, hretire, hputs, hstores, hclock, hcalm⟩ :=
    retire_of_calm (c := { c with current := none }) hprompt hc hb hne hsound
  obtain ⟨next, hadd, htally, hputs', hclock', hcalm', hworks⟩ :=
    add_of_calm (c := { c with current := none, world := world, tally := c.tally.flushed b })
      none hcalm rfl (Codec.endsLine_encode hcode)
  obtain ⟨hclosed, hlast⟩ := Limits.closed_snoc_of_full (c.now, bytes) hhead
    (hfull.symm.trans hdue)
  have hrefused := sink.refused_snoc_ok arrivals c.now record bytes
  have hnow : next.now = c.now := congrArg Clock.now (hclock'.trans hclock)
  refine ⟨_, next, hretire, hadd, hcalm', hnow, ?_⟩
  constructor
  · rw [Sink.stream_snoc_ok hcode, hlast]
    have hbegun : world.clock.now = c.now := congrArg Clock.now hclock
    simpa only [now, hbegun, Group.joined] using hworks
  · obtain ⟨made, hmade, hforall⟩ := h.puts
    rw [Sink.stream_snoc_ok hcode, hclosed, hputs', hputs, List.reverse_cons, hmade]
    exact ⟨made ++ [put], List.append_assoc _ _ _,
      List.rel_append hforall (.cons hstores .nil)⟩
  · rw [Sink.stream_snoc_ok hcode, hclosed, hrefused, htally, List.length_append,
      ← flushed_totals hb]
    simp only [h.tally_eq]
    rfl
  · rw [Sink.stream_snoc_ok hcode, hclosed, hrefused, h.told_eq, List.length_append,
      List.length_append]
    rfl

theorem tracks_place (hprompt : Prompt ready) (hc : c.world.Calm sink.kind ready)
    (h : Tracks sink old arrivals told c) {record : Record} {bytes : Bytes}
    (hcode : sink.codec.encode record = .ok bytes) :
    ∃ flushed cut next, c.flushWhen sink sink.limits.shouldFlush = (.ok flushed, cut) ∧
      cut.add sink bytes = (true, next) ∧ next.world.Calm sink.kind ready ∧
      next.now = c.now ∧
      Tracks sink old (arrivals ++ [(c.now, record)]) ((told.cut flushed).add true) next := by
  rcases flushWhen_cases sink sink.limits.shouldFlush c with ⟨hdue, hflush⟩ |
    ⟨b, hcur, hdue, hflush⟩
  · obtain ⟨next, hadd, hcalm, hnow, hnext⟩ := tracks_joined hc h hcode hdue
    exact ⟨false, c, next, hflush, hadd, hcalm, hnow, hnext⟩
  · obtain ⟨cut, next, hretire, hadd, hcalm, hnow, hnext⟩ :=
      tracks_begun hprompt hc h hcode hcur hdue
    rw [hretire] at hflush
    exact ⟨true, cut, next, hflush, hadd, hcalm, hnow, hnext⟩

theorem tracks_acceptFrom (hprompt : Prompt ready) (records : List Record)
    (htakes : sink.Takes records) (hc : c.world.Calm sink.kind ready)
    (h : Tracks sink old arrivals told c) :
    ∃ told' next, c.acceptFrom sink told records = (.ok told', next) ∧
      Tracks sink old (arrivals ++ records.map fun record => (c.now, record)) told' next := by
  induction records generalizing arrivals told c with
  | nil => exact ⟨told, c, rfl, by simpa using h⟩
  | cons record rest ih =>
    have hrest : sink.Takes rest :=
      htakes.imp_right fun h record hmem => h record (List.mem_cons_of_mem _ hmem)
    rw [List.map_cons, List.append_cons]
    unfold acceptFrom
    cases hcode : sink.codec.encode record with
    | error fault =>
      rcases htakes with hskip | hall
      · simp only [hskip]
        exact ih hrest hc (c := c.refuse 1) (tracks_refuse h hcode c.now)
      · obtain ⟨bytes, hok⟩ := hall record List.mem_cons_self
        rw [hcode] at hok
        cases hok
    | ok bytes =>
      obtain ⟨flushed, cut, next, hflush, hadd, hcalm, hnow, hnext⟩ :=
        tracks_place hprompt hc h hcode
      simp only [hflush, hadd, ← hnow]
      rw [← hnow] at hnext
      exact ih hrest hcalm hnext

/-! ## Whole sessions -/

theorem tracks_acceptAll (hprompt : Prompt ready)
    (calls : List (Circumstances σ × List Record))
    (hcalm : ∀ call ∈ calls, call.1.Calm sink.kind ready)
    (htakes : ∀ call ∈ calls, sink.Takes call.2) (h : Tracks sink old arrivals told c) :
    ∃ told' next, c.acceptAll sink told calls = (.ok told', next) ∧
      Tracks sink old (arrivals ++ RecordArchive.arrivals calls) told' next := by
  induction calls generalizing arrivals told c with
  | nil => exact ⟨told, c, rfl, by simpa [RecordArchive.arrivals] using h⟩
  | cons call rest ih =>
    obtain ⟨around, batch⟩ := call
    have hamid := calm_amid (hcalm _ List.mem_cons_self) c
    obtain ⟨told', next, haccept, hnext⟩ := tracks_acceptFrom hprompt batch
      (htakes _ List.mem_cons_self) hamid (tracks_amid h around)
    have hsplit : told + ({} : Summary) = told := rfl
    rw [← hsplit, acceptFrom_add] at haccept
    unfold acceptAll accept
    generalize (c.amid around).acceptFrom sink {} batch = answer at haccept
    obtain ⟨outcome, after⟩ := answer
    obtain ⟨hout, rfl⟩ := Prod.mk.inj haccept
    cases outcome with
    | error e => cases hout
    | ok more =>
      cases hout
      obtain ⟨told', last, hrest, hlast⟩ := ih
        (fun call hmem => hcalm call (List.mem_cons_of_mem _ hmem))
        (fun call hmem => htakes call (List.mem_cons_of_mem _ hmem)) hnext
      rw [List.append_assoc] at hlast
      exact ⟨told', last, hrest, hlast⟩

/-- What is left goes into one more object. -/
theorem shutdown_of_tracks (hprompt : Prompt ready) (hc : c.world.Calm sink.kind ready)
    (h : Tracks sink old arrivals told c) :
    ∃ final, c.shutdown sink =
        (.ok (totals (sink.stream arrivals).length
          (arrivals.length - (sink.stream arrivals).length)
          (sink.limits.partition (sink.stream arrivals))), final) ∧
      ∃ made, final.world.puts.reverse = old ++ made ∧
        List.Forall₂ (fun put records => put.Stores records.flatten) made
          (sink.limits.partition (sink.stream arrivals)) := by
  have hworks := h.works
  obtain ⟨made, hmade, hforall⟩ := h.puts
  rw [Limits.partition_eq]
  unfold shutdown flushWhen
  cases hhead : (sink.limits.groups (sink.stream arrivals)).head? with
  | none =>
    rw [hhead] at hworks
    have hcur : c.current = none := hworks
    simp only [hcur, h.tally_eq, Option.toList_none, List.map_nil, List.append_nil]
    exact ⟨c, rfl, made, hmade, hforall⟩
  | some group =>
    rw [hhead] at hworks
    obtain ⟨b, hcur, -, hne, hb, hsound⟩ := hworks
    obtain ⟨put, world, hretire, hputs, hstores, -, -⟩ :=
      retire_of_calm (c := { c with current := none }) hprompt hc hb hne hsound
    simp only [hcur, if_true, hretire]
    rw [h.tally_eq, flushed_totals hb]
    refine ⟨_, rfl, made ++ [put], ?_, List.rel_append hforall (.cons hstores .nil)⟩
    rw [hputs, List.reverse_cons, hmade, List.append_assoc]

theorem session_of_calm (hprompt : Prompt ready) (sink : Sink) (world : World σ)
    (calls : List (Circumstances σ × List Record)) (last : Circumstances σ)
    (hcalm : ∀ around ∈ last :: calls.map (·.1), around.Calm sink.kind ready)
    (htakes : ∀ call ∈ calls, sink.Takes call.2) :
    let arrivals := RecordArchive.arrivals calls
    let stream := sink.stream arrivals
    let groups := sink.limits.partition stream
    let refused := arrivals.length - stream.length
    ∃ final, (start world).session sink calls last =
        (.ok (⟨stream.length, refused, groups.length - 1, refused⟩,
          totals stream.length refused groups), final) ∧
      world.stored final.world = groups.map List.flatten := by
  intro arrivals stream groups refused
  obtain ⟨told, filled, haccept, htracks⟩ := tracks_acceptAll hprompt calls
    (fun call hmem => hcalm _ (List.mem_cons_of_mem _ (List.mem_map_of_mem hmem))) htakes
    (tracks_start sink world)
  rw [List.nil_append] at htracks
  have hlast := calm_amid (hcalm last List.mem_cons_self) filled
  obtain ⟨final, hshutdown, made, hmade, hstores⟩ :=
    shutdown_of_tracks hprompt hlast (tracks_amid htracks last)
  have hflushes : (sink.limits.closed stream).length = groups.length - 1 := by
    simp [Limits.closed, groups, Limits.partition]
  refine ⟨final, ?_, stored_eq hmade hstores⟩
  unfold session
  simp only [haccept, hshutdown, htracks.told_eq]
  rw [← hflushes]

/-- A session stores the groups of its stream, one object each, and what it tells and
counts is read off the groups.  Another session over the same stream tells, counts
and stores the same; and whatever has gone before, two batches in a row are accepted
like one. -/
theorem session_partition (hprompt : Prompt ready) (sink : Sink) (world : World σ)
    (calls : List (Circumstances σ × List Record)) (last : Circumstances σ)
    (hcalm : ∀ around ∈ last :: calls.map (·.1), around.Calm sink.kind ready)
    (htakes : ∀ call ∈ calls, sink.Takes call.2) :
    let arrivals := RecordArchive.arrivals calls
    let stream := sink.stream arrivals
    let groups := sink.limits.partition stream
    let refused := arrivals.length - stream.length
    ∃ told tally final, (start world).session sink calls last = (.ok (told, tally), final) ∧
      world.stored final.world = groups.map List.flatten ∧
      told = {
        appended := stream.length
        dropped := refused
        flushes := groups.length - 1
        encodeFailures := refused } ∧
      tally = {
        eventsAccepted := stream.length
        eventsDropped := refused
        encodeFailures := refused
        buffersFlushed := groups.length
        eventsFlushed := stream.length
        bytesFlushed := (stream.map (·.2)).flatten.length } ∧
      (∀ calls' last', RecordArchive.arrivals calls' = arrivals →
        (∀ around ∈ last' :: calls'.map (·.1), around.Calm sink.kind ready) →
        (∀ call ∈ calls', sink.Takes call.2) →
        ∃ final', (start world).session sink calls' last' = (.ok (told, tally), final') ∧
          world.stored final'.world = world.stored final.world) ∧
      ∀ (c : Coordinator σ) (xs ys : List Record), sink.Takes xs →
        c.accept sink (xs ++ ys) =
          match c.accept sink xs with
          | (.error e, c) => (.error e, c)
          | (.ok told, c) => ((c.accept sink ys).1.map (told + ·), (c.accept sink ys).2) := by
  intro arrivals stream groups refused
  obtain ⟨final, hsession, hstored⟩ := session_of_calm hprompt sink world calls last hcalm htakes
  have hrecords : groups.flatten = stream.map (·.2) := sink.limits.flatten_partition stream
  refine ⟨_, _, final, hsession, hstored, rfl, ?_, ?_, ?_⟩
  · have hlength : groups.flatten.length = stream.length := by
      rw [hrecords, List.length_map]
    rw [totals, hlength, hrecords]
  · intro calls' last' hsame hcalm' htakes'
    obtain ⟨final', hsession', hstored'⟩ :=
      session_of_calm hprompt sink world calls' last' hcalm' htakes'
    rw [hsame] at hsession' hstored'
    exact ⟨final', hsession', hstored'.trans hstored.symm⟩
  · intro c xs ys hxs
    exact accept_append sink xs ys c hxs

/-- Three records come in two batches, beside one that cannot be encoded, and go into
two objects. -/
theorem session_partition_sample :
    let sink := { Sample.sink with limits := ⟨2, 1000, .ofSeconds 60, by decide, by decide⟩ }
    let calls := [(Sample.calm, [Sample.record "a", .null]),
      (Sample.calm, [Sample.record "b", Sample.record "c"])]
    (∀ around ∈ Sample.calm :: calls.map (·.1),
      around.Calm sink.kind fun s : MemoryStore => s.failures = 0) ∧
    (∀ call ∈ calls, sink.Takes call.2) ∧
    ∃ told tally final,
      (start Sample.world).session sink calls Sample.calm = (.ok (told, tally), final) ∧
      Sample.world.stored final.world =
        [[97, lineFeed, 98, lineFeed], [99, lineFeed]] ∧
      told = ⟨3, 1, 1, 1⟩ ∧ tally.buffersFlushed = 2 ∧ tally.bytesFlushed = 6 := by
  intro sink calls
  have hcalm : ∀ around ∈ Sample.calm :: calls.map (·.1),
      around.Calm sink.kind fun s : MemoryStore => s.failures = 0 := by
    intro around hmem
    have hsample : around = Sample.calm := by simpa [calls] using hmem
    rw [hsample]
    exact ⟨rfl, rfl, fun _ => rfl, fun _ => rfl⟩
  have htakes : ∀ call ∈ calls, sink.Takes call.2 := fun _ _ => Or.inl rfl
  obtain ⟨told, tally, final, hsession, hstored, htold, htally, -⟩ :=
    session_partition MemoryStore.prompt sink Sample.world calls Sample.calm hcalm htakes
  exact ⟨hcalm, htakes, told, tally, final, hsession, hstored, htold,
    htally ▸ rfl, htally ▸ rfl⟩

/-! ## Sessions on a full disk -/

/-- Of two long records that come when the disk is full, the second one finds the
buffer lost, and it is given up without a put. -/
theorem accept_pair_of_full (hkind : sink.kind = .staged) {record : Record} {bytes : Bytes}
    (hcode : sink.codec.encode record = .ok bytes) (hlong : StagingWriter.capacity ≤ bytes.length)
    (hstay : sink.limits.shouldFlush ⟨1, bytes.length, .zero⟩ = false) (hcur : c.current = none)
    (husable : c.world.staging.usable = true) (hroom : c.world.staging.room = some 0) :
    ∃ next, c.accept sink [record, record] = (.ok ⟨1, 1, 0, 0⟩, next) ∧ next.current = none ∧
      next.tally.buffersLost = c.tally.buffersLost + 1 ∧ next.world.puts = c.world.puts := by
  obtain ⟨s, hcreate, hs⟩ : ∃ s, Buffer.create .staged c.now c.world.staging =
      (.ok { holding := .staged { file := c.world.staging.created }, createdAt := c.now }, s) ∧
      s.room = some 0 := by
    unfold Buffer.create Staging.create
    rw [if_pos husable]
    exact ⟨_, rfl, hroom⟩
  have hline := Codec.endsLine_encode hcode
  obtain ⟨s', hfirst⟩ := Buffer.append_of_full
    (b := ⟨.staged { file := c.world.staging.created }, 0, 0, c.now⟩) rfl hs hlong hline
  obtain ⟨e, hsecond⟩ : ∃ e, Buffer.append
      ⟨.staged { file := c.world.staging.created, failed := true }, 0 + bytes.length, 0 + 1,
        c.now⟩ bytes s' = (.error e, s') :=
    Buffer.append_of_failed rfl hlong
  have hage : c.now - c.now = .zero := congrArg Duration.mk (Nat.sub_self _)
  have hdue : sink.limits.shouldFlush (Buffer.snapshot
      ⟨.staged { file := c.world.staging.created, failed := true }, 0 + bytes.length, 0 + 1,
        c.now⟩ c.now) = false := by
    rw [Buffer.snapshot, hage, Nat.zero_add]
    exact hstay
  unfold accept acceptFrom acceptFrom
  simp only [hcode, flushWhen, hcur, add, append, takeBuffer, hkind, hcreate, hfirst]
  simp only [now] at hdue hsecond ⊢
  simp only [hdue, hsecond, Bool.false_eq_true, if_false]
  exact ⟨_, rfl, rfl, rfl, rfl⟩

theorem session_pair_of_full (hkind : sink.kind = .staged) {record : Record} {bytes : Bytes}
    (hcode : sink.codec.encode record = .ok bytes) (hlong : StagingWriter.capacity ≤ bytes.length)
    (hstay : sink.limits.shouldFlush ⟨1, bytes.length, .zero⟩ = false) (world : World σ)
    (around : Circumstances σ) (husable : around.usable = true) (hroom : around.room = some 0) :
    ∃ told tally final,
      (start world).session sink [(around, [record, record])] around = (.ok (told, tally), final) ∧
      tally.buffersLost = 1 ∧ world.stored final.world = [] := by
  obtain ⟨next, haccept, hcur, hlost, hputs⟩ := accept_pair_of_full
    (c := (start world).amid around) hkind hcode hlong hstay rfl husable hroom
  have hshutdown : (next.amid around).shutdown sink = (.ok next.tally, next.amid around) := by
    have hnone : (next.amid around).current = none := hcur
    unfold shutdown flushWhen
    rw [hnone]
    rfl
  refine ⟨{} + ⟨1, 1, 0, 0⟩, next.tally, next.amid around, ?_, hlost, ?_⟩
  · unfold session acceptAll acceptAll
    rw [haccept]
    simp only [hshutdown]
  · have hafter : (next.amid around).world.puts = [] ++ world.puts := hputs
    rw [World.stored, World.putsUntil_eq hafter]
    rfl

end Sessions

theorem encode_replicate (n : Nat) :
    ∃ bytes, (Codec.raw messageField).encode
        (Sample.record (String.ofList (List.replicate n 'a'))) = .ok bytes ∧
      n ≤ bytes.length ∧ bytes.length ≤ n + 1 := by
  have hlength : (Utf8.encode (String.ofList (List.replicate n 'a'))).length = n := by
    rw [Utf8.encode, Utf8.encodeChars, String.toList_ofList, List.length_flatMap]
    simp [Utf8.encodeChar]
  refine ⟨_, rfl, ?_⟩
  show n ≤ (Bytes.terminated _).length ∧ (Bytes.terminated _).length ≤ n + 1
  rw [Buffer.length_terminated, hlength, Buffer.separator]
  split
  · exact ⟨Nat.le_refl n, Nat.le_succ n⟩
  · exact ⟨Nat.le_succ n, Nat.le_refl _⟩

/-- Nothing keeps the store from taking an object or a buffer from being made, but the
disk is full.  Two records, which make a group, go into no object. -/
theorem session_full_disk_stores_nothing :
    let sink := { Sample.sink with
      kind := .staged
      limits := ⟨0, 50000000, .ofSeconds 60, by decide, by decide⟩ }
    let around := { Sample.calm with room := some 0 }
    let long := Sample.record (String.ofList (List.replicate StagingWriter.capacity 'a'))
    let calls := [(around, [long, long])]
    Prompt (fun s : MemoryStore => s.failures = 0) ∧
    around.clock.isCancelled = false ∧ around.store.failures = 0 ∧ around.usable = true ∧
    (∀ call ∈ calls, sink.Takes call.2) ∧
    ∃ told tally final,
      (start Sample.world).session sink calls around = (.ok (told, tally), final) ∧
      tally.buffersLost = 1 ∧ Sample.world.stored final.world = [] ∧
      (sink.limits.partition (sink.stream (RecordArchive.arrivals calls))).map List.flatten ≠
        [] := by
  intro sink around long calls
  obtain ⟨bytes, hbytes, hmin, hmax⟩ := encode_replicate StagingWriter.capacity
  have hcode : sink.codec.encode long = .ok bytes := hbytes
  have hstay : sink.limits.shouldFlush ⟨1, bytes.length, .zero⟩ = false := by
    have hsmall : bytes.length ≤ 50000000 := Nat.le_trans hmax (by decide)
    rw [Limits.shouldFlush_eq_false_iff]
    exact ⟨fun h => absurd h (by decide), Nat.zero_le _, hsmall⟩
  obtain ⟨told, tally, final, hsession, hlost, hstored⟩ :=
    session_pair_of_full rfl hcode hmin hstay Sample.world around rfl rfl
  refine ⟨MemoryStore.prompt, rfl, rfl, rfl, fun _ _ => Or.inl rfl, told, tally, final, hsession,
    hlost, hstored, ?_⟩
  intro hnil
  have hflat := sink.limits.flatten_partition (sink.stream (RecordArchive.arrivals calls))
  have hstream : sink.stream (RecordArchive.arrivals calls) =
      [(.zero, bytes), (.zero, bytes)] := by
    show List.filterMap _ [(Duration.zero, long), (Duration.zero, long)] = _
    simp only [List.filterMap_cons, List.filterMap_nil, hcode]
    rfl
  rw [List.map_eq_nil_iff.mp hnil, hstream] at hflat
  cases hflat

end Coordinator

end RecordArchive
