import Mathlib.Data.List.Forall2
import RecordArchive.Proofs.Buffer.Upload
import RecordArchive.Proofs.Coordinator.Course

/-!
# The ledger of a coordinator

Deeds split the records that were appended into groups, one for every buffer that
was given up and a last one for the active buffer.  `Ledger` says what the groups,
the deeds and the coordinator have to do with each other: every buffer held its
group, the puts made for it offered that group and nothing else, and the totals
count the deeds.  The main statement is `ledger_runAmid`, that every run from the start
keeps such a ledger.
-/

namespace RecordArchive

/-! ## What deeds count for -/

namespace Fate

/-- The totals after a buffer has met its fate.  One whose upload was interrupted is
not counted anywhere. -/
def count (fate : Fate) (t : Tally) (b : Buffer) : Tally :=
  match fate with
  | stored => t.flushed b
  | lost => t.lost b
  | interrupted => t

def timesStored : Fate → Nat
  | stored => 1
  | lost | interrupted => 0

def outcome (fate : Fate) (key : String) : Except ArchiveError Unit :=
  match fate with
  | stored | lost => .ok ()
  | interrupted => .error (.cancelled key)

/-- Answer and totals tell the three fates apart. -/
theorem of_count (fate : Fate) (key : String) (t : Tally) (b : Buffer) :
    Fate.of (fate.outcome key) t (fate.count t b) = fate := by
  cases fate <;> simp [Fate.of, Fate.outcome, Fate.count, Tally.flushed, Tally.lost]

end Fate

namespace Deed

/-- The totals after a deed. -/
def count (t : Tally) : Deed → Tally
  | refused dropped => t.refuse dropped
  | unopened _ =>
    { t with writeFailures := t.writeFailures + 1, eventsDropped := t.eventsDropped + 1 }
  | appended _ _ => { t with eventsAccepted := t.eventsAccepted + 1 }
  | abandoned _ r =>
    { t.abandoned r.buffer with eventsDropped := (t.abandoned r.buffer).eventsDropped + 1 }
  | uploaded fate r => fate.count t r.buffer

/-- What a deed says of puts agrees with its fate, and only buffers with records
are uploaded. -/
def Consistent : Deed → Prop
  | abandoned _ r => r.puts = []
  | uploaded fate r => 0 < r.buffer.count ∧ r.puts.countP Put.succeeded = fate.timesStored ∧
      storedBytes r.puts = fate.timesStored * r.buffer.size
  | refused _ | unopened _ | appended _ _ => True

end Deed

/-- A buffer that was given up held these records, and they were offered to the
store under one name, all of them every time. -/
structure Retired.Held (sink : Sink) (r : Retired) (records : List Bytes) : Prop where
  holds : r.buffer.Holds r.staging records
  attempts : ∃ name, name.bucket = sink.bucket ∧ Attempts name records.flatten r.puts

namespace Coordinator

variable {σ : Type}

/-- The records of the active buffer.  Where there is one it is not empty. -/
def Holds (c : Coordinator σ) (records : List Bytes) : Prop :=
  match c.current with
  | none => records = []
  | some b => records ≠ [] ∧ b.Holds c.world.staging records

/-- The records of the groups and of the active buffer, given the puts from before
the deeds. -/
structure Ledger (sink : Sink) (old : List Put) (deeds : List Deed) (c : Coordinator σ)
    (groups : List (List Bytes)) (active : List Bytes) : Prop where
  appended_eq : (appended deeds).map Bytes.terminated = groups.flatten ++ active
  retired : List.Forall₂ (Retired.Held sink) (retirements deeds) groups
  holds : c.Holds active
  tally_eq : c.tally = deeds.foldl Deed.count {}
  puts_eq : c.world.puts.reverse = old ++ (retirements deeds).flatMap (·.puts)
  consistent : ∀ deed ∈ deeds, deed.Consistent

theorem Holds.of_none {c : Coordinator σ} {records : List Bytes} (h : c.Holds records)
    (hc : c.current = none) : records = [] := by
  simpa [Holds, hc] using h

theorem Holds.of_some {c : Coordinator σ} {records : List Bytes} {b : Buffer} (h : c.Holds records)
    (hc : c.current = some b) : records ≠ [] ∧ b.Holds c.world.staging records := by
  simpa [Holds, hc] using h

theorem holds_of_current_eq_none {c : Coordinator σ} (h : c.current = none) : c.Holds [] := by
  simp [Holds, h]

theorem holds_amid {c : Coordinator σ} {records : List Bytes} (h : c.Holds records)
    (around : Circumstances σ) : (c.amid around).Holds records := by
  cases hc : c.current with
  | none =>
    rw [h.of_none hc]
    exact holds_of_current_eq_none hc
  | some b =>
    obtain ⟨hne, hb⟩ := h.of_some hc
    have hcur : (c.amid around).current = some b := hc
    simp only [Holds, hcur]
    exact ⟨hne, Buffer.holds_congr hb rfl⟩

/-- The puts that were made are those of the buffers that were given up. -/
theorem Ledger.putsUntil_eq {sink : Sink} {world : World σ} {deeds : List Deed}
    {c : Coordinator σ} {groups : List (List Bytes)} {active : List Bytes}
    (h : Ledger sink world.puts.reverse deeds c groups active) :
    world.putsUntil c.world = (retirements deeds).flatMap (·.puts) := by
  have hmade := congrArg List.reverse h.puts_eq
  rw [List.reverse_reverse, List.reverse_append, List.reverse_reverse] at hmade
  rw [World.putsUntil_eq hmade, List.reverse_reverse]

/-! ## Retiring a buffer -/

section Retiring

variable [ObjectStore σ]

/-- A buffer with records is offered to the store under one name and meets one of
three fates. -/
theorem retire_cases (sink : Sink) {b : Buffer} {c : Coordinator σ} {records : List Bytes}
    (hb : b.Holds c.world.staging records) (hne : records ≠ []) :
    ∃ fate name tried, name.bucket = sink.bucket ∧
      (retire sink b c).1 = Fate.outcome fate name.key ∧
      (retire sink b c).2.current = c.current ∧
      (retire sink b c).2.tally = fate.count c.tally b ∧
      (retire sink b c).2.world.puts = tried ++ c.world.puts ∧
      Attempts name records.flatten tried ∧
      tried.countP Put.succeeded = fate.timesStored := by
  have hpos : b.count ≠ 0 := by
    rw [hb.count_eq]
    exact fun h => hne (List.eq_nil_of_length_eq_zero h)
  let name : ObjectName := ⟨sink.bucket, sink.namer.key c.world.instant c.world.drawId.1⟩
  obtain ⟨tried, ht, hsame, hcount, herr⟩ :=
    c.world.drawId.2.flush_offers sink.retrier name (b := b) hb
  unfold retire
  simp only [hpos, if_false]
  cases hf : c.world.drawId.2.flush sink.retrier name b with
  | mk answer world =>
    rw [hf] at ht hcount herr
    cases answer with
    | error e =>
      cases herr e rfl
      exact ⟨.interrupted, name, tried, rfl, rfl, rfl, rfl, ht, hsame, hcount⟩
    | ok uploaded =>
      cases uploaded with
      | true => exact ⟨.stored, name, tried, rfl, rfl, rfl, rfl, ht, hsame, hcount⟩
      | false => exact ⟨.lost, name, tried, rfl, rfl, rfl, rfl, ht, hsame, hcount⟩

/-- What is known of a cut that retires a buffer with these records. -/
structure CutOff (sink : Sink) (c : Coordinator σ) (active : List Bytes) (fate : Fate)
    (r : Retired) (key : String) (course : Course σ) : Prop where
  current_eq : c.current = some r.buffer
  outcome_eq : course.outcome = fate.outcome key
  deeds_eq : course.deeds = [.uploaded fate r]
  held : r.Held sink active
  count_pos : 0 < r.buffer.count
  succeeded_eq : r.puts.countP Put.succeeded = fate.timesStored
  gone : course.state.current = none
  tally_eq : course.state.tally = fate.count c.tally r.buffer
  puts_eq : course.state.world.puts.reverse = c.world.puts.reverse ++ r.puts

/-- A cut does nothing when nothing is due.  Otherwise the active buffer leaves, and
meets one of three fates. -/
theorem cut_cases (sink : Sink) (due : Snapshot → Bool) {c : Coordinator σ}
    {active : List Bytes} (hc : c.Holds active) :
    (∀ b, c.current = some b → due (b.snapshot c.now) = false) ∧
        c.perform sink (.cut due) = ⟨.ok (), [], c⟩ ∨
      ∃ fate r key, due (r.buffer.snapshot c.now) = true ∧
        CutOff sink c active fate r key (c.perform sink (.cut due)) := by
  rcases perform_cut_cases sink due c with hstill | ⟨b, outcome, next, hcur, hdue, hretire, hcourse⟩
  · exact Or.inl hstill
  · obtain ⟨hne, hb⟩ := hc.of_some hcur
    obtain ⟨fate, name, tried, hbucket, hout, hgone, htally, hputs, hsame, hcount⟩ :=
      retire_cases sink (c := { c with current := none }) hb hne
    simp only [hretire] at hout hgone htally hputs
    have hfate : Fate.of outcome c.tally next.tally = fate := by rw [hout, htally, Fate.of_count]
    rw [hfate, World.putsUntil_eq hputs] at hcourse
    refine Or.inr ⟨fate, ⟨b, c.world.staging, tried.reverse⟩, name.key, hdue, ?_⟩
    rw [hcourse]
    refine ⟨hcur, hout, rfl, ⟨hb, name, hbucket, hsame.reverse⟩, ?_, ?_, hgone, htally, ?_⟩
    · rw [hb.count_eq]
      exact List.length_pos_iff.mpr hne
    · rw [List.countP_reverse, hcount]
    · simp only [hputs, List.reverse_append]

end Retiring

/-! ## Adding a record -/

/-- The buffer that is taken holds the active records.  A new one holds none, which
are as many as there are without an active buffer. -/
theorem takeBuffer_cases (sink : Sink) {c : Coordinator σ} {active : List Bytes}
    (hc : c.Holds active) :
    ∃ answer opened, c.takeBuffer sink = (answer, opened) ∧ opened.current = none ∧
      opened.tally = c.tally ∧ opened.world.puts = c.world.puts ∧
      match answer with
      | .error _ => c.current = none
      | .ok b => b.Holds opened.world.staging active ∧
          (c.current = some b ∨ c.current = none ∧ b.createdAt = c.now) := by
  unfold takeBuffer
  cases hcur : c.current with
  | some b => exact ⟨.ok b, _, rfl, rfl, rfl, rfl, (hc.of_some hcur).2, Or.inl rfl⟩
  | none =>
    cases hnew : Buffer.create sink.kind c.now c.world.staging with
    | mk answer staging =>
      refine ⟨answer, _, rfl, rfl, rfl, rfl, ?_⟩
      cases answer with
      | error e => exact rfl
      | ok b =>
        rw [hc.of_none hcur]
        exact ⟨Buffer.holds_create hnew, Or.inr ⟨rfl, Buffer.createdAt_create hnew⟩⟩

section Adding

variable [ObjectStore σ]

/-- An addition appends its record to the active buffer, or to a new one, or drops
it.  Where an append fails the buffer goes with it, without a put. -/
theorem add_cases (sink : Sink) (record : Bytes) {c : Coordinator σ} {active : List Bytes}
    (hc : c.Holds active) :
    ∃ deed next, c.perform sink (.add record) = ⟨.ok (), [deed], next⟩ ∧
      next.tally = deed.count c.tally ∧ next.world.puts = c.world.puts ∧
      (deed = .unopened record ∧ c.current = none ∧ next.current = none ∨
        (∃ b b', deed = .appended record (b.snapshot c.now) ∧
          (c.current = some b ∨ c.current = none ∧ b.createdAt = c.now) ∧
          b.count = active.length ∧ b.size = active.flatten.length ∧
          next.current = some b' ∧ b'.createdAt = b.createdAt ∧
          b'.Holds next.world.staging (active ++ [record.terminated])) ∨
        ∃ r, deed = .abandoned record r ∧ r.puts = [] ∧ r.Held sink active ∧
          next.current = none) := by
  obtain ⟨answer, opened, htake, hgone, htally, hputs, hbuffer⟩ := takeBuffer_cases sink hc
  simp only [perform, add, append, addDeeds, htake]
  cases answer with
  | error e =>
    refine ⟨.unopened record, _, rfl, ?_⟩
    exact ⟨by simp only [Deed.count, htally], hputs, Or.inl ⟨rfl, hbuffer, hgone⟩⟩
  | ok b =>
    obtain ⟨hb, hfrom⟩ := hbuffer
    cases happend : b.append record opened.world.staging with
    | mk answer staging =>
      cases answer with
      | ok b' =>
        simp only [happend, if_true]
        refine ⟨_, _, rfl, ?_⟩
        exact ⟨by simp only [Deed.count, htally], hputs, Or.inr (Or.inl
          ⟨b, b', rfl, hfrom, hb.count_eq, hb.size_eq, rfl, Buffer.createdAt_append happend,
            Buffer.holds_append hb happend⟩)⟩
      | error e =>
        simp only [happend, Bool.false_eq_true, if_false]
        refine ⟨_, _, rfl, ?_⟩
        -- A buffer that is given up here is never offered, so any name will do.
        have hmade : c.world.putsUntil { opened.world with staging := b.discard staging } = [] :=
          World.putsUntil_eq (show _ = [] ++ _ from hputs)
        refine ⟨by simp only [Deed.count, htally], hputs,
          Or.inr (Or.inr ⟨_, rfl, hmade, ⟨hb, ⟨sink.bucket, ""⟩, rfl, ?_⟩, hgone⟩)⟩
        rw [hmade]
        exact Attempts.nil

end Adding

/-! ## Ledgers of runs -/

section Runs

variable {sink : Sink} {old : List Put} {deeds : List Deed} {c : Coordinator σ}
  {groups : List (List Bytes)} {active : List Bytes}

theorem ledger_start (sink : Sink) (world : World σ) :
    Ledger sink world.puts.reverse [] (start world) [] [] :=
  ⟨rfl, .nil, rfl, rfl, by simp [retirements, start], by simp⟩

theorem ledger_amid (h : Ledger sink old deeds c groups active) (around : Circumstances σ) :
    Ledger sink old deeds (c.amid around) groups active :=
  ⟨h.appended_eq, h.retired, holds_amid h.holds around, h.tally_eq, h.puts_eq, h.consistent⟩

theorem ledger_amid? (h : Ledger sink old deeds c groups active)
    (around : Option (Circumstances σ)) :
    Ledger sink old deeds (c.amid? around) groups active := by
  cases around with
  | none => exact h
  | some around => exact ledger_amid h around

theorem consistent_snoc (h : ∀ deed ∈ deeds, deed.Consistent) {last : Deed} (hl : last.Consistent) :
    ∀ deed ∈ deeds ++ [last], deed.Consistent := by
  intro deed hd
  rcases List.mem_append.mp hd with hd | hd
  · exact h deed hd
  · exact List.mem_singleton.mp hd ▸ hl

theorem tally_snoc (h : c.tally = deeds.foldl Deed.count {}) {deed : Deed} {next : Coordinator σ}
    (hnext : next.tally = deed.count c.tally) :
    next.tally = (deeds ++ [deed]).foldl Deed.count {} := by
  rw [hnext, h, List.foldl_append]
  rfl

/-- A deed that neither appends a record nor takes a buffer away moves no record. -/
theorem ledger_still (h : Ledger sink old deeds c groups active) {deed : Deed}
    {next : Coordinator σ} (hrecord : deed.record? = none) (hretired : deed.retired? = none)
    (hholds : next.Holds active) (htally : next.tally = deed.count c.tally)
    (hputs : next.world.puts = c.world.puts) (hconsistent : deed.Consistent) :
    Ledger sink old (deeds ++ [deed]) next groups active where
  appended_eq := by
    rw [appended_snoc, hrecord, Option.toList_none, List.append_nil, h.appended_eq]
  retired := by
    rw [retirements_snoc, hretired, Option.toList_none, List.append_nil]
    exact h.retired
  holds := hholds
  tally_eq := tally_snoc h.tally_eq htally
  puts_eq := by
    rw [hputs, h.puts_eq, retirements_snoc, hretired, Option.toList_none, List.append_nil]
  consistent := consistent_snoc h.consistent hconsistent

/-- A record that is appended comes last in the last group. -/
theorem ledger_append (h : Ledger sink old deeds c groups active) {record : Bytes}
    {before : Snapshot} {next : Coordinator σ}
    (hholds : next.Holds (active ++ [record.terminated]))
    (htally : next.tally = (Deed.appended record before).count c.tally)
    (hputs : next.world.puts = c.world.puts) :
    Ledger sink old (deeds ++ [.appended record before]) next groups
      (active ++ [record.terminated]) where
  appended_eq := by
    rw [appended_snoc, List.map_append, h.appended_eq, List.append_assoc]
    rfl
  retired := by
    rw [retirements_snoc]
    simpa [Deed.retired?] using h.retired
  holds := hholds
  tally_eq := tally_snoc h.tally_eq htally
  puts_eq := by
    rw [hputs, h.puts_eq, retirements_snoc]
    simp [Deed.retired?]
  consistent := consistent_snoc h.consistent trivial

/-- The records of a buffer that leaves become the last group. -/
theorem ledger_retire (h : Ledger sink old deeds c groups active) {deed : Deed} {r : Retired}
    {next : Coordinator σ} (hrecord : deed.record? = none) (hretired : deed.retired? = some r)
    (hheld : r.Held sink active) (hgone : next.current = none)
    (htally : next.tally = deed.count c.tally)
    (hputs : next.world.puts.reverse = c.world.puts.reverse ++ r.puts)
    (hconsistent : deed.Consistent) :
    Ledger sink old (deeds ++ [deed]) next (groups ++ [active]) [] where
  appended_eq := by
    rw [appended_snoc, hrecord, Option.toList_none, List.append_nil, h.appended_eq,
      List.flatten_concat, List.append_nil]
  retired := by
    rw [retirements_snoc, hretired]
    exact List.rel_append h.retired (.cons hheld .nil)
  holds := holds_of_current_eq_none hgone
  tally_eq := tally_snoc h.tally_eq htally
  puts_eq := by
    rw [hputs, h.puts_eq, retirements_snoc, hretired, Option.toList_some, List.flatMap_append,
      List.flatMap_singleton, List.append_assoc]
  consistent := consistent_snoc h.consistent hconsistent

variable [ObjectStore σ]

/-- How a move changes the groups: not at all, by a record that joins the last of
them, or by the end of the last one. -/
inductive Regroups (groups : List (List Bytes)) (active : List Bytes) :
    Move → List (List Bytes) → List Bytes → Prop
  | still (move : Move) : Regroups groups active move groups active
  | append (record : Bytes) :
    Regroups groups active (.add record) groups (active ++ [record.terminated])
  | retire (move : Move) : Regroups groups active move (groups ++ [active]) []

theorem ledger_regroup (h : Ledger sink old deeds c groups active) (move : Move) :
    ∃ groups' active', Ledger sink old (deeds ++ (c.perform sink move).deeds)
        (c.perform sink move).state groups' active' ∧
      Regroups groups active move groups' active' := by
  cases move with
  | refuse dropped =>
    exact ⟨groups, active, ledger_still h rfl rfl h.holds rfl rfl trivial, .still _⟩
  | cut due =>
    rcases cut_cases sink due h.holds with ⟨-, hstill⟩ | ⟨fate, r, key, -, hcut⟩
    · rw [hstill, List.append_nil]
      exact ⟨groups, active, h, .still _⟩
    · rw [hcut.deeds_eq]
      refine ⟨groups ++ [active], [], ledger_retire h rfl rfl hcut.held hcut.gone hcut.tally_eq
        hcut.puts_eq ⟨hcut.count_pos, hcut.succeeded_eq, ?_⟩, .retire _⟩
      obtain ⟨name, -, hattempts⟩ := hcut.held.attempts
      rw [hattempts.storedBytes_eq, hcut.succeeded_eq, hcut.held.holds.size_eq]
  | add record =>
    obtain ⟨deed, next, hcourse, htally, hputs, hdeed⟩ := add_cases sink record h.holds
    rw [hcourse]
    rcases hdeed with ⟨rfl, hcur, hgone⟩ | ⟨b, b', rfl, -, -, -, hcur, -, hb⟩ |
      ⟨r, rfl, hr, hheld, hgone⟩
    · have hnil := h.holds.of_none hcur
      subst hnil
      exact ⟨groups, [], ledger_still h rfl rfl (holds_of_current_eq_none hgone) htally hputs
        trivial, .still _⟩
    · have hholds : next.Holds (active ++ [record.terminated]) := by
        simp only [Holds, hcur]
        exact ⟨by simp, hb⟩
      exact ⟨groups, active ++ [record.terminated], ledger_append h hholds htally hputs,
        .append record⟩
    · exact ⟨groups ++ [active], [], ledger_retire h rfl rfl hheld hgone htally
        (by simp [hputs, hr]) hr, .retire _⟩

theorem ledger_perform (h : Ledger sink old deeds c groups active) (move : Move) :
    ∃ groups active, Ledger sink old (deeds ++ (c.perform sink move).deeds)
      (c.perform sink move).state groups active := by
  obtain ⟨groups', active', h', -⟩ := ledger_regroup h move
  exact ⟨groups', active', h'⟩

theorem ledger_performAmid (h : Ledger sink old deeds c groups active)
    (around : Nat → Option (Circumstances σ)) (moves : List Move) :
    ∃ groups active, Ledger sink old (deeds ++ (c.performAmid sink around moves).deeds)
      (c.performAmid sink around moves).state groups active :=
  performAmid_invariant (fun deeds c => ∃ groups active, Ledger sink old deeds c groups active)
    (fun _ _ move ⟨_, _, h⟩ => ledger_perform h move) around
    (fun n _ _ ⟨groups, active, h⟩ => ⟨groups, active, ledger_amid? h (around n)⟩) moves
    ⟨groups, active, h⟩

theorem ledger_performAll (h : Ledger sink old deeds c groups active) (moves : List Move) :
    ∃ groups active, Ledger sink old (deeds ++ (c.performAll sink moves).deeds)
      (c.performAll sink moves).state groups active :=
  performAll_invariant (fun deeds c => ∃ groups active, Ledger sink old deeds c groups active)
    (fun _ _ move ⟨_, _, h⟩ => ledger_perform h move) moves ⟨groups, active, h⟩

/-- Every run from the start keeps a ledger, whether calls fail or not and wherever the
surroundings change. -/
theorem ledger_runAmid (sink : Sink) (world : World σ)
    (calls : List ((Nat → Option (Circumstances σ)) × Call)) :
    ∃ groups active, Ledger sink world.puts.reverse ((start world).runAmid sink calls).deeds
      ((start world).runAmid sink calls).final groups active := by
  have h := runAmid_invariant
    (fun deeds c => ∃ groups active, Ledger sink world.puts.reverse deeds c groups active)
    (fun deeds c move ⟨_, _, h⟩ => ledger_perform h move)
    (fun deeds c around ⟨groups, active, h⟩ => ⟨groups, active, ledger_amid h around⟩)
    calls ⟨[], [], ledger_start sink world⟩
  simpa using h

theorem ledger_run (sink : Sink) (world : World σ) (calls : List (Circumstances σ × Call)) :
    ∃ groups active, Ledger sink world.puts.reverse ((start world).run sink calls).deeds
      ((start world).run sink calls).final groups active := by
  rw [← runAmid_settled]
  exact ledger_runAmid sink world (settled calls)

end Runs

end Coordinator

end RecordArchive
