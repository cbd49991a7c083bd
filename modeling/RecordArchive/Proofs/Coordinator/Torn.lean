import Mathlib.Algebra.GroupWithZero.Nat
import RecordArchive.Proofs.Coordinator.Contents

/-!
# Torn records

An append can fail after a part of its record has reached the staging file, and what was
gathered before can fail to be written when the buffer is finished.  Here the surroundings may
change before every move of every call, so that the disk can run out, and have room again, at
any record and at any byte of it.  A buffer in which an append failed is then given up without
a put, and every put that is made carries whole records and no others.  The main statement is
`torn_never_uploaded`.
-/

namespace RecordArchive

/-! ## What deeds tell -/

namespace Deed

/-- The records of the active buffer after a deed, given those before it. -/
def join (records : List Bytes) : Deed → List Bytes
  | appended record _ => records ++ [record.terminated]
  | abandoned _ _ | uploaded _ _ => []
  | refused _ | unopened _ => records

def eventsLost : Deed → Nat
  | abandoned _ r | uploaded .lost r => r.buffer.count
  | uploaded .stored _ | uploaded .interrupted _ | refused _ | unopened _ | appended _ _ => 0

/-- A buffer counts as lost if it held anything. -/
def buffersLost : Deed → Nat
  | abandoned _ r => if 0 < r.buffer.count then 1 else 0
  | uploaded .lost _ => 1
  | uploaded .stored _ | uploaded .interrupted _ | refused _ | unopened _ | appended _ _ => 0

def eventsDropped : Deed → Nat
  | refused dropped => dropped
  | unopened _ | abandoned _ _ => 1
  | appended _ _ | uploaded _ _ => 0

def writeFailures : Deed → Nat
  | unopened _ | abandoned _ _ => 1
  | refused _ | appended _ _ | uploaded _ _ => 0

/-- What a deed finds, given the records that were appended since a buffer was last given
up.  An active buffer holds these and nothing else, and a new one is of this moment. -/
def Finds (sink : Sink) (records : List Bytes) : Deed → Prop
  | refused _ => True
  | unopened _ => records = []
  | appended _ before => before.count = records.length ∧ before.size = records.flatten.length ∧
      (records = [] → before.age = .zero)
  | abandoned record r => r.puts = [] ∧ r.buffer.Holds r.staging records ∧
      ∃ e staging, r.buffer.append record r.staging = (.error e, staging)
  | uploaded _ r => records ≠ [] ∧ r.Held sink records

end Deed

/-- The records that were appended since a buffer was last given up. -/
def gathered (deeds : List Deed) : List Bytes := deeds.foldl Deed.join []

theorem gathered_append (before after : List Deed) :
    gathered (before ++ after) = after.foldl Deed.join (gathered before) :=
  List.foldl_append

theorem gathered_snoc (deeds : List Deed) (deed : Deed) :
    gathered (deeds ++ [deed]) = deed.join (gathered deeds) :=
  gathered_append deeds [deed]

/-- What was appended to a buffer that was given up is not in the next one. -/
theorem gathered_of_abandoned (before : List Deed) (record : Bytes) (r : Retired)
    (after : List Deed) : gathered (before ++ .abandoned record r :: after) = gathered after :=
  gathered_append before (.abandoned record r :: after)

/-- Every deed finds what the deeds before it have left. -/
def Consequent (sink : Sink) (deeds : List Deed) : Prop :=
  ∀ before deed after, deeds = before ++ deed :: after → deed.Finds sink (gathered before)

theorem consequent_snoc {sink : Sink} {deeds : List Deed} {last : Deed}
    (h : Consequent sink deeds) (hlast : last.Finds sink (gathered deeds)) :
    Consequent sink (deeds ++ [last]) := by
  intro before deed after heq
  rcases after.eq_nil_or_concat' with rfl | ⟨front, final, rfl⟩
  · obtain ⟨rfl, hdeed⟩ := List.append_inj' heq rfl
    cases hdeed
    exact hlast
  · have hlonger : deeds ++ [last] = (before ++ deed :: front) ++ [final] := by
      rw [heq, List.append_assoc]
      rfl
    exact h before deed front (List.append_inj' hlonger rfl).1

/-- The totals count every failed write, and every buffer that went with it, once. -/
theorem losses_foldl (deeds : List Deed) (t : Tally) :
    (deeds.foldl Deed.count t).eventsLost = t.eventsLost + (deeds.map Deed.eventsLost).sum ∧
      (deeds.foldl Deed.count t).buffersLost =
        t.buffersLost + (deeds.map Deed.buffersLost).sum ∧
      (deeds.foldl Deed.count t).eventsDropped =
        t.eventsDropped + (deeds.map Deed.eventsDropped).sum ∧
      (deeds.foldl Deed.count t).writeFailures =
        t.writeFailures + (deeds.map Deed.writeFailures).sum := by
  induction deeds generalizing t with
  | nil => exact ⟨rfl, rfl, rfl, rfl⟩
  | cons deed rest ih =>
    have hone : (deed.count t).eventsLost = t.eventsLost + deed.eventsLost ∧
        (deed.count t).buffersLost = t.buffersLost + deed.buffersLost ∧
        (deed.count t).eventsDropped = t.eventsDropped + deed.eventsDropped ∧
        (deed.count t).writeFailures = t.writeFailures + deed.writeFailures := by
      cases deed with
      | refused | unopened | appended => exact ⟨rfl, rfl, rfl, rfl⟩
      | uploaded fate r => cases fate <;> exact ⟨rfl, rfl, rfl, rfl⟩
      | abandoned record r =>
        simp only [Deed.count, Tally.abandoned, Deed.eventsLost, Deed.buffersLost,
          Deed.eventsDropped, Deed.writeFailures]
        by_cases hpos : 0 < r.buffer.count
        · rw [if_pos hpos, if_pos hpos]
          exact ⟨rfl, rfl, rfl, rfl⟩
        · rw [if_neg hpos, if_neg hpos]
          exact ⟨show t.eventsLost = _ by omega, rfl, rfl, rfl⟩
    obtain ⟨hlost, hbuffers, hdropped, hfailures⟩ := hone
    obtain ⟨ihlost, ihbuffers, ihdropped, ihfailures⟩ := ih (deed.count t)
    simp only [List.foldl_cons, List.map_cons, List.sum_cons]
    omega

namespace Coordinator

variable {σ : Type}

section Runs

variable [ObjectStore σ]

/-! ## What a move finds and leaves -/

theorem append_error_of_abandoned {sink : Sink} {c : Coordinator σ} {record : Bytes}
    {r : Retired} (h : (c.perform sink (.add record)).deeds = [.abandoned record r]) :
    ∃ e staging, r.buffer.append record r.staging = (.error e, staging) := by
  simp only [perform, add, append, addDeeds] at h
  cases htake : c.takeBuffer sink with
  | mk answer opened =>
    cases answer with
    | error e => simp [htake] at h
    | ok b =>
      cases happend : b.append record opened.world.staging with
      | mk answer staging =>
        cases answer with
        | ok b' => simp [htake, happend] at h
        | error e =>
          simp only [htake, happend, Bool.false_eq_true, if_false, List.cons.injEq,
            Deed.abandoned.injEq, and_true, true_and] at h
          rw [← h]
          exact ⟨e, staging, happend⟩

/-- The ledger of a coordinator whose active buffer holds what its deeds say. -/
def Whole (sink : Sink) (old : List Put) (deeds : List Deed) (c : Coordinator σ) : Prop :=
  Consequent sink deeds ∧ ∃ groups, Ledger sink old deeds c groups (gathered deeds)

omit [ObjectStore σ] in
theorem whole_amid {sink : Sink} {old : List Put} {deeds : List Deed} {c : Coordinator σ}
    (h : Whole sink old deeds c) (around : Circumstances σ) :
    Whole sink old deeds (c.amid around) := by
  obtain ⟨hdeeds, groups, hledger⟩ := h
  exact ⟨hdeeds, groups, ledger_amid hledger around⟩

theorem whole_perform {sink : Sink} {old : List Put} {deeds : List Deed} {c : Coordinator σ}
    (h : Whole sink old deeds c) (move : Move) :
    Whole sink old (deeds ++ (c.perform sink move).deeds) (c.perform sink move).state := by
  obtain ⟨hdeeds, groups, hledger⟩ := h
  cases move with
  | refuse dropped =>
    refine ⟨consequent_snoc hdeeds trivial, groups, ?_⟩
    show Ledger sink old _ _ groups (gathered (deeds ++ [.refused dropped]))
    rw [gathered_snoc]
    exact ledger_still hledger rfl rfl hledger.holds rfl rfl trivial
  | cut due =>
    rcases cut_cases sink due hledger.holds with ⟨-, hstill⟩ | ⟨fate, r, key, -, hcut⟩
    · rw [hstill, List.append_nil]
      exact ⟨hdeeds, groups, hledger⟩
    · have hne : gathered deeds ≠ [] := (hledger.holds.of_some hcut.current_eq).1
      rw [hcut.deeds_eq]
      refine ⟨consequent_snoc hdeeds ⟨hne, hcut.held⟩, groups ++ [gathered deeds], ?_⟩
      rw [gathered_snoc]
      refine ledger_retire hledger rfl rfl hcut.held hcut.gone hcut.tally_eq hcut.puts_eq
        ⟨hcut.count_pos, hcut.succeeded_eq, ?_⟩
      obtain ⟨name, -, hattempts⟩ := hcut.held.attempts
      rw [hattempts.storedBytes_eq, hcut.succeeded_eq, hcut.held.holds.size_eq]
  | add record =>
    obtain ⟨deed, next, hcourse, htally, hputs, hdeed⟩ := add_cases sink record hledger.holds
    have hfailed (r : Retired) (heq : (c.perform sink (.add record)).deeds =
        [.abandoned record r]) := append_error_of_abandoned heq
    rw [hcourse] at hfailed ⊢
    rcases hdeed with ⟨rfl, hcur, hgone⟩ | ⟨b, b', rfl, hfrom, hcount, hsize, hcur, -, hb⟩ |
      ⟨r, rfl, hr, hheld, hgone⟩
    · have hnil := hledger.holds.of_none hcur
      refine ⟨consequent_snoc hdeeds hnil, groups, ?_⟩
      rw [gathered_snoc]
      refine ledger_still hledger rfl rfl ?_ htally hputs trivial
      rw [hnil]
      exact holds_of_current_eq_none hgone
    · have hholds : next.Holds (gathered deeds ++ [record.terminated]) := by
        simp only [Holds, hcur]
        exact ⟨by simp, hb⟩
      refine ⟨consequent_snoc hdeeds ⟨hcount, hsize, fun hnil => ?_⟩, groups, ?_⟩
      · -- A buffer that is active already is not empty.
        rcases hfrom with hold | ⟨-, hcreated⟩
        · exact absurd hnil (hledger.holds.of_some hold).1
        · show Duration.mk (c.now.nanoseconds - b.createdAt.nanoseconds) = Duration.mk 0
          rw [hcreated, Nat.sub_self]
      · rw [gathered_snoc]
        exact ledger_append hledger hholds htally hputs
    · refine ⟨consequent_snoc hdeeds ⟨hr, hheld.holds, hfailed r rfl⟩, groups ++ [gathered deeds], ?_⟩
      rw [gathered_snoc]
      exact ledger_retire hledger rfl rfl hheld hgone htally (by simp [hputs, hr]) hr

/-! ## Runs -/

theorem whole_runAmid (sink : Sink) (world : World σ)
    (calls : List ((Nat → Option (Circumstances σ)) × Call)) :
    Whole sink world.puts.reverse ((start world).runAmid sink calls).deeds
      ((start world).runAmid sink calls).final := by
  have hstart : Whole sink world.puts.reverse [] (start world) := by
    refine ⟨fun before deed after heq => ?_, [], ledger_start sink world⟩
    cases before <;> cases heq
  have h := runAmid_invariant (Whole sink world.puts.reverse)
    (fun _ _ move hc => whole_perform hc move) (fun _ _ around hc => whole_amid hc around)
    calls hstart
  rwa [List.nil_append] at h

/-- Whatever surrounds the moves of a run, every put is made for a buffer that was given up
for its upload, and carries all the records that were appended since the buffer before it was
given up, whole, and nothing else.  A buffer in which an append failed is given up without a
put, and what comes after it is as if it had never been.  Its records and the one that spoiled
it are counted once. -/
theorem torn_never_uploaded (sink : Sink) (world : World σ)
    (calls : List ((Nat → Option (Circumstances σ)) × Call)) :
    let history := (start world).runAmid sink calls
    (history.deeds.filterMap Deed.brought?).Sublist
      (calls.flatMap fun entry => entry.2.encodings sink) ∧
    history.final.world.puts.reverse =
      world.puts.reverse ++ (retirements history.deeds).flatMap (·.puts) ∧
    (∀ before deed after, history.deeds = before ++ deed :: after →
      deed.Finds sink (gathered before)) ∧
    (∀ before record r amidst deed after,
      history.deeds = before ++ .abandoned record r :: (amidst ++ deed :: after) →
        deed.Finds sink (gathered amidst)) ∧
    history.final.Holds (gathered history.deeds) ∧
    history.final.tally.eventsLost = (history.deeds.map Deed.eventsLost).sum ∧
    history.final.tally.buffersLost = (history.deeds.map Deed.buffersLost).sum ∧
    history.final.tally.eventsDropped = (history.deeds.map Deed.eventsDropped).sum ∧
    history.final.tally.writeFailures = (history.deeds.map Deed.writeFailures).sum := by
  intro history
  obtain ⟨hdeeds, groups, hledger⟩ := whole_runAmid sink world calls
  have hlosses := losses_foldl history.deeds {}
  rw [← hledger.tally_eq] at hlosses
  simp only [Nat.zero_add] at hlosses
  refine ⟨brought_runAmid sink calls (start world), hledger.puts_eq, hdeeds, ?_, hledger.holds,
    hlosses⟩
  intro before record r amidst deed after heq
  have hsplit : history.deeds = (before ++ .abandoned record r :: amidst) ++ deed :: after := by
    rw [heq, List.append_assoc]
    rfl
  have hfinds := hdeeds _ deed after hsplit
  rwa [gathered_of_abandoned] at hfinds

end Runs

end Coordinator

end RecordArchive
