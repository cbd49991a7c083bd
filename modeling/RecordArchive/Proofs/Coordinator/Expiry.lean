import RecordArchive.Proofs.Coordinator.Settled
import RecordArchive.Proofs.Sample

/-!
# Idle buffers may be flushed or left

A buffer that has expired admits no further record.  Whether it is flushed when that
is noticed or when the next record comes makes no difference but to the moment.  The
main statement is `expiry_transparent`: flushes of idle buffers, strewn into a
sequence of batches, change neither what is offered to the store nor what is lost
nor the totals.

The two runs are followed together.  They stand alike, or the run with more flushes
is ahead by the retirement of the one buffer that the other still holds.
-/

namespace RecordArchive

variable {σ : Type}

/-- Surroundings that differ in the store and in what is to come of cancellation. -/
structure Circumstances.Matches (around around' : Circumstances σ) : Prop where
  now_eq : around.clock.now = around'.clock.now
  usable_eq : around.usable = around'.usable
  room_eq : around.room = around'.room

theorem Circumstances.matches_refl (around : Circumstances σ) : around.Matches around :=
  ⟨rfl, rfl, rfl⟩

/-- Two sequences of calls accept the same batches, and the first one may flush idle
buffers anywhere. -/
inductive Interspersed : List (Circumstances σ × Call) → List (Circumstances σ × Call) → Prop
  | nil : Interspersed [] []
  | flushed {calls calls'} (around : Circumstances σ) (h : Interspersed calls calls') :
      Interspersed ((around, .flushExpired) :: calls) calls'
  | accepted {calls calls'} {around around' : Circumstances σ} (hmatch : around.Matches around')
      (batch : List Record) (h : Interspersed calls calls') :
      Interspersed ((around, .accept batch) :: calls) ((around', .accept batch) :: calls')

theorem Limits.isExpired_mono (limits : Limits) {b : Buffer} {now later : Duration}
    (hle : now ≤ later) (h : limits.isExpired (b.snapshot now) = true) :
    limits.isExpired (b.snapshot later) = true := by
  simp only [isExpired, Buffer.snapshot, decide_eq_true_eq, Duration.lt_def,
    Duration.nanoseconds_sub, Duration.le_def] at h hle ⊢
  omega

theorem Limits.shouldFlush_of_isExpired {limits : Limits} {s : Snapshot}
    (h : limits.isExpired s = true) : limits.shouldFlush s = true := by
  unfold shouldFlush
  rw [h, Bool.or_true, Bool.true_or]

/-- The world in new surroundings. -/
def World.amid (w : World σ) (around : Circumstances σ) : World σ :=
  { w with
    clock := around.clock
    store := around.store
    staging := w.staging.amid around.usable around.room }

theorem World.like_amid {sink : Sink} {w w' : World σ} (h : w.Like sink w')
    {around around' : Circumstances σ} (hmatch : around.Matches around') :
    (w.amid around).Like sink (w'.amid around') := by
  refine ⟨hmatch.now_eq, ?_, h.chance_eq, h.ids_eq, h.puts⟩
  show w.staging.amid around.usable around.room = w'.staging.amid around'.usable around'.room
  rw [h.staging_eq, hmatch.usable_eq, hmatch.room_eq]

/-- A retirement is the same in all surroundings in which the disk is the same. -/
theorem settled_amid {sink : Sink} {b : Buffer} {before after : World σ} {stored : Bool}
    {tried : List Put} (h : Settled sink b before after stored tried) {room : Option Nat}
    (hdisk : room = none ∨ room = some 0) (hkind : b.kind = .staged → before.staging.room = room)
    {around around' : Circumstances σ} (hmatch : around.Matches around')
    (hroom : b.kind = .staged → around'.room = room) :
    Settled sink b (before.amid around') (after.amid around) stored tried := by
  have hsteady : b.kind = .staged → before.staging.Steady := by
    intro hstaged
    unfold Staging.Steady
    rw [hkind hstaged]
    exact hdisk
  have hfinish : b.finish (before.staging.amid around'.usable around'.room) =
      ((b.finish before.staging).1,
        (b.finish before.staging).2.amid around'.usable around'.room) :=
    Buffer.finish_amid hsteady fun hstaged => (hkind hstaged).trans (hroom hstaged).symm
  refine ⟨h.puts_eq, ?_, h.chance_eq, h.ids_eq, ?_, ?_⟩
  · show after.staging.amid around.usable around.room =
      b.discard (b.finish (before.staging.amid around'.usable around'.room)).2
    rw [hfinish, Buffer.discard_amid, h.staging_eq, hmatch.usable_eq, hmatch.room_eq]
  · intro put hput
    show put.body = World.bodyOf { before.amid around' with
      staging := (b.finish (before.staging.amid around'.usable around'.room)).2 } b ∧ _
    rw [hfinish]
    exact h.offers put hput
  · have hfirst : (b.finish (before.amid around').staging).1 = (b.finish before.staging).1 := by
      show (b.finish (before.staging.amid around'.usable around'.room)).1 = _
      rw [hfinish]
    rw [hfirst]
    exact h.spent

namespace Coordinator

/-! ## Following two runs -/

/-- The active buffer is one of the sink with records, and staging files grow on a disk
with this much room. -/
structure Suits (sink : Sink) (room : Option Nat) (c : Coordinator σ) : Prop where
  current : ∀ b, c.current = some b → b.kind = sink.kind ∧ b.count ≠ 0
  room : sink.kind = .staged → c.world.staging.room = room

/-- Nothing differs that the coordinators look at. -/
structure Alike (sink : Sink) (deeds : List Deed) (c : Coordinator σ) (deeds' : List Deed)
    (c' : Coordinator σ) : Prop where
  like : c.world.Like sink c'.world
  current_eq : c.current = c'.current
  tally_eq : c.tally = c'.tally
  uploads_eq : uploads deeds = uploads deeds'

/-- The first coordinator has retired a buffer that is still the active one of the
second, where it has expired. -/
structure Ahead (sink : Sink) (deeds : List Deed) (c : Coordinator σ) (deeds' : List Deed)
    (c' : Coordinator σ) (b : Buffer) (base : World σ) (stored : Bool) (tried : List Put) :
    Prop where
  gone : c.current = none
  current_eq : c'.current = some b
  expired : sink.limits.isExpired (b.snapshot c'.now) = true
  like : base.Like sink c'.world
  now_eq : c.now = c'.now
  settled : Settled sink b base c.world stored tried
  tally_eq : c.tally = (Fate.ofStored stored).count c'.tally b
  uploads_eq : uploads deeds =
    uploads deeds' ++ [(Fate.ofStored stored, tried.map (·.body))]

def Follows (sink : Sink) (deeds : List Deed) (c : Coordinator σ) (deeds' : List Deed)
    (c' : Coordinator σ) : Prop :=
  Alike sink deeds c deeds' c' ∨
    ∃ b base stored tried, Ahead sink deeds c deeds' c' b base stored tried

variable {sink : Sink} {room : Option Nat} {deeds deeds' : List Deed} {c c' : Coordinator σ}

theorem Follows.now_eq (h : Follows sink deeds c deeds' c') : c.now = c'.now := by
  rcases h with halike | ⟨b, base, stored, tried, hahead⟩
  · exact halike.like.now_eq
  · exact hahead.now_eq

theorem suits_amid (h : c.Suits sink room) {around : Circumstances σ}
    (hroom : sink.kind = .staged → around.room = room) : (c.amid around).Suits sink room :=
  ⟨h.current, hroom⟩

theorem follows_amid (h : Follows sink deeds c deeds' c') (hsuits : c'.Suits sink room)
    (hdisk : room = none ∨ room = some 0) {around around' : Circumstances σ}
    (hmatch : around.Matches around') (hroom : sink.kind = .staged → around'.room = room)
    (hlater : c'.now ≤ around'.clock.now) :
    Follows sink deeds (c.amid around) deeds' (c'.amid around') := by
  rcases h with halike | ⟨b, base, stored, tried, hahead⟩
  · exact Or.inl ⟨World.like_amid halike.like hmatch, halike.current_eq, halike.tally_eq,
      halike.uploads_eq⟩
  · have hkind := (hsuits.current b hahead.current_eq).1
    rw [← hkind] at hroom
    have hbase : b.kind = .staged → base.staging.room = room := by
      rw [hkind, hahead.like.staging_eq]
      exact hsuits.room
    exact Or.inr ⟨b, base.amid around', stored, tried, hahead.gone, hahead.current_eq,
      sink.limits.isExpired_mono hlater hahead.expired,
      World.like_amid hahead.like around'.matches_refl, hmatch.now_eq,
      settled_amid hahead.settled hdisk hbase hmatch hroom, hahead.tally_eq, hahead.uploads_eq⟩

/-! ## Moves -/

theorem follows_refuse (h : Follows sink deeds c deeds' c') (dropped : Nat) :
    Follows sink (deeds ++ [.refused dropped]) (c.refuse dropped) (deeds' ++ [.refused dropped])
      (c'.refuse dropped) := by
  have hnone (deeds : List Deed) : uploads (deeds ++ [.refused dropped]) = uploads deeds := by
    rw [uploads_append]
    exact List.append_nil _
  rcases h with halike | ⟨b, base, stored, tried, hahead⟩
  · refine Or.inl ⟨halike.like, halike.current_eq, ?_, ?_⟩
    · show c.tally.refuse dropped = c'.tally.refuse dropped
      rw [halike.tally_eq]
    · rw [hnone, hnone, halike.uploads_eq]
  · refine Or.inr ⟨b, base, stored, tried, hahead.gone, hahead.current_eq, hahead.expired,
      hahead.like, hahead.now_eq, hahead.settled, ?_, ?_⟩
    · show c.tally.refuse dropped = (Fate.ofStored stored).count (c'.tally.refuse dropped) b
      rw [hahead.tally_eq]
      cases stored <;> rfl
    · rw [hnone, hnone, hahead.uploads_eq]

variable [ObjectStore σ]

/-- A move that succeeds and takes no time. -/
structure Smooth (sink : Sink) (c : Coordinator σ) (move : Move) : Prop where
  succeeds : (c.perform sink move).outcome = .ok ()
  now_eq : (c.perform sink move).state.now = c.now

theorem alike_cut_of_alike {due : Snapshot → Bool} (halike : Alike sink deeds c deeds' c')
    (hsuits : c'.Suits sink room) (hmove : c.Smooth sink (.cut due))
    (hmove' : c'.Smooth sink (.cut due))
    (hagree : Agree (c.perform sink (.cut due)).state.world.puts.reverse
      (c'.perform sink (.cut due)).state.world.puts.reverse) :
    Alike sink (deeds ++ (c.perform sink (.cut due)).deeds) (c.perform sink (.cut due)).state
      (deeds' ++ (c'.perform sink (.cut due)).deeds) (c'.perform sink (.cut due)).state := by
  have hpos' : ∀ b, c'.current = some b → b.count ≠ 0 := fun b hb => (hsuits.current b hb).2
  have hnow : c.now = c'.now := halike.like.now_eq
  have hcut' := cut_settled sink due hpos' hmove'.succeeds
  have hcut := cut_settled sink due (halike.current_eq ▸ hpos') hmove.succeeds
  rw [halike.current_eq, hnow] at hcut
  -- One active buffer at one time is due for both or for neither.
  rcases hcut with ⟨hnot, hstill⟩ | ⟨b, stored, tried, hcur, hb, hset, hgone, htally, hup⟩
  · rcases hcut' with ⟨-, hstill'⟩ | ⟨b', _, _, hcur', hb', -⟩
    · rw [hstill, hstill', List.append_nil, List.append_nil]
      exact halike
    · rw [hnot b' hcur'] at hb'
      cases hb'
  · rcases hcut' with ⟨hnot', -⟩ |
      ⟨b', stored', tried', hcur', -, hset', hgone', htally', hup'⟩
    · rw [hnot' b hcur] at hb
      cases hb
    · obtain rfl : b = b' := Option.some.inj (hcur.symm.trans hcur')
      have hend := hmove.now_eq.trans (hnow.trans hmove'.now_eq.symm)
      obtain ⟨rfl, hbodies, hlike⟩ := settled_alike hset hset' halike.like hend hagree
      refine ⟨hlike, hgone.trans hgone'.symm, ?_, ?_⟩
      · rw [htally, htally', halike.tally_eq]
      · rw [uploads_append, uploads_append, hup, hup', hbodies, halike.uploads_eq]

theorem alike_cut_of_ahead {due : Snapshot → Bool}
    (hdue : ∀ s, sink.limits.isExpired s = true → due s = true) {b : Buffer} {base : World σ}
    {stored : Bool} {tried : List Put} (hahead : Ahead sink deeds c deeds' c' b base stored tried)
    (hsuits : c'.Suits sink room) (hmove' : c'.Smooth sink (.cut due))
    (hagree : Agree (c.perform sink (.cut due)).state.world.puts.reverse
      (c'.perform sink (.cut due)).state.world.puts.reverse) :
    Alike sink (deeds ++ (c.perform sink (.cut due)).deeds) (c.perform sink (.cut due)).state
      (deeds' ++ (c'.perform sink (.cut due)).deeds) (c'.perform sink (.cut due)).state := by
  have hcut' := cut_settled sink due (fun b hb => (hsuits.current b hb).2) hmove'.succeeds
  -- There is nothing left to cut for the first, and what it has retired is due for the second.
  have hstill := perform_cut_of_none sink due hahead.gone
  rcases hcut' with ⟨hnot', -⟩ | ⟨b', stored', tried', hcur', -, hset', hgone', htally', hup'⟩
  · have hexpired := hdue _ hahead.expired
    rw [hnot' b hahead.current_eq] at hexpired
    cases hexpired
  · obtain rfl : b = b' := Option.some.inj (hahead.current_eq.symm.trans hcur')
    rw [hstill] at hagree ⊢
    have hend := hahead.now_eq.trans hmove'.now_eq.symm
    obtain ⟨rfl, hbodies, hlike⟩ := settled_alike hahead.settled hset' hahead.like hend hagree
    refine ⟨hlike, hahead.gone.trans hgone'.symm, ?_, ?_⟩
    · rw [htally', hahead.tally_eq]
    · rw [List.append_nil, uploads_append, hup', hahead.uploads_eq, hbodies]

/-- A cut that takes every expired buffer makes two coordinators alike. -/
theorem alike_cut {due : Snapshot → Bool}
    (hdue : ∀ s, sink.limits.isExpired s = true → due s = true)
    (h : Follows sink deeds c deeds' c') (hsuits : c'.Suits sink room)
    (hmove : c.Smooth sink (.cut due)) (hmove' : c'.Smooth sink (.cut due))
    (hagree : Agree (c.perform sink (.cut due)).state.world.puts.reverse
      (c'.perform sink (.cut due)).state.world.puts.reverse) :
    Alike sink (deeds ++ (c.perform sink (.cut due)).deeds) (c.perform sink (.cut due)).state
      (deeds' ++ (c'.perform sink (.cut due)).deeds) (c'.perform sink (.cut due)).state := by
  rcases h with halike | ⟨b, base, stored, tried, hahead⟩
  · exact alike_cut_of_alike halike hsuits hmove hmove' hagree
  · exact alike_cut_of_ahead hdue hahead hsuits hmove' hagree

/-- Where an idle buffer is flushed in one run only, that run gets ahead. -/
theorem follows_flush (h : Follows sink deeds c deeds' c') (hsuits : c'.Suits sink room)
    (hmove : c.Smooth sink (.cut sink.limits.isExpired)) :
    Follows sink (deeds ++ (c.perform sink (.cut sink.limits.isExpired)).deeds)
      (c.perform sink (.cut sink.limits.isExpired)).state deeds' c' := by
  rcases h with halike | ⟨b, base, stored, tried, hahead⟩
  · have hpos : ∀ b, c.current = some b → b.count ≠ 0 := by
      rw [halike.current_eq]
      exact fun b hb => (hsuits.current b hb).2
    rcases cut_settled sink _ hpos hmove.succeeds with
      ⟨-, hstill⟩ | ⟨b, stored, tried, hcur, hexpired, hset, hgone, htally, hup⟩
    · rw [hstill, List.append_nil]
      exact Or.inl halike
    · have hnow : c.now = c'.now := halike.like.now_eq
      refine Or.inr ⟨b, c.world, stored, tried, hgone, ?_, ?_, halike.like, ?_, hset, ?_, ?_⟩
      · rw [← halike.current_eq, hcur]
      · rw [← hnow]
        exact hexpired
      · rw [hmove.now_eq, hnow]
      · rw [htally, halike.tally_eq]
      · rw [uploads_append, hup, halike.uploads_eq]
  · rw [perform_cut_of_none sink _ hahead.gone, List.append_nil]
    exact Or.inr ⟨b, base, stored, tried, hahead⟩

theorem suits_cut {due : Snapshot → Bool} (h : c.Suits sink room)
    (hdisk : room = none ∨ room = some 0) (hmove : c.Smooth sink (.cut due)) :
    (c.perform sink (.cut due)).state.Suits sink room := by
  rcases cut_settled sink due (fun b hb => (h.current b hb).2) hmove.succeeds with
    ⟨-, hstill⟩ | ⟨b, stored, tried, hcur, -, hset, hgone, -⟩
  · rw [hstill]
    exact h
  · refine ⟨fun b' hb' => absurd (hgone.symm.trans hb') (by simp), fun hstaged => ?_⟩
    have hkind := (h.current b hcur).1
    have hsteady : b.kind = .staged → c.world.staging.Steady := by
      intro _
      unfold Staging.Steady
      rw [h.room hstaged]
      exact hdisk
    rw [hset.staging_eq, Buffer.room_discard, Buffer.room_finish hsteady, h.room hstaged]

/-! ## Additions -/

section Additions

omit [ObjectStore σ]

theorem uploads_addDeeds (sink : Sink) (record : Bytes) (c : Coordinator σ) (added : Bool)
    (next : Coordinator σ) : uploads (c.addDeeds sink record added next) = [] := by
  unfold addDeeds
  cases c.takeBuffer sink with
  | mk outcome opened =>
    cases outcome with
    | error e => rfl
    | ok b => cases added <;> rfl

theorem suits_write (hdisk : room = none ∨ room = some 0) {b : Buffer} {s : Staging}
    (hkind : b.kind = sink.kind) (hroom : sink.kind = .staged → s.room = room) (record : Bytes) :
    (∀ b' s', b.append record s = (.ok b', s') → b'.kind = sink.kind ∧ b'.count ≠ 0) ∧
      (sink.kind = .staged → (b.append record s).2.room = room) := by
  have hsteady : b.kind = .staged → s.Steady := by
    intro hstaged
    unfold Staging.Steady
    rw [hroom (hkind ▸ hstaged)]
    exact hdisk
  refine ⟨?_, fun hstaged => (Buffer.room_append hsteady record).trans (hroom hstaged)⟩
  intro b' s' happend
  obtain ⟨hsame, hcount⟩ := Buffer.kind_append happend
  exact ⟨hsame.trans hkind, by omega⟩

theorem suits_append (h : c.Suits sink room) (hdisk : room = none ∨ room = some 0)
    (record : Bytes) : (c.append sink record).2.Suits sink room := by
  have hwritten {b : Buffer} {s : Staging} (hkind : b.kind = sink.kind)
      (hroom : sink.kind = .staged → s.room = room) := suits_write hdisk hkind hroom record
  unfold append takeBuffer
  cases hcur : c.current with
  | some b =>
    obtain ⟨hbuffer, hroom⟩ := hwritten (h.current b hcur).1 h.room
    simp only
    cases happend : b.append record c.world.staging with
    | mk outcome s =>
      rw [happend] at hroom
      cases outcome with
      | error e =>
        exact ⟨fun b' hb' => (nomatch hb'), fun hk => (b.room_discard s).trans (hroom hk)⟩
      | ok b' => exact ⟨fun b₁ hb₁ => Option.some.inj hb₁ ▸ hbuffer b' s happend, hroom⟩
  | none =>
    have hcreated := Buffer.room_create sink.kind c.now c.world.staging
    cases hcreate : Buffer.create sink.kind c.now c.world.staging with
    | mk outcome s =>
      rw [hcreate] at hcreated
      have hs : sink.kind = .staged → s.room = room := fun hk => hcreated.trans (h.room hk)
      cases outcome with
      | error e => exact ⟨fun b hb => (nomatch hb), hs⟩
      | ok b =>
        obtain ⟨hbuffer, hroom⟩ := hwritten (Buffer.kind_create hcreate) hs
        simp only
        cases happend : b.append record s with
        | mk outcome s' =>
          rw [happend] at hroom
          cases outcome with
          | error e =>
            exact ⟨fun b' hb' => (nomatch hb'), fun hk => (b.room_discard s').trans (hroom hk)⟩
          | ok b' => exact ⟨fun b₁ hb₁ => Option.some.inj hb₁ ▸ hbuffer b' s' happend, hroom⟩

theorem suits_add (h : c.Suits sink room) (hdisk : room = none ∨ room = some 0) (record : Bytes) :
    (c.add sink record).2.Suits sink room := by
  have hsuits := suits_append h hdisk record
  unfold add
  cases happend : c.append sink record with
  | mk added next =>
    rw [happend] at hsuits
    cases added <;> exact ⟨hsuits.current, hsuits.room⟩

end Additions

theorem alike_add (h : Alike sink deeds c deeds' c') (record : Bytes) :
    Alike sink (deeds ++ (c.perform sink (.add record)).deeds)
      (c.perform sink (.add record)).state
      (deeds' ++ (c'.perform sink (.add record)).deeds) (c'.perform sink (.add record)).state := by
  have hframe := add_frame sink record h.like.now_eq h.current_eq h.tally_eq h.like.staging_eq
  have hkept := add_world sink record c'
  have hnone {c : Coordinator σ} {deeds : List Deed} :
      uploads (deeds ++ (c.perform sink (.add record)).deeds) = uploads deeds := by
    rw [uploads_append]
    show uploads deeds ++ uploads (c.addDeeds sink record _ _) = uploads deeds
    rw [uploads_addDeeds, List.append_nil]
  refine ⟨?_, ?_, ?_, ?_⟩
  · show ((c.add sink record).2.world).Like sink (c'.add sink record).2.world
    rw [hframe, hkept]
    exact ⟨h.like.now_eq, rfl, h.like.chance_eq, h.like.ids_eq, h.like.puts⟩
  · show (c.add sink record).2.current = (c'.add sink record).2.current
    rw [hframe]
  · show (c.add sink record).2.tally = (c'.add sink record).2.tally
    rw [hframe]
  · rw [hnone, hnone, h.uploads_eq]

/-! ## Calls -/

theorem puts_suffix_perform (sink : Sink) (c : Coordinator σ) (move : Move) :
    c.world.puts <:+ (c.perform sink move).state.world.puts := by
  cases move with
  | refuse dropped => exact List.suffix_refl _
  | cut due =>
    rcases perform_cut_cases sink due c with ⟨-, hstill⟩ | ⟨b, _, next, _, _, hretire, hcourse⟩
    · rw [hstill]
    · have hputs := puts_suffix_retire sink b { c with current := none }
      rw [hretire] at hputs
      rw [hcourse]
      exact hputs
  | add record =>
    show c.world.puts <:+ (c.add sink record).2.world.puts
    rw [add_world]

theorem puts_suffix_performAll (sink : Sink) (moves : List Move) (c : Coordinator σ) :
    c.world.puts <:+ (c.performAll sink moves).state.world.puts :=
  @performAll_invariant _ _ sink (fun _ next => c.world.puts <:+ next.world.puts)
    (fun _ next move h => h.trans (puts_suffix_perform sink next move)) moves [] c
    (List.suffix_refl _)

theorem puts_suffix_run (sink : Sink) (calls : List (Circumstances σ × Call))
    (c : Coordinator σ) : c.world.puts <:+ (c.run sink calls).final.world.puts :=
  @run_invariant _ _ sink (fun _ next => c.world.puts <:+ next.world.puts)
    (fun _ next move h => h.trans (puts_suffix_perform sink next move))
    (fun _ _ _ h => h) calls [] c (List.suffix_refl _)

theorem smooth_cons {move : Move} {rest : List Move}
    (h : ∀ entry ∈ c.steps sink (move :: rest), entry.1.Smooth sink entry.2) :
    c.Smooth sink move ∧
      (∀ entry ∈ (c.perform sink move).state.steps sink rest, entry.1.Smooth sink entry.2) ∧
      (c.performAll sink (move :: rest)).deeds = (c.perform sink move).deeds ++
        ((c.perform sink move).state.performAll sink rest).deeds ∧
      (c.performAll sink (move :: rest)).state =
        ((c.perform sink move).state.performAll sink rest).state := by
  have hmove : c.Smooth sink move := h (c, move) List.mem_cons_self
  have hok := hmove.succeeds
  simp only [steps, performAll, hok] at h ⊢
  exact ⟨hmove, fun entry he => h entry (List.mem_cons_of_mem _ he), trivial, trivial⟩

theorem follows_moves (hdisk : room = none ∨ room = some 0) (records : List Record)
    (h : Follows sink deeds c deeds' c') (hsuits : c'.Suits sink room)
    (hsmooth : ∀ entry ∈ c.steps sink (sink.moves records), entry.1.Smooth sink entry.2)
    (hsmooth' : ∀ entry ∈ c'.steps sink (sink.moves records), entry.1.Smooth sink entry.2)
    (hagree : Agree (c.performAll sink (sink.moves records)).state.world.puts.reverse
      (c'.performAll sink (sink.moves records)).state.world.puts.reverse) :
    Follows sink (deeds ++ (c.performAll sink (sink.moves records)).deeds)
        (c.performAll sink (sink.moves records)).state
        (deeds' ++ (c'.performAll sink (sink.moves records)).deeds)
        (c'.performAll sink (sink.moves records)).state ∧
      (c'.performAll sink (sink.moves records)).state.Suits sink room ∧
      (c.performAll sink (sink.moves records)).state.now = c.now := by
  induction records generalizing deeds c deeds' c' with
  | nil => exact ⟨by simpa [Sink.moves, performAll] using h, hsuits, rfl⟩
  | cons record rest ih =>
    unfold Sink.moves at hsmooth hsmooth' hagree ⊢
    cases hcode : sink.codec.encode record with
    | error fault =>
      cases hpolicy : sink.policy with
      | abort => exact ⟨follows_refuse h _, ⟨hsuits.current, hsuits.room⟩, rfl⟩
      | skip =>
        simp only [hcode, hpolicy] at hsmooth hsmooth' hagree ⊢
        obtain ⟨-, hrest, hdeeds, hstate⟩ := smooth_cons hsmooth
        obtain ⟨-, hrest', hdeeds', hstate'⟩ := smooth_cons hsmooth'
        rw [hstate, hstate'] at hagree
        rw [hdeeds, hdeeds', hstate, hstate', ← List.append_assoc, ← List.append_assoc]
        exact ih (follows_refuse h 1) ⟨hsuits.current, hsuits.room⟩ hrest hrest' hagree
    | ok bytes =>
      simp only [hcode] at hsmooth hsmooth' hagree ⊢
      obtain ⟨hcut, hadding, hdeeds, hstate⟩ := smooth_cons hsmooth
      obtain ⟨hadd, hrest, hdeeds₁, hstate₁⟩ := smooth_cons hadding
      obtain ⟨hcut', hadding', hdeeds', hstate'⟩ := smooth_cons hsmooth'
      obtain ⟨hadd', hrest', hdeeds₁', hstate₁'⟩ := smooth_cons hadding'
      have hcutoff := alike_cut (fun _ hs => Limits.shouldFlush_of_isExpired hs) h hsuits hcut hcut'
        (hagree.earlier (hstate ▸ puts_suffix_performAll ..) (hstate' ▸ puts_suffix_performAll ..))
      have hadded := alike_add hcutoff bytes
      have hsuits' := suits_add (suits_cut hsuits hdisk hcut') hdisk bytes
      rw [hstate, hstate₁, hstate', hstate₁'] at hagree
      obtain ⟨hfollows, hlast, hnow⟩ := ih (Or.inl hadded) hsuits' hrest hrest' hagree
      rw [hdeeds, hdeeds₁, hdeeds', hdeeds₁', hstate, hstate₁, hstate', hstate₁']
      simp only [List.append_assoc] at hfollows
      exact ⟨hfollows, hlast, hnow.trans (hadd.now_eq.trans hcut.now_eq)⟩

/-! ## Runs -/

theorem run_amid (sink : Sink) (c : Coordinator σ) (around : Circumstances σ)
    (calls : List (Circumstances σ × Call)) (h : calls ≠ []) :
    (c.amid around).run sink calls = c.run sink calls ∧
      (c.amid around).runSteps sink calls = c.runSteps sink calls := by
  cases calls with
  | nil => exact absurd rfl h
  | cons entry rest => exact ⟨rfl, rfl⟩

theorem alike_run (hdisk : room = none ∨ room = some 0) {last last' : Circumstances σ}
    (hlast : last.Matches last') {calls calls' : List (Circumstances σ × Call)}
    (hcalls : Interspersed calls calls') (h : Follows sink deeds c deeds' c')
    (hsuits : c'.Suits sink room)
    (hroom : sink.kind = .staged →
      ∀ entry ∈ calls ++ [(last, Call.shutdown)], entry.1.room = room)
    (hsorted : (c.now :: (calls ++ [(last, Call.shutdown)]).map fun entry =>
      entry.1.clock.now).Pairwise (· ≤ ·))
    (hsmooth : ∀ entry ∈ c.runSteps sink (calls ++ [(last, .shutdown)]),
      entry.1.Smooth sink entry.2)
    (hsmooth' : ∀ entry ∈ c'.runSteps sink (calls' ++ [(last', .shutdown)]),
      entry.1.Smooth sink entry.2)
    (hagree : Agree (c.run sink (calls ++ [(last, .shutdown)])).final.world.puts.reverse
      (c'.run sink (calls' ++ [(last', .shutdown)])).final.world.puts.reverse) :
    Alike sink (deeds ++ (c.run sink (calls ++ [(last, .shutdown)])).deeds)
      (c.run sink (calls ++ [(last, .shutdown)])).final
      (deeds' ++ (c'.run sink (calls' ++ [(last', .shutdown)])).deeds)
      (c'.run sink (calls' ++ [(last', .shutdown)])).final := by
  have hnow := h.now_eq
  induction hcalls generalizing deeds c deeds' c' with
  | nil =>
    have hlater : c'.now ≤ last'.clock.now := by
      rw [← hnow, ← hlast.now_eq]
      exact (List.pairwise_cons.mp hsorted).1 _ (by simp)
    have hdiskAt : sink.kind = .staged → last'.room = room := fun hk =>
      hlast.room_eq ▸ hroom hk (last, .shutdown) (by simp)
    have hamid := follows_amid h hsuits hdisk hlast hdiskAt hlater
    simp only [List.nil_append, runSteps, Call.moves, steps_singleton, List.append_nil,
      List.mem_singleton, forall_eq] at hsmooth hsmooth'
    simp only [List.nil_append, run, call_eq, Call.moves, performAll_singleton,
      List.append_nil] at hagree ⊢
    exact alike_cut (fun _ _ => rfl) hamid (suits_amid hsuits hdiskAt) hsmooth hsmooth' hagree
  | @flushed calls calls' around hrest ih =>
    have hlater : c'.now ≤ around.clock.now := by
      rw [← hnow]
      exact (List.pairwise_cons.mp hsorted).1 _ (by simp)
    have hdiskAt : sink.kind = .staged → around.room = room := fun hk =>
      hroom hk (around, .flushExpired) (by simp)
    have hamid := follows_amid h hsuits hdisk around.matches_refl hdiskAt hlater
    -- The other run does not make this call, and does not look at these surroundings.
    obtain ⟨hrun', hsteps'⟩ := run_amid sink c' around (calls' ++ [(last', .shutdown)]) (by simp)
    rw [← hsteps'] at hsmooth'
    simp only [List.cons_append, runSteps, call_eq, Call.moves, steps_singleton,
      performAll_singleton, List.forall_mem_cons] at hsmooth
    obtain ⟨hmove, hsmooth⟩ := hsmooth
    simp only [List.cons_append, run, call_eq, Call.moves, performAll_singleton,
      ← hrun', ← List.append_assoc] at hagree ⊢
    have hflush := follows_flush hamid (suits_amid hsuits hdiskAt) hmove
    refine ih hflush (suits_amid hsuits hdiskAt) ?_ ?_ hsmooth hsmooth' hagree hflush.now_eq
    · exact fun hk entry hentry => hroom hk entry (List.mem_cons_of_mem _ hentry)
    · rw [hmove.now_eq]
      exact (List.pairwise_cons.mp hsorted).2
  | @accepted calls calls' around around' hmatch batch hrest ih =>
    have hlater : c'.now ≤ around'.clock.now := by
      rw [← hnow, ← hmatch.now_eq]
      exact (List.pairwise_cons.mp hsorted).1 _ (by simp)
    have hdiskAt : sink.kind = .staged → around'.room = room := fun hk =>
      hmatch.room_eq ▸ hroom hk (around, .accept batch) (by simp)
    have hamid := follows_amid h hsuits hdisk hmatch hdiskAt hlater
    simp only [List.cons_append, runSteps, call_eq, Call.moves,
      List.forall_mem_append] at hsmooth hsmooth'
    simp only [List.cons_append, run, call_eq, Call.moves, ← List.append_assoc] at hagree ⊢
    obtain ⟨hfollows, hsuits', hend⟩ := follows_moves hdisk batch hamid (suits_amid hsuits hdiskAt)
      hsmooth.1 hsmooth'.1
      (hagree.earlier (puts_suffix_run sink _ _) (puts_suffix_run sink _ _))
    refine ih hfollows hsuits' ?_ ?_ hsmooth.2 hsmooth'.2 hagree hfollows.now_eq
    · exact fun hk entry hentry => hroom hk entry (List.mem_cons_of_mem _ hentry)
    · rw [hend]
      exact (List.pairwise_cons.mp hsorted).2

theorem run_append (sink : Sink) (calls more : List (Circumstances σ × Call))
    (c : Coordinator σ) :
    (c.run sink (calls ++ more)).final = ((c.run sink calls).final.run sink more).final ∧
      c.runSteps sink (calls ++ more) =
        c.runSteps sink calls ++ (c.run sink calls).final.runSteps sink more := by
  induction calls generalizing c with
  | nil => exact ⟨rfl, rfl⟩
  | cons entry rest ih =>
    obtain ⟨around, call⟩ := entry
    obtain ⟨hfinal, hsteps⟩ := ih ((c.amid around).call sink call).2
    simp only [List.cons_append, run, runSteps, hfinal, hsteps, List.append_assoc]
    exact ⟨trivial, trivial⟩

theorem shutdown_eq (sink : Sink) (calls : List (Circumstances σ × Call)) (last : Circumstances σ)
    (c : Coordinator σ)
    (hsmooth : ∀ entry ∈ c.runSteps sink (calls ++ [(last, .shutdown)]),
      entry.1.Smooth sink entry.2) :
    ((c.run sink calls).final.amid last).shutdown sink =
      (.ok (c.run sink (calls ++ [(last, .shutdown)])).final.tally,
        (c.run sink (calls ++ [(last, .shutdown)])).final) := by
  obtain ⟨hfinal, hsteps⟩ := run_append sink calls [(last, .shutdown)] c
  rw [hsteps] at hsmooth
  rw [hfinal]
  simp only [runSteps, Call.moves, steps_singleton, List.append_nil, List.forall_mem_append,
    List.mem_singleton, forall_eq] at hsmooth
  have hok := hsmooth.2.succeeds
  simp only [run, call, perform, shutdown] at hok ⊢
  cases hflush : ((c.run sink calls).final.amid last).flushWhen sink fun _ => true with
  | mk outcome next =>
    rw [hflush] at hok
    cases outcome with
    | error e => cases hok
    | ok flushed => rfl

/-- Flushes of idle buffers among batches, where no move fails or takes time, where the
n-th put ends alike with them and without them, and where staging files find the disk
full always or never, change neither the bodies that are offered, nor which of them
are stored, nor how the uploads end, nor the totals that are answered in the end.
Names differ in the time at most. -/
theorem expiry_transparent (sink : Sink) (world : World σ) {room : Option Nat}
    (hdisk : room = none ∨ room = some 0) {calls calls' : List (Circumstances σ × Call)}
    (hcalls : Interspersed calls calls') {last last' : Circumstances σ}
    (hlast : last.Matches last')
    (hroom : sink.kind = .staged →
      ∀ entry ∈ calls ++ [(last, Call.shutdown)], entry.1.room = room)
    (hsorted : ((calls ++ [(last, Call.shutdown)]).map fun entry =>
      entry.1.clock.now).Pairwise (· ≤ ·))
    (hsmooth : ∀ entry ∈ (start world).runSteps sink (calls ++ [(last, .shutdown)]),
      entry.1.Smooth sink entry.2)
    (hsmooth' : ∀ entry ∈ (start world).runSteps sink (calls' ++ [(last', .shutdown)]),
      entry.1.Smooth sink entry.2)
    (hagree : Agree
      (world.putsUntil ((start world).run sink (calls ++ [(last, .shutdown)])).final.world)
      (world.putsUntil ((start world).run sink (calls' ++ [(last', .shutdown)])).final.world)) :
    let filled := ((start world).run sink calls).final.amid last
    let filled' := ((start world).run sink calls').final.amid last'
    let history := (start world).run sink (calls ++ [(last, .shutdown)])
    let history' := (start world).run sink (calls' ++ [(last', .shutdown)])
    List.Forall₂ (SameOffer sink) (world.putsUntil history.final.world)
        (world.putsUntil history'.final.world) ∧
      uploads history.deeds = uploads history'.deeds ∧
      ∃ tally, filled.shutdown sink = (.ok tally, history.final) ∧
        filled'.shutdown sink = (.ok tally, history'.final) := by
  intro filled filled' history history'
  let first : Circumstances σ := ⟨{}, world.store, true, room⟩
  obtain ⟨hrun, hsteps⟩ :=
    run_amid sink (start world) first (calls ++ [(last, .shutdown)]) (by simp)
  obtain ⟨hrun', hsteps'⟩ :=
    run_amid sink (start world) first (calls' ++ [(last', .shutdown)]) (by simp)
  have hstart : Follows sink [] ((start world).amid first) [] ((start world).amid first) :=
    Or.inl ⟨World.like_refl sink _, rfl, rfl, rfl⟩
  have hputs := World.reverse_puts_eq (puts_suffix_run sink (calls ++ [(last, .shutdown)])
    (start world))
  have hputs' := World.reverse_puts_eq (puts_suffix_run sink (calls' ++ [(last', .shutdown)])
    (start world))
  have halike := alike_run hdisk hlast hcalls hstart ⟨fun b hb => (nomatch hb), fun _ => rfl⟩ hroom
    (List.pairwise_cons.mpr ⟨fun _ _ => Nat.zero_le _, hsorted⟩) (hsteps ▸ hsmooth)
    (hsteps' ▸ hsmooth') (by
      rw [hrun, hrun', hputs, hputs']
      exact hagree.append_left _)
  rw [hrun, hrun'] at halike
  refine ⟨?_, halike.uploads_eq, history.final.tally, shutdown_eq sink calls last _ hsmooth, ?_⟩
  · have hall := halike.like.puts
    rw [hputs, hputs'] at hall
    have hmade := List.forall₂_drop (start world).world.puts.reverse.length hall
    rw [List.drop_left, List.drop_left] at hmade
    exact hmade
  · rw [halike.tally_eq]
    exact shutdown_eq sink calls' last' _ hsmooth'

/-- A record is flushed a minute after it came, and not only at the end. -/
theorem expiry_transparent_sample :
    let calls : List (Circumstances MemoryStore × Call) :=
      [(Sample.calm, .accept [Sample.record "a"]), (Sample.later, .flushExpired)]
    let calls' : List (Circumstances MemoryStore × Call) :=
      [(Sample.calm, .accept [Sample.record "a"])]
    let history := (start Sample.world).run Sample.sink (calls ++ [(Sample.later, .shutdown)])
    let history' := (start Sample.world).run Sample.sink (calls' ++ [(Sample.later, .shutdown)])
    Interspersed calls calls' ∧ Sample.later.Matches Sample.later ∧
    (Sample.sink.kind = .staged →
      ∀ entry ∈ calls ++ [(Sample.later, Call.shutdown)], entry.1.room = none) ∧
    ((calls ++ [(Sample.later, Call.shutdown)]).map fun entry =>
      entry.1.clock.now).Pairwise (· ≤ ·) ∧
    (∀ entry ∈ (start Sample.world).runSteps Sample.sink (calls ++ [(Sample.later, .shutdown)]),
      entry.1.Smooth Sample.sink entry.2) ∧
    (∀ entry ∈ (start Sample.world).runSteps Sample.sink (calls' ++ [(Sample.later, .shutdown)]),
      entry.1.Smooth Sample.sink entry.2) ∧
    Agree (Sample.world.putsUntil history.final.world)
      (Sample.world.putsUntil history'.final.world) ∧
    uploads history.deeds = uploads history'.deeds ∧
    uploads history.deeds = [(.stored, [.bytes [97, lineFeed]])] := by
  intro calls calls' history history'
  have hcalls : Interspersed calls calls' :=
    .accepted Sample.calm.matches_refl _ (.flushed Sample.later .nil)
  have hroom : Sample.sink.kind = .staged →
      ∀ entry ∈ calls ++ [(Sample.later, Call.shutdown)], entry.1.room = none := fun h => nomatch h
  have hsorted : ((calls ++ [(Sample.later, Call.shutdown)]).map fun entry =>
      entry.1.clock.now).Pairwise (· ≤ ·) := by decide
  have hsmooth : ∀ entry ∈ (start Sample.world).runSteps Sample.sink
      (calls ++ [(Sample.later, .shutdown)]), entry.1.Smooth Sample.sink entry.2 := by
    intro entry hentry
    have hsteps : entry ∈ [_, _, _, _] := hentry
    simp only [List.mem_cons, List.not_mem_nil, or_false] at hsteps
    rcases hsteps with rfl | rfl | rfl | rfl <;> exact ⟨rfl, rfl⟩
  have hsmooth' : ∀ entry ∈ (start Sample.world).runSteps Sample.sink
      (calls' ++ [(Sample.later, .shutdown)]), entry.1.Smooth Sample.sink entry.2 := by
    intro entry hentry
    have hsteps : entry ∈ [_, _, _] := hentry
    simp only [List.mem_cons, List.not_mem_nil, or_false] at hsteps
    rcases hsteps with rfl | rfl | rfl <;> exact ⟨rfl, rfl⟩
  have hagree : Agree (Sample.world.putsUntil history.final.world)
      (Sample.world.putsUntil history'.final.world) := .of_all_succeeded rfl rfl
  obtain ⟨-, huploads, -⟩ := expiry_transparent Sample.sink Sample.world (Or.inl rfl) hcalls
    Sample.later.matches_refl hroom hsorted hsmooth hsmooth' hagree
  exact ⟨hcalls, Sample.later.matches_refl, hroom, hsorted, hsmooth, hsmooth', hagree, huploads,
    rfl⟩

/-- The disk is full when an idle buffer is flushed, and not at the end, when it would
have been flushed too.  No put fails, but the record is stored without that flush
only. -/
theorem expiry_on_full_disk_visible :
    let calls : List (Circumstances MemoryStore × Call) :=
      [(Sample.calm, .accept [Sample.record "a"]), (Sample.laterFull, .flushExpired)]
    let calls' : List (Circumstances MemoryStore × Call) :=
      [(Sample.calm, .accept [Sample.record "a"])]
    let whole := calls ++ [(Sample.later, .shutdown)]
    let whole' := calls' ++ [(Sample.later, .shutdown)]
    let history := (start Sample.world).run Sample.stagedSink whole
    let history' := (start Sample.world).run Sample.stagedSink whole'
    Interspersed calls calls' ∧ Sample.later.Matches Sample.later ∧
    (whole.map fun entry => entry.1.clock.now).Pairwise (· ≤ ·) ∧
    (∀ entry ∈ (start Sample.world).runSteps Sample.stagedSink whole,
      entry.1.Smooth Sample.stagedSink entry.2) ∧
    (∀ entry ∈ (start Sample.world).runSteps Sample.stagedSink whole',
      entry.1.Smooth Sample.stagedSink entry.2) ∧
    Agree (Sample.world.putsUntil history.final.world)
      (Sample.world.putsUntil history'.final.world) ∧
    (Sample.world.putsUntil history.final.world).map (·.body.content?) = [] ∧
    (Sample.world.putsUntil history'.final.world).map (·.body.content?) =
      [some [97, lineFeed]] ∧
    history.final.tally.buffersLost = 1 ∧ history'.final.tally.buffersLost = 0 := by
  intro calls calls' whole whole' history history'
  have hcalls : Interspersed calls calls' :=
    .accepted Sample.calm.matches_refl _ (.flushed Sample.laterFull .nil)
  have hsorted : (whole.map fun entry => entry.1.clock.now).Pairwise (· ≤ ·) := by decide
  have hsmooth : ∀ entry ∈ (start Sample.world).runSteps Sample.stagedSink whole,
      entry.1.Smooth Sample.stagedSink entry.2 := by
    intro entry hentry
    have hsteps : entry ∈ [_, _, _, _] := hentry
    simp only [List.mem_cons, List.not_mem_nil, or_false] at hsteps
    rcases hsteps with rfl | rfl | rfl | rfl <;> exact ⟨rfl, rfl⟩
  have hsmooth' : ∀ entry ∈ (start Sample.world).runSteps Sample.stagedSink whole',
      entry.1.Smooth Sample.stagedSink entry.2 := by
    intro entry hentry
    have hsteps : entry ∈ [_, _, _] := hentry
    simp only [List.mem_cons, List.not_mem_nil, or_false] at hsteps
    rcases hsteps with rfl | rfl | rfl <;> exact ⟨rfl, rfl⟩
  exact ⟨hcalls, Sample.later.matches_refl, hsorted, hsmooth, hsmooth',
    .of_all_succeeded rfl rfl, rfl, rfl, rfl, rfl⟩

end Coordinator

end RecordArchive
