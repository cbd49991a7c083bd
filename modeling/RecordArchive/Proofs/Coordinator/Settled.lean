import Mathlib.Data.List.Forall2
import Mathlib.Data.List.Infix
import RecordArchive.Proofs.Buffer.Steady
import RecordArchive.Proofs.Coordinator.Ledger

/-!
# Uploads that run to their end

An upload that is not cancelled spends its budget, so how the attempts end settles
how many there are and whether the buffer is stored.  The main statement is
`settled_alike`: two retirements of one buffer between which nothing differs but the
moment offer the same bodies and end alike, if the n-th put of the one run ends like
the n-th put of the other.
-/

namespace RecordArchive

/-! ## Puts at the same place -/

/-- Puts at the same place end alike, as far as both lists go. -/
def Agree (puts puts' : List Put) : Prop :=
  ∀ (n : Nat) (put put' : Put), puts[n]? = some put → puts'[n]? = some put' →
    put.succeeded = put'.succeeded

namespace Agree

variable {puts puts' more more' : List Put} {put put' : Put}

theorem of_prefix (h : Agree puts puts') {first first' : List Put} (hfirst : first <+: puts)
    (hfirst' : first' <+: puts') : Agree first first' := by
  obtain ⟨rest, rfl⟩ := hfirst
  obtain ⟨rest', rfl⟩ := hfirst'
  intro n put put' hput hput'
  obtain ⟨hlt, -⟩ := List.getElem?_eq_some_iff.mp hput
  obtain ⟨hlt', -⟩ := List.getElem?_eq_some_iff.mp hput'
  refine h n put put' ?_ ?_
  · rw [List.getElem?_append_left hlt, hput]
  · rw [List.getElem?_append_left hlt', hput']

theorem of_all_succeeded (h : puts.all Put.succeeded = true) (h' : puts'.all Put.succeeded = true) :
    Agree puts puts' := by
  intro n put put' hput hput'
  rw [List.all_eq_true.mp h put (List.mem_of_getElem? hput),
    List.all_eq_true.mp h' put' (List.mem_of_getElem? hput')]

theorem earlier {late late' early early' : List Put} (h : Agree late.reverse late'.reverse)
    (hearly : early <:+ late) (hearly' : early' <:+ late') : Agree early.reverse early'.reverse :=
  h.of_prefix (List.reverse_prefix.mpr hearly) (List.reverse_prefix.mpr hearly')

theorem of_append (h : Agree (puts ++ more) (puts' ++ more'))
    (hlength : puts.length = puts'.length) : Agree more more' := by
  intro n put put' hput hput'
  refine h (puts.length + n) put put' ?_ ?_
  · rw [List.getElem?_append_right (Nat.le_add_right _ _), Nat.add_sub_cancel_left, hput]
  · rw [hlength, List.getElem?_append_right (Nat.le_add_right _ _), Nat.add_sub_cancel_left, hput']

theorem append_left (h : Agree more more') (puts : List Put) :
    Agree (puts ++ more) (puts ++ more') := by
  intro n put put' hput hput'
  by_cases hn : n < puts.length
  · rw [List.getElem?_append_left hn] at hput hput'
    rw [Option.some.inj (hput.symm.trans hput')]
  · rw [List.getElem?_append_right (Nat.le_of_not_lt hn)] at hput hput'
    exact h _ put put' hput hput'

theorem head (h : Agree (put :: more) (put' :: more')) : put.succeeded = put'.succeeded :=
  h 0 put put' rfl rfl

theorem tail (h : Agree (put :: more) (put' :: more')) : Agree more more' :=
  fun n p p' hp hp' => h (n + 1) p p' hp hp'

end Agree

/-- The name of an object of a sink. -/
def Sink.nameAt (sink : Sink) (now : Instant) (id : Naming.Uuid) : ObjectName :=
  ⟨sink.bucket, sink.namer.key now id⟩

/-- One body is offered, and is stored both times or neither; the names differ in the
time at most. -/
structure SameOffer (sink : Sink) (put put' : Put) : Prop where
  body_eq : put.body = put'.body
  succeeded_eq : put.succeeded = put'.succeeded
  name : put.name = put'.name ∨
    ∃ now now' id, put.name = sink.nameAt now id ∧ put'.name = sink.nameAt now' id

/-- Puts of one body by a sink under an identifier. -/
def Offers (sink : Sink) (body : Body) (id : Naming.Uuid) (puts : List Put) : Prop :=
  ∀ put ∈ puts, put.body = body ∧ ∃ now, put.name = sink.nameAt now id

/-- Budgets are spent alike on attempts that end alike. -/
theorem spent_alike {sink : Sink} {body : Body} {id : Naming.Uuid} {budget : Nat}
    {tried tried' : List Put} {stored stored' : Bool} (h : Spent budget tried stored)
    (h' : Spent budget tried' stored') (hoffers : Offers sink body id tried)
    (hoffers' : Offers sink body id tried') (hagree : Agree tried tried') :
    stored = stored' ∧ List.Forall₂ (SameOffer sink) tried tried' := by
  have hsame {put put' : Put} (hput : put ∈ tried) (hput' : put' ∈ tried')
      (hend : put.succeeded = put'.succeeded) : SameOffer sink put put' := by
    obtain ⟨hbody, now, hname⟩ := hoffers put hput
    obtain ⟨hbody', now', hname'⟩ := hoffers' put' hput'
    exact ⟨hbody.trans hbody'.symm, hend, Or.inr ⟨now, now', id, hname, hname'⟩⟩
  induction h generalizing tried' with
  | stored hput =>
    cases h' with
    | stored hput' =>
      exact ⟨rfl, .cons (hsame (by simp) (by simp) hagree.head) .nil⟩
    | used hput' => simp [hagree.head, hput'] at hput
    | again hput' hrest' => simp [hagree.head, hput'] at hput
  | used hput =>
    cases h' with
    | stored hput' => simp [hagree.head, hput'] at hput
    | used hput' => exact ⟨rfl, .cons (hsame (by simp) (by simp) hagree.head) .nil⟩
    | again hput' hrest' => cases hrest'
  | again hput hrest ih =>
    cases h' with
    | stored hput' => simp [hagree.head, hput'] at hput
    | used hput' => cases hrest
    | again hput' hrest' =>
      obtain ⟨hstored, htail⟩ := ih hrest' (fun p hp => hoffers p (List.mem_cons_of_mem _ hp))
        (fun p hp => hoffers' p (List.mem_cons_of_mem _ hp)) hagree.tail
        (fun hp hp' => hsame (List.mem_cons_of_mem _ hp) (List.mem_cons_of_mem _ hp'))
      exact ⟨hstored, .cons (hsame List.mem_cons_self List.mem_cons_self hagree.head) htail⟩

theorem map_body_eq {sink : Sink} {puts puts' : List Put}
    (h : List.Forall₂ (SameOffer sink) puts puts') : puts.map (·.body) = puts'.map (·.body) := by
  induction h with
  | nil => rfl
  | cons hput _ ih => rw [List.map_cons, List.map_cons, hput.body_eq, ih]

/-! ## Worlds -/

variable {σ : Type}

/-- Nothing differs but the store, what is to come of cancellation and of chance in
pauses, and the time in names. -/
structure World.Like (sink : Sink) (w w' : World σ) : Prop where
  now_eq : w.clock.now = w'.clock.now
  staging_eq : w.staging = w'.staging
  chance_eq : w.chance = w'.chance
  ids_eq : w.idsDrawn = w'.idsDrawn
  puts : List.Forall₂ (SameOffer sink) w.puts.reverse w'.puts.reverse

theorem World.reverse_puts_eq {before after : World σ} (h : before.puts <:+ after.puts) :
    after.puts.reverse = before.puts.reverse ++ before.putsUntil after := by
  obtain ⟨made, hmade⟩ := h
  rw [World.putsUntil_eq hmade.symm, ← hmade, List.reverse_append]

theorem World.like_refl (sink : Sink) (w : World σ) : w.Like sink w :=
  ⟨rfl, rfl, rfl, rfl, List.forall₂_same.mpr fun _ _ => ⟨rfl, rfl, Or.inl rfl⟩⟩

/-- A buffer was retired between two moments and not cancelled. -/
structure Settled (sink : Sink) (b : Buffer) (before after : World σ) (stored : Bool)
    (tried : List Put) : Prop where
  puts_eq : after.puts.reverse = before.puts.reverse ++ tried
  staging_eq : after.staging = b.discard (b.finish before.staging).2
  chance_eq : after.chance = before.chance
  ids_eq : after.idsDrawn = before.idsDrawn + 1
  offers : Offers sink ({ before with staging := (b.finish before.staging).2 }.bodyOf b)
    (before.chance.ids before.idsDrawn) tried
  spent : match (b.finish before.staging).1 with
    | .error _ => stored = false ∧ tried = []
    | .ok () => Spent sink.retrier.attempts tried stored

theorem settled_alike {sink : Sink} {b : Buffer} {before before' after after' : World σ}
    {stored stored' : Bool} {tried tried' : List Put}
    (h : Settled sink b before after stored tried)
    (h' : Settled sink b before' after' stored' tried') (hlike : before.Like sink before')
    (hnow : after.clock.now = after'.clock.now)
    (hagree : Agree after.puts.reverse after'.puts.reverse) :
    stored = stored' ∧ tried.map (·.body) = tried'.map (·.body) ∧ after.Like sink after' := by
  have hlength := hlike.puts.length_eq
  rw [h.puts_eq, h'.puts_eq] at hagree
  have htried : stored = stored' ∧ List.Forall₂ (SameOffer sink) tried tried' := by
    have hspent := h.spent
    have hspent' := h'.spent
    have hoffers := h.offers
    have hoffers' := h'.offers
    have hbody : ({ before with staging := (b.finish before.staging).2 }.bodyOf b) =
        ({ before' with staging := (b.finish before'.staging).2 }.bodyOf b) := by
      rw [hlike.staging_eq]
      rfl
    rw [hbody, hlike.chance_eq, hlike.ids_eq] at hoffers
    rw [hlike.staging_eq] at hspent
    cases hfinish : (b.finish before'.staging).1 with
    | error e =>
      rw [hfinish] at hspent hspent'
      obtain ⟨rfl, rfl⟩ := hspent
      obtain ⟨rfl, rfl⟩ := hspent'
      exact ⟨rfl, .nil⟩
    | ok u =>
      rw [hfinish] at hspent hspent'
      exact spent_alike hspent hspent' hoffers hoffers' (hagree.of_append hlength)
  refine ⟨htried.1, map_body_eq htried.2, hnow, ?_, ?_, ?_, ?_⟩
  · rw [h.staging_eq, h'.staging_eq, hlike.staging_eq]
  · rw [h.chance_eq, h'.chance_eq, hlike.chance_eq]
  · rw [h.ids_eq, h'.ids_eq, hlike.ids_eq]
  · rw [h.puts_eq, h'.puts_eq]
    exact List.rel_append hlike.puts htried.2

/-! ## Retiring a buffer -/

/-- How the upload of a buffer ended that was not cancelled. -/
def Fate.ofStored (stored : Bool) : Fate := if stored then .stored else .lost

/-- How the uploads ended, and the bodies that were offered in each. -/
def uploads (deeds : List Deed) : List (Fate × List Body) :=
  deeds.filterMap fun
    | .uploaded fate r => some (fate, r.puts.map (·.body))
    | .refused _ | .unopened _ | .appended _ _ | .abandoned _ _ => none

theorem uploads_append (deeds more : List Deed) :
    uploads (deeds ++ more) = uploads deeds ++ uploads more := List.filterMap_append ..

variable [ObjectStore σ]

theorem World.upload_spent (w : World σ) (retrier : Retrier) (name : ObjectName) (body : Body)
    {stored : Bool} (hok : (w.upload retrier name body).1 = .ok stored) :
    ∃ tried, (w.upload retrier name body).2.puts.reverse = w.puts.reverse ++ tried ∧
      Spent retrier.attempts tried stored ∧ (∀ put ∈ tried, put.body = body ∧ put.name = name) ∧
      (w.upload retrier name body).2.staging = w.staging ∧
      (w.upload retrier name body).2.chance = w.chance ∧
      (w.upload retrier name body).2.idsDrawn = w.idsDrawn := by
  obtain ⟨tried, hputs, hsame, -, hspent⟩ := retrier.loop_offer w.chance.fractions name body
    retrier.attempts ⟨w.clock, w.fractionsDrawn, 0, (w.store, w.puts)⟩
  unfold upload Retrier.run at hok ⊢
  generalize retrier.loop w.chance.fractions (offer name body) retrier.attempts
    ⟨w.clock, w.fractionsDrawn, 0, (w.store, w.puts)⟩ = answer at hok hputs hspent
  obtain ⟨verdict, progress⟩ := answer
  have hstored : verdict ≠ .cancelled ∧ stored = decide (verdict = .succeeded) := by
    cases verdict <;> simp_all [Retrier.Verdict.uploaded]
  refine ⟨tried.reverse, ?_, ?_, ?_, rfl, rfl, rfl⟩
  · have hafter : progress.state.2 = tried ++ w.puts := hputs
    show progress.state.2.reverse = _
    rw [hafter, List.reverse_append]
  · rw [hstored.2]
    exact hspent retrier.attempts_pos hstored.1
  · intro put hput
    obtain ⟨hname, hbody⟩ := hsame put (List.mem_reverse.mp hput)
    exact ⟨hbody, hname⟩

theorem World.puts_suffix_flush (w : World σ) (retrier : Retrier) (name : ObjectName)
    (b : Buffer) : w.puts <:+ (w.flush retrier name b).2.puts := by
  unfold flush
  cases b.finish w.staging with
  | mk finished staging =>
    cases finished with
    | error e => exact List.suffix_refl _
    | ok u =>
      obtain ⟨tried, hputs, -⟩ := retrier.loop_offer w.chance.fractions name
        ({ w with staging := staging }.bodyOf b) retrier.attempts
        ⟨w.clock, w.fractionsDrawn, 0, (w.store, w.puts)⟩
      exact ⟨tried, hputs.symm⟩

theorem World.flush_settled (w : World σ) (sink : Sink) (now : Instant) {b : Buffer} {stored : Bool}
    {after : World σ} (hok : w.drawId.2.flush sink.retrier (sink.nameAt now w.drawId.1) b =
      (.ok stored, after)) :
    ∃ tried, Settled sink b w after stored tried := by
  unfold flush at hok
  cases hfinish : b.finish w.staging with
  | mk finished staging =>
    have hdrawn : b.finish w.drawId.2.staging = (finished, staging) := hfinish
    simp only [hdrawn] at hok
    cases finished with
    | error e =>
      cases hok
      refine ⟨[], ?_⟩
      constructor <;> simp [hfinish, World.drawId, Offers]
    | ok u =>
      simp only [Prod.mk.injEq] at hok
      obtain ⟨hupload, rfl⟩ := hok
      obtain ⟨tried, hputs, hspent, hsame, hstaging, hchance, hids⟩ :=
        upload_spent _ _ _ _ hupload
      refine ⟨tried, hputs, ?_, hchance, hids, ?_, ?_⟩
      · simp only [hfinish]
        exact congrArg b.discard hstaging
      · intro put hput
        obtain ⟨hbody, hname⟩ := hsame put hput
        rw [hfinish]
        exact ⟨hbody, now, hname⟩
      · rw [hfinish]
        exact hspent

theorem retire_settled (sink : Sink) {b : Buffer} {c : Coordinator σ} (hpos : b.count ≠ 0)
    (hok : (Coordinator.retire sink b c).1 = .ok ()) :
    ∃ stored tried, Settled sink b c.world (Coordinator.retire sink b c).2.world stored tried ∧
      (Coordinator.retire sink b c).2.tally = (Fate.ofStored stored).count c.tally b := by
  unfold Coordinator.retire at hok ⊢
  simp only [hpos, if_false] at hok ⊢
  cases hflush : c.world.drawId.2.flush sink.retrier
      ⟨sink.bucket, sink.namer.key c.world.instant c.world.drawId.1⟩ b with
  | mk outcome after =>
    simp only [hflush] at hok ⊢
    cases outcome with
    | error e => cases hok
    | ok stored =>
      obtain ⟨tried, hsettled⟩ := c.world.flush_settled sink c.world.instant hflush
      refine ⟨stored, tried, hsettled, ?_⟩
      cases stored <;> rfl

namespace Coordinator

theorem puts_suffix_retire (sink : Sink) (b : Buffer) (c : Coordinator σ) :
    c.world.puts <:+ (retire sink b c).2.world.puts := by
  have hflush := c.world.drawId.2.puts_suffix_flush sink.retrier
    ⟨sink.bucket, sink.namer.key c.world.instant c.world.drawId.1⟩ b
  unfold retire
  by_cases hnone : b.count = 0
  · rw [if_pos hnone]
  · rw [if_neg hnone]
    simp only
    cases hdone : c.world.drawId.2.flush sink.retrier
        ⟨sink.bucket, sink.namer.key c.world.instant c.world.drawId.1⟩ b with
    | mk outcome world =>
      rw [hdone] at hflush
      cases outcome <;> exact hflush

/-- A cut finds nothing due, or settles what becomes of the active buffer. -/
theorem cut_settled (sink : Sink) (due : Snapshot → Bool) {c : Coordinator σ}
    (hpos : ∀ b, c.current = some b → b.count ≠ 0)
    (hok : (c.perform sink (.cut due)).outcome = .ok ()) :
    (∀ b, c.current = some b → due (b.snapshot c.now) = false) ∧
        c.perform sink (.cut due) = ⟨.ok (), [], c⟩ ∨
      ∃ b stored tried, c.current = some b ∧ due (b.snapshot c.now) = true ∧
        Settled sink b c.world (c.perform sink (.cut due)).state.world stored tried ∧
        (c.perform sink (.cut due)).state.current = none ∧
        (c.perform sink (.cut due)).state.tally = (Fate.ofStored stored).count c.tally b ∧
        uploads (c.perform sink (.cut due)).deeds =
          [(Fate.ofStored stored, tried.map (·.body))] := by
  rcases perform_cut_cases sink due c with hstill | ⟨b, outcome, next, hcur, hdue, hretire, hcourse⟩
  · exact Or.inl hstill
  · rw [hcourse] at hok ⊢
    have hanswer : (retire sink b { c with current := none }).1 = .ok () := by rw [hretire, ← hok]
    have hgone := current_retire sink b { c with current := none }
    obtain ⟨stored, tried, hsettled, htally⟩ := retire_settled sink (hpos b hcur) hanswer
    rw [hretire] at hsettled htally hgone
    refine Or.inr ⟨b, stored, tried, hcur, hdue, hsettled, hgone, htally, ?_⟩
    have hputs : next.world.puts = tried.reverse ++ c.world.puts := by
      rw [← List.reverse_reverse next.world.puts, hsettled.puts_eq, List.reverse_append,
        List.reverse_reverse]
    have hfate : Fate.of outcome c.tally next.tally = Fate.ofStored stored := by
      obtain rfl : outcome = .ok () := hok
      rw [htally]
      cases stored <;> simp [Fate.of, Fate.ofStored, Fate.count, Tally.flushed, Tally.lost]
    rw [hfate, World.putsUntil_eq hputs, List.reverse_reverse]
    rfl

end Coordinator

end RecordArchive
