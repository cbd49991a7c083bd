import RecordArchive.Proofs.Buffer.Contents
import RecordArchive.World

/-!
# Uploading a buffer

An upload offers one body under one name, over and over, until the store takes it
or the retrier gives up.  The main statement is `flush_offers`: a buffer that is
flushed offers everything that it holds at every attempt and nothing else, and an
attempt that succeeds is the only one and the last.
-/

namespace RecordArchive

namespace Put

def succeeded (p : Put) : Bool :=
  match p.outcome with
  | .ok () => true
  | .error _ => false

/-- Bytes of the body. -/
def length (p : Put) : Nat := (p.body.content?.getD []).length

end Put

/-- Bytes that the store took. -/
def storedBytes : List Put → Nat
  | [] => 0
  | put :: rest => (if put.succeeded then put.length else 0) + storedBytes rest

@[simp] theorem storedBytes_append (a b : List Put) :
    storedBytes (a ++ b) = storedBytes a + storedBytes b := by
  induction a with
  | nil => simp [storedBytes]
  | cons put rest ih => simp only [List.cons_append, storedBytes, ih, Nat.add_assoc]

@[simp] theorem storedBytes_reverse (puts : List Put) :
    storedBytes puts.reverse = storedBytes puts := by
  induction puts with
  | nil => rfl
  | cons put rest ih =>
    rw [List.reverse_cons, storedBytes_append, ih]
    simp only [storedBytes]
    omega

/-- Attempts to store the same contents under the same name. -/
structure Attempts (name : ObjectName) (contents : Bytes) (puts : List Put) : Prop where
  name_eq : ∀ put ∈ puts, put.name = name
  content_eq : ∀ put ∈ puts, put.body.content? = some contents

namespace Attempts

variable {name : ObjectName} {contents : Bytes} {puts : List Put}

theorem nil : Attempts name contents [] := ⟨by simp, by simp⟩

theorem reverse (h : Attempts name contents puts) : Attempts name contents puts.reverse :=
  ⟨fun put hp => h.name_eq put (List.mem_reverse.mp hp),
    fun put hp => h.content_eq put (List.mem_reverse.mp hp)⟩

theorem storedBytes_eq (h : Attempts name contents puts) :
    storedBytes puts = puts.countP Put.succeeded * contents.length := by
  induction puts with
  | nil => simp [storedBytes]
  | cons put rest ih =>
    have hrest : Attempts name contents rest :=
      ⟨fun p hp => h.name_eq p (List.mem_cons_of_mem _ hp),
        fun p hp => h.content_eq p (List.mem_cons_of_mem _ hp)⟩
    have hlen : put.length = contents.length := by
      simp [Put.length, h.content_eq put List.mem_cons_self]
    rw [storedBytes, ih hrest, List.countP_cons, hlen]
    cases put.succeeded <;> simp [Nat.add_mul, Nat.add_comm]

end Attempts

/-- Attempts, the first one first, by which a budget is spent when nothing is
cancelled: all but the last fail, and the last succeeds or uses the budget up. -/
inductive Spent : Nat → List Put → Bool → Prop
  | stored {left : Nat} {put : Put} (h : put.succeeded = true) : Spent (left + 1) [put] true
  | used {put : Put} (h : put.succeeded = false) : Spent 1 [put] false
  | again {left : Nat} {put : Put} {rest : List Put} {stored : Bool}
      (h : put.succeeded = false) (hrest : Spent left rest stored) :
      Spent (left + 1) (put :: rest) stored

variable {σ : Type} [ObjectStore σ]

/-- Every attempt of a loop offers the same body under the same name, and the loop
succeeds exactly when one of them does, which is then the only one.  A loop that is
not cancelled spends its budget. -/
theorem Retrier.loop_offer (r : Retrier) (fractions : Fractions) (name : ObjectName) (body : Body)
    (budget : Nat) (p : Progress (World.Uploading σ)) :
    ∃ tried, (r.loop fractions (World.offer name body) budget p).2.state.2 = tried ++ p.state.2 ∧
      (∀ put ∈ tried, put.name = name ∧ put.body = body) ∧
      tried.countP Put.succeeded =
        (if (r.loop fractions (World.offer name body) budget p).1 = .succeeded then 1 else 0) ∧
      (0 < budget → (r.loop fractions (World.offer name body) budget p).1 ≠ .cancelled →
        Spent budget tried.reverse
          (decide ((r.loop fractions (World.offer name body) budget p).1 = .succeeded))) := by
  induction budget generalizing p with
  | zero => exact ⟨[], rfl, by simp, rfl, fun h => absurd h (Nat.lt_irrefl 0)⟩
  | succ left ih =>
    let put : Put := ⟨name, body, (ObjectStore.put p.state.1 name body).outcome⟩
    have hputs : (p.attemptOnce (World.offer name body)).2.state.2 = put :: p.state.2 := rfl
    have hout : (p.attemptOnce (World.offer name body)).1 = put.outcome := rfl
    unfold loop
    by_cases hc : p.clock.isCancelled
    · simp only [hc, if_true]
      exact ⟨[], rfl, by simp, rfl, fun _ h => absurd rfl h⟩
    · simp only [hc, if_false, Bool.false_eq_true]
      generalize p.attemptOnce (World.offer name body) = after at hputs hout
      obtain ⟨outcome, q⟩ := after
      simp only at hputs hout
      -- A success ends the loop, so at most one attempt succeeds.
      cases outcome with
      | ok u =>
        have hstored : put.succeeded = true := by simp [Put.succeeded, ← hout]
        exact ⟨[put], hputs, by simp [put], by simp [hstored], fun _ _ => .stored hstored⟩
      | error e =>
        have hfail : put.succeeded = false := by simp [Put.succeeded, ← hout]
        by_cases hl : left = 0
        · simp only [hl, if_true]
          exact ⟨[put], hputs, by simp [put], by simp [hfail], fun _ _ => .used hfail⟩
        · simp only [hl, if_false]
          have hrest : (q.rest r fractions).2.state = q.state := rfl
          generalize q.rest r fractions = rested at hrest
          obtain ⟨cut, q'⟩ := rested
          cases cut with
          | true =>
            refine ⟨[put], ?_, by simp [put], by simp [hfail], fun _ h => absurd rfl h⟩
            simpa only [List.singleton_append, ← hputs] using congrArg Prod.snd hrest
          | false =>
            obtain ⟨tried, ht, hsame, hcount, hspent⟩ := ih q'
            refine ⟨tried ++ [put], ?_, ?_, ?_, ?_⟩
            · have hq : q'.state.2 = put :: p.state.2 := hputs ▸ congrArg Prod.snd hrest
              rw [ht, hq, List.append_assoc, List.singleton_append]
            · intro other ho
              rcases List.mem_append.mp ho with ho | ho
              · exact hsame other ho
              · rw [List.mem_singleton.mp ho]
                exact ⟨rfl, rfl⟩
            · simpa [hfail] using hcount
            · intro _ hrun
              rw [List.reverse_append]
              exact .again hfail (hspent (Nat.pos_of_ne_zero hl) hrun)

/-- How often an upload that ended so has stored its body. -/
def timesStored : Except ArchiveError Bool → Nat
  | .ok true => 1
  | .ok false | .error _ => 0

namespace World

/-- An upload fails only by being cancelled, and then says for which key. -/
theorem upload_offers (w : World σ) (retrier : Retrier) (name : ObjectName) {body : Body}
    {contents : Bytes} (hb : body.content? = some contents) :
    ∃ tried, (w.upload retrier name body).2.puts = tried ++ w.puts ∧
      Attempts name contents tried ∧
      tried.countP Put.succeeded = timesStored (w.upload retrier name body).1 ∧
      ∀ e, (w.upload retrier name body).1 = .error e → e = .cancelled name.key := by
  obtain ⟨tried, ht, hsame, hcount, -⟩ := retrier.loop_offer w.chance.fractions name body
    retrier.attempts ⟨w.clock, w.fractionsDrawn, 0, (w.store, w.puts)⟩
  refine ⟨tried, ht, ⟨fun put hp => (hsame put hp).1, fun put hp => ?_⟩, ?_, ?_⟩
  · rw [(hsame put hp).2, hb]
  · rw [hcount]
    simp only [upload, Retrier.run]
    cases (retrier.loop w.chance.fractions (offer name body) retrier.attempts
      ⟨w.clock, w.fractionsDrawn, 0, (w.store, w.puts)⟩).1 <;> rfl
  · intro e he
    simp only [upload, Retrier.run] at he
    revert he
    cases (retrier.loop w.chance.fractions (offer name body) retrier.attempts
      ⟨w.clock, w.fractionsDrawn, 0, (w.store, w.puts)⟩).1 <;>
      simp [Retrier.Verdict.uploaded, eq_comm]

omit [ObjectStore σ] in
theorem content?_bodyOf {w : World σ} {s : Staging} {b : Buffer} {records : List Bytes}
    (hb : b.Holds s records) (hf : b.finish s = (.ok (), w.staging)) :
    (w.bodyOf b).content? = some records.flatten := by
  have hk := hb.keeps
  unfold bodyOf
  unfold Buffer.finish at hf
  cases hh : b.holding with
  | memory reversed =>
    rw [hh] at hk
    simpa [Holding.Keeps, Body.content?] using hk
  | staged writer =>
    rw [hh] at hk hf
    exact StagingWriter.content?_finish hk hf

/-- A flush offers what the buffer holds, as often as it takes, under one name.  A
buffer that cannot be finished is not offered at all. -/
theorem flush_offers (w : World σ) (retrier : Retrier) (name : ObjectName) {b : Buffer}
    {records : List Bytes} (hb : b.Holds w.staging records) :
    ∃ tried, (w.flush retrier name b).2.puts = tried ++ w.puts ∧
      Attempts name records.flatten tried ∧
      tried.countP Put.succeeded = timesStored (w.flush retrier name b).1 ∧
      ∀ e, (w.flush retrier name b).1 = .error e → e = .cancelled name.key := by
  unfold flush
  cases hf : b.finish w.staging with
  | mk finished staging =>
    cases finished with
    | error e => exact ⟨[], rfl, .nil, rfl, by simp⟩
    | ok u =>
      have hbody := content?_bodyOf (w := { w with staging := staging }) hb hf
      exact upload_offers { w with staging := staging } retrier name hbody

end World

end RecordArchive
