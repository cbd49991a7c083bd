import RecordArchive.Proofs.Buffer.Upload
import RecordArchive.Store.Memory

/-!
# What puts leave in a store

A store in memory holds what the puts that succeeded left there, one after the other.
As long as no two of these have the same name none replaces the object of another: each
object is still the body that was put, and there are as many objects as puts.  The main
statements are `recorded_flush`, that uploads change a store by their puts alone, and
`find?_objectsAfter` and `length_objectsAfter` for puts of different names.
-/

namespace RecordArchive

/-! ## Puts of different names -/

/-- The objects after some puts, the last one first. -/
def objectsAfter (objects : Dictionary ObjectName Bytes) : List Put → Dictionary ObjectName Bytes
  | [] => objects
  | put :: earlier =>
    if put.succeeded then
      Dictionary.insert put.name (put.body.content?.getD []) (objectsAfter objects earlier)
    else objectsAfter objects earlier

/-- No two puts stored an object under the same name. -/
def Distinct (puts : List Put) : Prop :=
  puts.Pairwise fun a b => a.succeeded = true → b.succeeded = true → a.name ≠ b.name

/-- No put stored an object under a name. -/
def Spares (puts : List Put) (name : ObjectName) : Prop :=
  ∀ put ∈ puts, put.succeeded = true → put.name ≠ name

theorem Dictionary.length_insert_of_find?_eq_none {κ ν : Type} [DecidableEq κ] [LT κ]
    [DecidableLT κ] {key : κ} {d : Dictionary κ ν} (h : find? key d = none) (value : ν) :
    (insert key value d).length = d.length + 1 := by
  induction d with
  | nil => rfl
  | cons entry rest ih =>
    obtain ⟨k, v⟩ := entry
    rw [find?] at h
    by_cases hk : key = k
    · rw [if_pos hk] at h
      cases h
    · rw [if_neg hk] at h
      rw [insert, if_neg hk]
      by_cases hlt : key < k
      · rw [if_pos hlt]
        rfl
      · rw [if_neg hlt, List.length_cons, ih h, List.length_cons]

section

variable {objects : Dictionary ObjectName Bytes} {puts : List Put} {name : ObjectName}

theorem objectsAfter_append (objects : Dictionary ObjectName Bytes) (later earlier : List Put) :
    objectsAfter objects (later ++ earlier) =
      objectsAfter (objectsAfter objects earlier) later := by
  induction later with
  | nil => rfl
  | cons put rest ih => rw [List.cons_append, objectsAfter, objectsAfter, ih]

theorem find?_objectsAfter_of_spares (h : Spares puts name) :
    Dictionary.find? name (objectsAfter objects puts) = Dictionary.find? name objects := by
  induction puts with
  | nil => rfl
  | cons put earlier ih =>
    have hearlier := ih fun other hother => h other (List.mem_cons_of_mem _ hother)
    rw [objectsAfter]
    by_cases hput : put.succeeded = true
    · rw [if_pos hput, Dictionary.find?_insert_of_ne (h put List.mem_cons_self hput).symm, hearlier]
    · rw [if_neg hput, hearlier]

/-- An object is what was put under its name. -/
theorem find?_objectsAfter (hdistinct : Distinct puts) {put : Put} (hput : put ∈ puts)
    (hstored : put.succeeded = true) :
    Dictionary.find? put.name (objectsAfter objects puts) = some (put.body.content?.getD []) := by
  induction puts with
  | nil => cases hput
  | cons last earlier ih =>
    obtain ⟨hlast, hearlier⟩ := List.pairwise_cons.mp hdistinct
    rw [objectsAfter]
    rcases List.mem_cons.mp hput with rfl | hput
    · rw [if_pos hstored, Dictionary.find?_insert_self]
    · by_cases hone : last.succeeded = true
      · have hne := hlast put hput hone hstored
        rw [if_pos hone, Dictionary.find?_insert_of_ne hne.symm, ih hearlier hput]
      · rw [if_neg hone, ih hearlier hput]

/-- Puts of different names make one object each. -/
theorem length_objectsAfter (hdistinct : Distinct puts) :
    (objectsAfter [] puts).length = puts.countP Put.succeeded := by
  induction puts with
  | nil => rfl
  | cons last earlier ih =>
    obtain ⟨hlast, hearlier⟩ := List.pairwise_cons.mp hdistinct
    rw [objectsAfter, List.countP_cons]
    by_cases hone : last.succeeded = true
    · have hspares : Spares earlier last.name :=
        fun other hother hstored => (hlast other hother hone hstored).symm
      have hnone : Dictionary.find? last.name (objectsAfter [] earlier) = none :=
        find?_objectsAfter_of_spares hspares
      rw [if_pos hone, if_pos hone, Dictionary.length_insert_of_find?_eq_none hnone, ih hearlier]
    · rw [if_neg hone, if_neg hone, ih hearlier, Nat.add_zero]

/-- Puts under one name of which one at most succeeds are distinct from each other and from
those before them that spare the name. -/
theorem distinct_append {later : List Put} (hearlier : Distinct puts) (hspares : Spares puts name)
    (hname : ∀ put ∈ later, put.name = name) (hone : later.countP Put.succeeded ≤ 1) :
    Distinct (later ++ puts) := by
  induction later with
  | nil => exact hearlier
  | cons put rest ih =>
    rw [List.countP_cons] at hone
    refine List.pairwise_cons.mpr ⟨fun other hother hput hstored => ?_,
      ih (fun p hp => hname p (List.mem_cons_of_mem _ hp)) (by omega)⟩
    rw [hname put List.mem_cons_self]
    rcases List.mem_append.mp hother with hother | hother
    · have hpos : 0 < rest.countP Put.succeeded := List.countP_pos_iff.mpr ⟨other, hother, hstored⟩
      rw [if_pos hput] at hone
      omega
    · exact (hspares other hother hstored).symm

end

/-! ## Uploads to a store in memory -/

/-- A put sets its object, or it fails and leaves all objects as they are. -/
theorem MemoryStore.put_cases (s : MemoryStore) (name : ObjectName) (body : Body) :
    (∃ content, (s.put name body).1 = .ok () ∧ body.content? = some content ∧
        (s.put name body).2.objects = Dictionary.insert name content s.objects) ∨
      ∃ e, (s.put name body).1 = .error e ∧ (s.put name body).2.objects = s.objects := by
  unfold MemoryStore.put
  by_cases hfail : 0 < s.failures
  · simp only [hfail, if_true]
    exact Or.inr ⟨_, rfl, trivial⟩
  · simp only [hfail, if_false]
    cases body with
    | bytes content => exact Or.inl ⟨content, rfl, rfl, rfl⟩
    | file path content? =>
      cases content? with
      | none => exact Or.inr ⟨_, rfl, rfl⟩
      | some content => exact Or.inl ⟨content, rfl, rfl, rfl⟩

/-- What every attempt preserves a loop preserves. -/
theorem Retrier.loop_invariant {σ : Type} (r : Retrier) (fractions : Fractions)
    {operation : σ → Attempt σ} (Inv : σ → Prop) (step : ∀ s, Inv s → Inv (operation s).state)
    (budget : Nat) (p : Progress σ) (h : Inv p.state) :
    Inv (r.loop fractions operation budget p).2.state := by
  induction budget generalizing p with
  | zero => exact h
  | succ left ih =>
    have hafter : Inv (p.attemptOnce operation).2.state := step p.state h
    unfold loop
    by_cases hcancelled : p.clock.isCancelled = true
    · rw [if_pos hcancelled]
      exact h
    · rw [if_neg hcancelled]
      cases hattempt : p.attemptOnce operation with
      | mk outcome q =>
        rw [hattempt] at hafter
        cases outcome with
        | ok u => exact hafter
        | error e =>
          by_cases hlast : left = 0
          · simp only [hlast, if_true]
            exact hafter
          · simp only [hlast, if_false]
            cases hrest : q.rest r fractions with
            | mk cut q' =>
              have hstate : q'.state = q.state := by
                have := congrArg (·.2.state) hrest
                exact this.symm
              cases cut with
              | true => exact hstate ▸ hafter
              | false => exact ih q' (hstate ▸ hafter)

namespace World

/-- Between two moments the objects have changed by the puts that were made. -/
def Recorded (before after : World MemoryStore) : Prop :=
  ∃ tried, after.puts = tried ++ before.puts ∧
    after.store.objects = objectsAfter before.store.objects tried

theorem recorded_refl (w : World MemoryStore) : w.Recorded w := ⟨[], rfl, rfl⟩

theorem Recorded.trans {a b c : World MemoryStore} (hab : a.Recorded b) (hbc : b.Recorded c) :
    a.Recorded c := by
  obtain ⟨tried, hputs, hobjects⟩ := hab
  obtain ⟨later, hputs', hobjects'⟩ := hbc
  refine ⟨later ++ tried, ?_, ?_⟩
  · rw [hputs', hputs, List.append_assoc]
  · rw [hobjects', hobjects, objectsAfter_append]

theorem recorded_upload (w : World MemoryStore) (retrier : Retrier) (name : ObjectName)
    (body : Body) : w.Recorded (w.upload retrier name body).2 := by
  refine retrier.loop_invariant w.chance.fractions
    (fun u : Uploading MemoryStore => ∃ tried, u.2 = tried ++ w.puts ∧
      u.1.objects = objectsAfter w.store.objects tried)
    (fun u ⟨tried, hputs, hobjects⟩ => ?_) retrier.attempts _ ⟨[], rfl, rfl⟩
  refine ⟨⟨name, body, (u.1.put name body).1⟩ :: tried, congrArg _ hputs, ?_⟩
  rcases u.1.put_cases name body with ⟨content, hout, hbody, hset⟩ | ⟨e, hout, hset⟩
  · simp only [offer, ObjectStore.put, hset, objectsAfter, Put.succeeded, hout, hbody, hobjects,
      Option.getD_some, if_true]
  · simp only [offer, ObjectStore.put, hset, objectsAfter, Put.succeeded, hout, hobjects,
      Bool.false_eq_true, if_false]

theorem recorded_flush (w : World MemoryStore) (retrier : Retrier) (name : ObjectName)
    (b : Buffer) : w.Recorded (w.flush retrier name b).2 := by
  unfold flush
  cases b.finish w.staging with
  | mk finished staging =>
    cases finished with
    | error e => exact recorded_refl w
    | ok u => exact recorded_upload { w with staging := staging } retrier name _

end World

end RecordArchive
