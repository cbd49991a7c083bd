/-!
# Bounded queues

Records on their way from one pipeline to the next, first in, first out.  A queue
that is closed takes no more records but still gives those that it holds.
-/

namespace RecordArchive

structure Queue (α : Type) where
  capacity : Nat
  items : List α := []
  closed : Bool := false
  capacity_pos : 0 < capacity

namespace Queue

variable {α : Type}

/-- An empty queue with room for one record at least. -/
def ofCapacity (requested : Nat) : Queue α :=
  { capacity := max 1 requested, capacity_pos := by omega }

def hasRoom (q : Queue α) : Bool := q.items.length < q.capacity

/-- Puts a record at the end of a queue that is open and has room. -/
def push? (q : Queue α) (record : α) : Option (Queue α) :=
  if !q.closed && q.hasRoom then some { q with items := q.items ++ [record] } else none

/-- Takes records from the front, at most `greatest` of them but one in any case.
An empty queue gives nothing. -/
def take? (q : Queue α) (greatest : Nat) : Option (List α × Queue α) :=
  if q.items.isEmpty then none
  else
    let count := max 1 greatest
    some (q.items.take count, { q with items := q.items.drop count })

def close (q : Queue α) : Queue α := { q with closed := true }

def isDrained (q : Queue α) : Bool := q.closed && q.items.isEmpty

theorem push?_eq_some {q r : Queue α} {record : α} (h : q.push? record = some r) :
    q.closed = false ∧ q.items.length < q.capacity ∧
      r = { q with items := q.items ++ [record] } := by
  unfold push? hasRoom at h
  split at h
  · rename_i hopen
    simp only [Bool.and_eq_true, Bool.not_eq_true', decide_eq_true_eq] at hopen
    exact ⟨hopen.1, hopen.2, (Option.some.inj h).symm⟩
  · simp at h

theorem items_push? {q r : Queue α} {record : α} (h : q.push? record = some r) :
    r.items = q.items ++ [record] := by
  obtain ⟨-, -, rfl⟩ := push?_eq_some h
  rfl

/-- What is taken and what is left are the queue. -/
theorem items_take? {q r : Queue α} {batch : List α} {greatest : Nat}
    (h : q.take? greatest = some (batch, r)) : batch ++ r.items = q.items := by
  unfold take? at h
  split at h
  · simp at h
  · obtain ⟨rfl, rfl⟩ := Prod.mk.inj (Option.some.inj h)
    simp

theorem take?_eq_none {q : Queue α} {greatest : Nat} (h : q.take? greatest = none) :
    q.items = [] := by
  unfold take? at h
  split at h
  · exact List.isEmpty_iff.mp ‹_›
  · simp at h

/-- Where one record is taken it is the first. -/
theorem take?_one {q r : Queue α} {batch : List α} (h : q.take? 1 = some (batch, r)) :
    ∃ record rest, q.items = record :: rest ∧ batch = [record] ∧ r = { q with items := rest } := by
  unfold take? at h
  cases hitems : q.items with
  | nil => simp [hitems] at h
  | cons record rest =>
    simp only [hitems, List.isEmpty_cons, Bool.false_eq_true, if_false, Option.some.injEq,
      Prod.mk.injEq] at h
    obtain ⟨rfl, rfl⟩ := h
    exact ⟨record, rest, rfl, rfl, rfl⟩

end Queue

end RecordArchive
