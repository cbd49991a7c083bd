import Mathlib.Data.List.Induction
import RecordArchive.Bytes
import RecordArchive.Threshold

/-!
# How limits cut a stream

Where nothing fails and uploads take no time, a sink cuts the stream of its records
in one pass: a record goes to the last group unless it finds that group full, and
then begins another.  `Limits.partition` says this without a coordinator, a buffer
or a batch.
-/

namespace RecordArchive

/-- The records of an object, and when the first of them came. -/
structure Group where
  begun : Duration
  records : List Bytes

/-- The last group with a record that joins it, or that begins the first one. -/
def Group.joined (now : Duration) (record : Bytes) : Option Group → Group
  | none => ⟨now, [record]⟩
  | some group => ⟨group.begun, group.records ++ [record]⟩

namespace Limits

/-- Whether a record that comes now finds a group full. -/
def isFull (limits : Limits) (group : Group) (now : Duration) : Bool :=
  (decide (0 < limits.events) && group.records.length == limits.events) ||
    decide (limits.bytes < group.records.flatten.length) || decide (limits.age < now - group.begun)

/-- Puts a record that comes at some time into the last group, which stands in
front, or behind it. -/
def place (limits : Limits) (groups : List Group) (arrival : Duration × Bytes) : List Group :=
  match groups with
  | [] => [⟨arrival.1, [arrival.2]⟩]
  | group :: done =>
    if limits.isFull group arrival.1 then ⟨arrival.1, [arrival.2]⟩ :: group :: done
    else ⟨group.begun, group.records ++ [arrival.2]⟩ :: done

def groups (limits : Limits) (stream : List (Duration × Bytes)) : List Group :=
  stream.foldl limits.place []

/-- The records of a stream in groups, from the first to the last. -/
def partition (limits : Limits) (stream : List (Duration × Bytes)) : List (List Bytes) :=
  (limits.groups stream).reverse.map (·.records)

theorem groups_snoc (limits : Limits) (stream : List (Duration × Bytes))
    (arrival : Duration × Bytes) :
    limits.groups (stream ++ [arrival]) = limits.place (limits.groups stream) arrival := by
  rw [groups, List.foldl_append]
  rfl

theorem flatten_partition (limits : Limits) (stream : List (Duration × Bytes)) :
    (limits.partition stream).flatten = stream.map (·.2) := by
  induction stream using List.reverseRecOn with
  | nil => rfl
  | append_singleton stream arrival ih =>
    unfold partition at ih ⊢
    rw [groups_snoc, List.map_append, ← ih]
    cases limits.groups stream with
    | nil => rfl
    | cons group done =>
      by_cases hfull : limits.isFull group arrival.1 = true
      · simp [place, hfull]
      · simp [place, hfull]

theorem length_le_of_mem_groups {limits : Limits} (hpos : 0 < limits.events)
    {stream : List (Duration × Bytes)} {group : Group} (h : group ∈ limits.groups stream) :
    group.records.length ≤ limits.events := by
  induction stream using List.reverseRecOn generalizing group with
  | nil => cases h
  | append_singleton stream arrival ih =>
    rw [groups_snoc] at h
    unfold place at h
    cases hgroups : limits.groups stream with
    | nil =>
      rw [hgroups, List.mem_singleton] at h
      rw [h]
      exact hpos
    | cons last done =>
      rw [hgroups] at h ih
      have hlast := ih List.mem_cons_self
      by_cases hfull : limits.isFull last arrival.1 = true
      · simp only [hfull, if_true, List.mem_cons] at h
        rcases h with rfl | h
        · exact hpos
        · exact ih (List.mem_cons.mpr h)
      · simp only [hfull, if_false, Bool.false_eq_true, List.mem_cons] at h
        rcases h with rfl | h
        · simp only [isFull, Bool.or_eq_true, Bool.and_eq_true, decide_eq_true_eq,
            beq_iff_eq, not_or, not_and] at hfull
          have hne := hfull.1.1 hpos
          rw [List.length_append, List.length_singleton]
          omega
        · exact ih (List.mem_cons_of_mem _ h)

/-- The groups of a stream but the last. -/
def closed (limits : Limits) (stream : List (Duration × Bytes)) : List (List Bytes) :=
  (limits.groups stream).tail.reverse.map (·.records)

theorem partition_eq (limits : Limits) (stream : List (Duration × Bytes)) :
    limits.partition stream =
      limits.closed stream ++ (limits.groups stream).head?.toList.map (·.records) := by
  unfold partition closed
  cases limits.groups stream with
  | nil => rfl
  | cons group done => simp

/-- A record that joins the last group or begins the first one leaves the others as
they are. -/
theorem closed_snoc_of_not_full {limits : Limits} {stream : List (Duration × Bytes)}
    (arrival : Duration × Bytes)
    (h : ∀ group ∈ (limits.groups stream).head?, limits.isFull group arrival.1 = false) :
    limits.closed (stream ++ [arrival]) = limits.closed stream ∧
      (limits.groups (stream ++ [arrival])).head? =
        some (Group.joined arrival.1 arrival.2 (limits.groups stream).head?) := by
  unfold closed
  rw [groups_snoc]
  cases hgroups : limits.groups stream with
  | nil => exact ⟨rfl, rfl⟩
  | cons group done =>
    have hfull := h group (by rw [hgroups]; rfl)
    simp [place, hfull, Group.joined]

theorem closed_snoc_of_full {limits : Limits} {stream : List (Duration × Bytes)}
    (arrival : Duration × Bytes) {group : Group} (hlast : (limits.groups stream).head? = some group)
    (hfull : limits.isFull group arrival.1 = true) :
    limits.closed (stream ++ [arrival]) = limits.closed stream ++ [group.records] ∧
      (limits.groups (stream ++ [arrival])).head? = some ⟨arrival.1, [arrival.2]⟩ := by
  unfold closed
  rw [groups_snoc]
  cases hgroups : limits.groups stream with
  | nil => simp [hgroups] at hlast
  | cons first done =>
    have hfirst : first = group := by simpa [hgroups] using hlast
    subst hfirst
    simp [place, hfull]

end Limits

end RecordArchive
