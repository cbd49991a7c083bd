/-!
# Dictionaries

Lists of keys with their values, in strictly increasing order of the keys.
Inserting under a key that is there already replaces its value, so the order in
which keys were first met leaves no trace.
-/

namespace RecordArchive

abbrev Dictionary (κ ν : Type) := List (κ × ν)

namespace Dictionary

variable {κ ν : Type}

section Operations

variable [DecidableEq κ]

def find? (key : κ) : Dictionary κ ν → Option ν
  | [] => none
  | (k, v) :: rest => if key = k then some v else find? key rest

def contains (key : κ) (d : Dictionary κ ν) : Bool := (find? key d).isSome

def erase (key : κ) (d : Dictionary κ ν) : Dictionary κ ν := d.filter fun entry => entry.1 ≠ key

theorem erase_cons (key k : κ) (v : ν) (d : Dictionary κ ν) :
    erase key ((k, v) :: d) = if k = key then erase key d else (k, v) :: erase key d := by
  by_cases hk : k = key
  · rw [if_pos hk]
    exact List.filter_cons_of_neg (by simpa using hk)
  · rw [if_neg hk]
    exact List.filter_cons_of_pos (by simpa using hk)

@[simp] theorem find?_erase_self (key : κ) (d : Dictionary κ ν) :
    find? key (erase key d) = none := by
  induction d with
  | nil => rfl
  | cons entry rest ih =>
    obtain ⟨k, v⟩ := entry
    rw [erase_cons]
    by_cases hk : k = key
    · rw [if_pos hk, ih]
    · rw [if_neg hk, find?, if_neg (Ne.symm hk), ih]

theorem find?_erase_of_ne {key other : κ} (h : other ≠ key) (d : Dictionary κ ν) :
    find? other (erase key d) = find? other d := by
  induction d with
  | nil => rfl
  | cons entry rest ih =>
    obtain ⟨k, v⟩ := entry
    rw [erase_cons, find?]
    by_cases hk : k = key
    · rw [if_pos hk, ih, if_neg (hk ▸ h)]
    · rw [if_neg hk, find?, ih]

variable [LT κ] [DecidableLT κ]

/-- Puts a value under a key, in place of the one that is there. -/
def insert (key : κ) (value : ν) : Dictionary κ ν → Dictionary κ ν
  | [] => [(key, value)]
  | (k, v) :: rest =>
    if key = k then (key, value) :: rest
    else if key < k then (key, value) :: (k, v) :: rest
    else (k, v) :: insert key value rest

/-- The dictionary of a list of entries.  Of two values under one key the later
stays. -/
def ofList (entries : List (κ × ν)) : Dictionary κ ν :=
  entries.foldl (fun d entry => insert entry.1 entry.2 d) []

@[simp] theorem find?_insert_self (key : κ) (value : ν) (d : Dictionary κ ν) :
    find? key (insert key value d) = some value := by
  induction d with
  | nil => simp [insert, find?]
  | cons entry rest ih =>
    obtain ⟨k, v⟩ := entry
    unfold insert
    split
    · simp [find?]
    · split
      · simp [find?]
      · simp [find?, *]

theorem find?_insert_of_ne {key other : κ} (h : other ≠ key) (value : ν) (d : Dictionary κ ν) :
    find? other (insert key value d) = find? other d := by
  induction d with
  | nil => simp [insert, find?, h]
  | cons entry rest ih =>
    obtain ⟨k, v⟩ := entry
    unfold insert
    split
    · rename_i hk
      subst hk
      simp [find?, h]
    · split
      · simp [find?, h]
      · simp [find?, ih]

end Operations

end Dictionary

end RecordArchive
