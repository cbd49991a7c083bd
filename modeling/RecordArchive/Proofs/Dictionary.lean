import Mathlib.Data.List.Perm.Basic
import RecordArchive.Dictionary

/-!
# Dictionaries in order

What is in a dictionary whose keys stand in increasing order is what can be found there,
and nothing else tells two of them apart: `ext_of_find?`.
-/

namespace RecordArchive

namespace Dictionary

variable {ν : Type} {key : String} {value : ν} {d more : Dictionary String ν}

theorem mem_insert {entry : String × ν} (h : entry ∈ insert key value d) :
    entry = (key, value) ∨ entry ∈ d := by
  induction d with
  | nil => exact Or.inl (List.mem_singleton.mp h)
  | cons first rest ih =>
    unfold insert at h
    split at h
    · exact (List.mem_cons.mp h).imp_right (List.mem_cons_of_mem first)
    · split at h
      · exact List.mem_cons.mp h
      · rcases List.mem_cons.mp h with rfl | hmem
        · exact Or.inr List.mem_cons_self
        · exact (ih hmem).imp_right (List.mem_cons_of_mem first)

theorem pairwise_insert (h : d.Pairwise fun a b => a.1 < b.1) (key : String) (value : ν) :
    (insert key value d).Pairwise fun a b => a.1 < b.1 := by
  induction d with
  | nil => exact List.pairwise_singleton _ _
  | cons first rest ih =>
    obtain ⟨hfirst, hrest⟩ := List.pairwise_cons.mp h
    unfold insert
    by_cases heq : key = first.1
    · rw [if_pos heq, heq]
      exact List.pairwise_cons.mpr ⟨hfirst, hrest⟩
    rw [if_neg heq]
    by_cases hlt : key < first.1
    · rw [if_pos hlt]
      refine List.pairwise_cons.mpr ⟨List.forall_mem_cons.mpr ⟨hlt, ?_⟩, h⟩
      intro entry hmem
      exact String.lt_trans hlt (hfirst entry hmem)
    · rw [if_neg hlt]
      refine List.pairwise_cons.mpr ⟨?_, ih hrest⟩
      intro entry hmem
      rcases mem_insert hmem with rfl | hmem
      · exact Std.lt_of_le_of_ne (String.not_lt.mp hlt) (Ne.symm heq)
      · exact hfirst entry hmem

/-- In a dictionary in order, a key after all others goes to the end. -/
theorem insert_last (h : (d ++ (key, value) :: more).Pairwise fun a b => a.1 < b.1) :
    insert key value d = d ++ [(key, value)] := by
  induction d with
  | nil => rfl
  | cons entry rest ih =>
    obtain ⟨hfirst, hrest⟩ := List.pairwise_cons.mp h
    have hlt : entry.1 < key :=
      hfirst (key, value) (List.mem_append_right rest List.mem_cons_self)
    have hne : key ≠ entry.1 := fun heq => String.lt_irrefl key (heq ▸ hlt)
    rw [insert, if_neg hne, if_neg (String.lt_asymm hlt), ih hrest, List.cons_append]

theorem mem_foldl_insert {entries : List (String × ν)} {entry : String × ν}
    (h : entry ∈ entries.foldl (fun d entry => insert entry.1 entry.2 d) d) :
    entry ∈ d ∨ entry ∈ entries := by
  induction entries generalizing d with
  | nil => exact Or.inl h
  | cons first rest ih =>
    rcases ih h with hkept | hrest
    · rcases mem_insert hkept with rfl | hkept
      · exact Or.inr List.mem_cons_self
      · exact Or.inl hkept
    · exact Or.inr (List.mem_cons_of_mem first hrest)

theorem mem_of_mem_ofList {entries : List (String × ν)} {entry : String × ν}
    (h : entry ∈ ofList entries) : entry ∈ entries :=
  (mem_foldl_insert h).resolve_left List.not_mem_nil

/-! ## Entries and look-ups -/

theorem mem_of_find? (h : find? key d = some value) : (key, value) ∈ d := by
  induction d with
  | nil => cases h
  | cons first rest ih =>
    obtain ⟨k, v⟩ := first
    rw [find?] at h
    by_cases hkey : key = k
    · rw [if_pos hkey] at h
      obtain rfl := Option.some.inj h
      exact hkey ▸ List.mem_cons_self
    · rw [if_neg hkey] at h
      exact List.mem_cons_of_mem _ (ih h)

theorem find?_of_mem (h : d.Pairwise fun a b => a.1 < b.1) (hmem : (key, value) ∈ d) :
    find? key d = some value := by
  induction d with
  | nil => cases hmem
  | cons first rest ih =>
    obtain ⟨hfirst, hrest⟩ := List.pairwise_cons.mp h
    rw [find?]
    rcases List.mem_cons.mp hmem with rfl | hmem
    · exact if_pos rfl
    · have hlt := hfirst _ hmem
      have hne : key ≠ first.1 := fun heq => String.lt_irrefl key (heq ▸ hlt)
      rw [if_neg hne]
      exact ih hrest hmem

theorem mem_iff_find? (h : d.Pairwise fun a b => a.1 < b.1) :
    (key, value) ∈ d ↔ find? key d = some value :=
  ⟨find?_of_mem h, mem_of_find?⟩

theorem nodup_of_pairwise (h : d.Pairwise fun a b => a.1 < b.1) : d.Nodup := by
  refine List.Pairwise.imp ?_ h
  rintro a b hlt rfl
  exact String.lt_irrefl _ hlt

/-- In a dictionary in order, a key that no other precedes stands first. -/
theorem eq_cons_of_least (h : d.Pairwise fun a b => a.1 < b.1) (hmem : (key, value) ∈ d)
    (hleast : ∀ entry ∈ d, ¬entry.1 < key) : ∃ rest, d = (key, value) :: rest := by
  cases d with
  | nil => cases hmem
  | cons first rest =>
    rcases List.mem_cons.mp hmem with rfl | hlater
    · exact ⟨rest, rfl⟩
    · exact absurd ((List.pairwise_cons.mp h).1 _ hlater) (hleast first List.mem_cons_self)

/-- Two dictionaries in order in which the same is found are the same. -/
theorem ext_of_find? {d' : Dictionary String ν} (h : d.Pairwise fun a b => a.1 < b.1)
    (h' : d'.Pairwise fun a b => a.1 < b.1) (hfind : ∀ key, find? key d = find? key d') :
    d = d' := by
  have hperm : d.Perm d' := by
    rw [List.perm_ext_iff_of_nodup (nodup_of_pairwise h) (nodup_of_pairwise h')]
    intro entry
    rw [mem_iff_find? h, mem_iff_find? h', hfind]
  exact hperm.eq_of_pairwise (fun a b _ _ hab hba => absurd hab (String.lt_asymm hba)) h h'

end Dictionary

end RecordArchive
