import RecordArchive.Proofs.Text.Utf8

/-!
# Searching the bytes of a text

No byte of a character beyond ASCII is in the range of ASCII.  A search for characters of ASCII
among the bytes of a text therefore passes over every other character as a whole, and what it
finds begins where a character begins.
-/

namespace RecordArchive

/-- The offset of the first occurrence of some bytes. -/
def Bytes.find? (needle : Bytes) : Bytes → Option Nat
  | [] => if needle.isEmpty then some 0 else none
  | byte :: rest =>
    if needle.isPrefixOf (byte :: rest) then some 0 else (find? needle rest).map (· + 1)

theorem Bytes.find?_cons_of_ne {first byte : UInt8} (h : first ≠ byte) (more rest : Bytes) :
    find? (first :: more) (byte :: rest) = (find? (first :: more) rest).map (· + 1) := by
  rw [find?, List.isPrefixOf, beq_eq_false_iff_ne.mpr h, Bool.false_and]
  rfl

theorem Bytes.find?_cons_of_head?_ne {second : UInt8} {rest : Bytes} (h : rest.head? ≠ some second)
    (first byte : UInt8) (more : Bytes) :
    find? (first :: second :: more) (byte :: rest) =
      (find? (first :: second :: more) rest).map (· + 1) := by
  have hnot : (first :: second :: more).isPrefixOf (byte :: rest) = false := by
    cases rest with
    | nil => simp [List.isPrefixOf]
    | cons next rest =>
      have hne : second ≠ next := fun heq => h (heq ▸ rfl)
      simp [List.isPrefixOf, hne]
  rw [find?, hnot]
  rfl

theorem Bytes.find?_append_of_notMem {first : UInt8} {skipped : Bytes} (h : first ∉ skipped)
    (more bytes : Bytes) :
    find? (first :: more) (skipped ++ bytes) =
      (find? (first :: more) bytes).map (· + skipped.length) := by
  induction skipped with
  | nil => simp
  | cons byte rest ih =>
    rw [List.mem_cons, not_or] at h
    rw [List.cons_append, find?_cons_of_ne h.1, ih h.2, Option.map_map]
    rfl

namespace Utf8

/-- An offset among the bytes of a text at which a character begins, or the text ends. -/
def IsBoundary (cs : List Char) (offset : Nat) : Prop :=
  ∃ before after, cs = before ++ after ∧ offset = (encodeChars before).length

theorem drop_encodeChars (before after : List Char) :
    (encodeChars (before ++ after)).drop (encodeChars before).length = encodeChars after := by
  rw [encodeChars_append, List.drop_left]

theorem encodeChar_ne_nil (c : Char) : encodeChar c ≠ [] := by
  unfold encodeChar
  simp only
  split
  · exact List.cons_ne_nil _ _
  · split
    · exact List.cons_ne_nil _ _
    · split <;> exact List.cons_ne_nil _ _

theorem encodeChar_ascii {byte : UInt8} (hbyte : byte.toNat < 0x80) :
    encodeChar (Char.ofNat byte.toNat) = [byte] := by
  have hvalid : byte.toNat.isValidChar := Or.inl (by omega)
  have hvalue : (Char.ofNat byte.toNat).toNat = byte.toNat := by
    rw [Char.ofNat, dif_pos hvalid]
    rfl
  unfold encodeChar
  simp only [hvalue, if_pos hbyte, UInt8.ofNat_toNat]

/-- Whether a text begins with a character of ASCII can be told from its first byte. -/
theorem head?_encodeChars {byte : UInt8} (hbyte : byte.toNat < 0x80) (cs : List Char) :
    (encodeChars cs).head? = some byte ↔ cs.head? = some (Char.ofNat byte.toNat) := by
  cases cs with
  | nil => simp [encodeChars]
  | cons c rest =>
    obtain ⟨first, more, hfirst⟩ := List.exists_cons_of_ne_nil (encodeChar_ne_nil c)
    rw [encodeChars, List.flatMap_cons, hfirst, List.cons_append, List.head?_cons, List.head?_cons,
      Option.some.injEq, Option.some.injEq]
    constructor
    · rintro rfl
      exact (encodeChar_of_mem hbyte (hfirst ▸ List.mem_cons_self)).2
    · rintro rfl
      rw [encodeChar_ascii hbyte] at hfirst
      exact (List.cons.inj hfirst).1.symm

end Utf8

end RecordArchive
