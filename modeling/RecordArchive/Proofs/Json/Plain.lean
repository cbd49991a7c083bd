import RecordArchive.Json.Printer
import RecordArchive.Proofs.Text.Numeral

/-!
# Plain values

Plain values are those without binary numbers.  Values of all kinds are printed on a single
line: no character of their text is a control character, `visible_render`.
-/

namespace RecordArchive

namespace Json

/-! ## Plain values -/

/-- Values without binary numbers, in the form in which values are kept: whole numbers
fit into 64 bits, and the fields of an object stand in the order of their names. -/
inductive Plain : Json → Prop
  | null : Plain .null
  | boolean (b : Bool) : Plain (.boolean b)
  | integer {n : Int} (hmin : leastInteger ≤ n) (hmax : n ≤ greatestInteger) : Plain (.integer n)
  | text (s : String) : Plain (.text s)
  | array {items : List Json} (hitems : ∀ item ∈ items, Plain item) : Plain (.array items)
  | object {fields : List (String × Json)} (hsorted : fields.Pairwise fun a b => a.1 < b.1)
      (hfields : ∀ field ∈ fields, Plain field.2) : Plain (.object fields)

mutual

/-- How many containers a value opens within each other. -/
def depth : Json → Nat
  | array items => itemsDepth items + 1
  | object fields => fieldsDepth fields + 1
  | _ => 0

def itemsDepth : List Json → Nat
  | [] => 0
  | item :: rest => max (depth item) (itemsDepth rest)

def fieldsDepth : List (String × Json) → Nat
  | [] => 0
  | (_, value) :: rest => max (depth value) (fieldsDepth rest)

end

/-! ## Characters of a printed value -/

/-- No control character. -/
def Visible (cs : List Char) : Prop := ∀ c ∈ cs, 0x20 ≤ c.toNat

instance (cs : List Char) : Decidable (Visible cs) :=
  List.decidableBAll (fun c : Char => 0x20 ≤ c.toNat) cs

theorem visible_append {a b : List Char} (ha : Visible a) (hb : Visible b) : Visible (a ++ b) :=
  fun c hc => (List.mem_append.mp hc).elim (ha c) (hb c)

theorem visible_cons {c : Char} {cs : List Char} (hc : 0x20 ≤ c.toNat) (hcs : Visible cs) :
    Visible (c :: cs) :=
  List.forall_mem_cons.mpr ⟨hc, hcs⟩

theorem visible_digits (n : Nat) : Visible (Text.digits n) := by
  intro c hc
  have hdigit := Text.isDigit_of_mem_digits hc
  rw [Char.isDigit, Bool.and_eq_true, decide_eq_true_iff] at hdigit
  have hmin : 48 ≤ c.toNat := hdigit.1
  omega

theorem numeral_of_neg {n : Int} (h : n < 0) : numeral n = '-' :: Text.digits n.natAbs := by
  rw [numeral, Text.paddedInt, if_pos h, Text.padded_of_le (by decide)]

theorem numeral_of_nonneg {n : Int} (h : ¬n < 0) : numeral n = Text.digits n.natAbs := by
  rw [numeral, Text.paddedInt, if_neg h, Text.padded_of_le (by decide)]

theorem visible_numeral (n : Int) : Visible (numeral n) := by
  by_cases h : n < 0
  · rw [numeral_of_neg h]
    exact visible_cons (by decide) (visible_digits n.natAbs)
  · rw [numeral_of_nonneg h]
    exact visible_digits n.natAbs

theorem hexDigit_visible {d : Nat} (h : d < 16) : 0x20 ≤ (Text.hexDigit d).toNat := by
  have hall : ∀ d : Fin 16, 0x20 ≤ (Text.hexDigit d).toNat := by decide
  exact hall ⟨d, h⟩

theorem visible_escape (c : Char) : Visible (escape c) := by
  unfold escape
  split
  · decide
  split
  · decide
  split
  · rename_i hmin
    exact visible_cons hmin (by decide)
  iterate 5
    split
    · decide
  have hhigh := hexDigit_visible (show c.toNat / 16 < 16 by omega)
  have hlow := hexDigit_visible (show c.toNat % 16 < 16 by omega)
  exact visible_append (a := ['\\', 'u', '0', '0']) (by decide)
    (visible_cons hhigh (visible_cons hlow (by decide)))

theorem visible_quoted (s : String) : Visible (quoted s) := by
  refine visible_cons (by decide) (visible_append ?_ (by decide))
  intro c hc
  obtain ⟨d, -, hmem⟩ := List.mem_flatMap.mp hc
  exact visible_escape d c hmem

theorem visible_renderItems {items : List Json} (h : ∀ item ∈ items, Visible item.render) :
    Visible (renderItems items) := by
  induction items with
  | nil => exact List.forall_mem_nil _
  | cons item rest ih =>
    have hitem := h item List.mem_cons_self
    have hrest := ih fun other hmem => h other (List.mem_cons_of_mem _ hmem)
    cases rest with
    | nil => exact hitem
    | cons next more =>
      show Visible (item.render ++ ',' :: renderItems (next :: more))
      exact visible_append hitem (visible_cons (by decide) hrest)

theorem visible_renderFields {fields : List (String × Json)}
    (h : ∀ field ∈ fields, Visible field.2.render) : Visible (renderFields fields) := by
  induction fields with
  | nil => exact List.forall_mem_nil _
  | cons field rest ih =>
    obtain ⟨name, value⟩ := field
    have hrest := ih fun other hmem => h other (List.mem_cons_of_mem _ hmem)
    have hfield : Visible (quoted name ++ ':' :: value.render) :=
      visible_append (visible_quoted name)
        (visible_cons (by decide) (h (name, value) List.mem_cons_self))
    cases rest with
    | nil => exact hfield
    | cons next more =>
      show Visible (quoted name ++ ':' :: value.render ++ ',' :: renderFields (next :: more))
      exact visible_append hfield (visible_cons (by decide) hrest)

theorem Visible.subset {cs part : List Char} (h : Visible cs) (hpart : part ⊆ cs) :
    Visible part :=
  fun c hc => h c (hpart hc)

theorem visible_replicate (n : Nat) {c : Char} (hc : 0x20 ≤ c.toNat) :
    Visible (List.replicate n c) := by
  intro d hd
  rw [List.eq_of_mem_replicate hd]
  exact hc

theorem visible_positional {layout : Layout} (hending : Visible layout.wholeEnding)
    {cs : List Char} (hcs : Visible cs) (point : Int) :
    Visible (layout.positional cs point) := by
  unfold Layout.positional
  split
  · exact visible_cons (by decide)
      (visible_cons (by decide) (visible_append (visible_replicate _ (by decide)) hcs))
  · split
    · exact visible_append (hcs.subset (List.take_subset _ _))
        (visible_cons (by decide) (hcs.subset (List.drop_subset _ _)))
    · exact visible_append (visible_append hcs (visible_replicate _ (by decide))) hending

theorem visible_scientific {cs : List Char} (hcs : Visible cs) (power : Int) :
    Visible (Layout.scientific cs power) := by
  have hsign : 0x20 ≤ (if power < 0 then '-' else '+').toNat := by
    split <;> decide
  have hmark : Visible ('e' :: (if power < 0 then '-' else '+') :: Text.digits power.natAbs) :=
    visible_cons (by decide) (visible_cons hsign (visible_digits _))
  cases cs with
  | nil => exact hmark
  | cons d more =>
    have hd := hcs d List.mem_cons_self
    cases more with
    | nil => exact visible_cons hd hmark
    | cons next rest =>
      have hrest := hcs.subset (List.subset_cons_self d (next :: rest))
      exact visible_cons hd (visible_cons (by decide) (visible_append hrest hmark))

theorem visible_layout {layout : Layout} (hending : Visible layout.wholeEnding) (d : Decimal) :
    Visible (layout.render d) := by
  unfold Layout.render
  split
  · exact visible_cons (by decide) hending
  · simp only
    split
    · exact visible_positional hending (visible_digits _) _
    · exact visible_scientific (visible_digits _) _

theorem visible_binary {layout : Layout} (hending : Visible layout.wholeEnding) (x : Binary64) :
    Visible (x.render layout) := by
  have hsign (negative : Bool) : Visible (if negative = true then ['-'] else []) := by
    cases negative <;> decide
  cases x with
  | finite negative mantissa exponent =>
    exact visible_append (hsign negative) (visible_layout hending _)
  | infinite negative => exact visible_append (hsign negative) (by decide)
  | nan =>
    show Visible ['N', 'a', 'N']
    decide

theorem visible_render (value : Json) : Visible value.render := by
  induction hsize : sizeOf value using Nat.strongRecOn generalizing value with
  | ind n ih =>
    subst hsize
    cases value with
    | null =>
      show Visible "null".toList
      decide
    | boolean b =>
      cases b
      · show Visible "false".toList
        decide
      · show Visible "true".toList
        decide
    | integer n => exact visible_numeral n
    | float x => exact visible_binary (by decide) x
    | text s => exact visible_quoted s
    | array items =>
      have hitems : ∀ item ∈ items, Visible item.render := by
        intro item hmem
        have hsmaller := List.sizeOf_lt_of_mem hmem
        refine ih (sizeOf item) ?_ item rfl
        rw [array.sizeOf_spec]
        omega
      show Visible ('[' :: renderItems items ++ [']'])
      exact visible_append (visible_cons (by decide) (visible_renderItems hitems)) (by decide)
    | object fields =>
      have hfields : ∀ field ∈ fields, Visible field.2.render := by
        rintro ⟨name, value⟩ hmem
        have hsmaller := List.sizeOf_lt_of_mem hmem
        rw [Prod.mk.sizeOf_spec] at hsmaller
        refine ih (sizeOf value) ?_ value rfl
        rw [object.sizeOf_spec]
        omega
      show Visible ('\x7b' :: renderFields fields ++ ['\x7d'])
      exact visible_append (visible_cons (by decide) (visible_renderFields hfields)) (by decide)

end Json

end RecordArchive
