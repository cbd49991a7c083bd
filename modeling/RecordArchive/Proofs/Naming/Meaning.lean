import Mathlib
import RecordArchive.Proofs.Naming.Rendering

/-!
# What a pattern means

Patterns that are rendered alike have the same items.  At three moments that are chosen for it no
two fields begin with the same characters, other than the short and the long form of a name; a
literal begins with one character at all of them, and a field with several.  The first items of
two patterns that are rendered alike at these moments are therefore equal, and can be taken off:
`items_eq_of_alike`.  The main statement is `items_eq_iff_render_eq`.
-/

namespace RecordArchive.Naming

/-! ## How fields begin -/

namespace Field

/-- The fields that runs of one letter name. -/
def named : List Field := letters.flatMap fun letter => [1, 2, 3, 4].filterMap (ofRun? letter)

theorem mem_named {letter : Char} {count : Nat} {f : Field} (h : ofRun? letter count = some f) :
    f ∈ named := by
  have hrun : letter ∈ letters ∧ count ∈ [1, 2, 3, 4] := by
    revert h
    fun_cases ofRun? letter count <;> simp [letters]
  exact List.mem_flatMap.mpr ⟨letter, hrun.1, List.mem_filterMap.mpr ⟨count, hrun.2, h⟩⟩

/-- The short form of a name that is written in full. -/
def short? : Field → Option Field
  | monthLong => some monthShort
  | weekdayLong => some weekdayShort
  | _ => none

/-- What follows the first three letters of a name. -/
def ending (f : Field) (now : Instant) : List Char := (f.render now).drop 3

theorem render_of_short? {f g : Field} (h : f.short? = some g) (now : Instant) :
    f.render now = g.render now ++ f.ending now := by
  have hname (name : String) : name.toList = (abbreviation name).toList ++ name.toList.drop 3 := by
    rw [abbreviation, String.toList_ofList, List.take_append_drop]
  cases f with
  | monthLong =>
    obtain rfl := Option.some.inj h
    exact hname _
  | weekdayLong =>
    obtain rfl := Option.some.inj h
    exact hname _
  | _ => cases h

end Field

/-- Moments that tell the fields apart.  The year and the day of the year have one digit at the
first of them, more at the second, and at the third as many as they are ever filled up to. -/
def moments : List Instant :=
  [⟨-62040606647, 0⟩,  -- 0004-01-05T10:09:13, a Monday
   ⟨-44239202875, 0⟩,  -- 0568-02-12T04:32:05, a Friday
   ⟨1292441621, 0⟩]    -- 2010-12-15T19:33:41, a Wednesday

theorem exists_moment : ∃ now, now ∈ moments := ⟨_, List.mem_cons_self⟩

/-- The first characters of a text that depends on the time, at these moments. -/
def leads (text : Instant → List Char) : List (Option Char) :=
  moments.map fun now => (text now).head?

def Varies (firsts : List (Option Char)) : Prop := ∃ a ∈ firsts, ∃ b ∈ firsts, a ≠ b

instance (firsts : List (Option Char)) : Decidable (Varies firsts) :=
  inferInstanceAs (Decidable (∃ a ∈ firsts, ∃ b ∈ firsts, a ≠ b))

theorem leads_congr {text text' : Instant → List Char}
    (h : ∀ now ∈ moments, text now = text' now) : leads text = leads text' :=
  List.map_congr_left fun now hnow => congrArg List.head? (h now hnow)

theorem not_varies_const (cs : List Char) : ¬ Varies (leads fun _ => cs) := by
  rintro ⟨a, ha, b, hb, hne⟩
  obtain ⟨_, -, rfl⟩ := List.mem_map.mp ha
  obtain ⟨_, -, rfl⟩ := List.mem_map.mp hb
  exact hne rfl

theorem varies_field : ∀ f ∈ Field.named, Varies (leads f.render) := by
  decide +kernel

theorem eq_or_short_of_leads : ∀ f ∈ Field.named, ∀ g ∈ Field.named,
    leads f.render = leads g.render → f = g ∨ f.short? = some g ∨ g.short? = some f := by
  decide +kernel

/-- After its short form a full name goes on with different letters at these moments, as no field
begins. -/
theorem leads_ending : ∀ f ∈ Field.named, f.short?.isSome = true →
    none ∉ leads f.ending ∧ Varies (leads f.ending) ∧
      ∀ g ∈ Field.named, leads g.render ≠ leads f.ending := by
  decide +kernel

/-! ## How items begin -/

/-- The items of patterns that are read. -/
structure Legible (items : List Item) : Prop where
  canonical : Canonical items
  named : ∀ f, Item.field f ∈ items → f ∈ Field.named

section Items

variable {items items' rest rest' : List Item} {item : Item} {f g : Field} {text : List Char}

def renderAll (items : List Item) (now : Instant) : List Char := items.flatMap (Item.render now)

theorem renderAll_cons (item : Item) (rest : List Item) (now : Instant) :
    renderAll (item :: rest) now = item.render now ++ renderAll rest now := List.flatMap_cons

theorem Legible.tail (h : Legible (item :: rest)) : Legible rest where
  canonical :=
    ⟨List.not_mem_of_not_mem_cons h.canonical.nonempty, h.canonical.apart.tail⟩
  named f hf := h.named f (List.mem_cons_of_mem item hf)

theorem Legible.field_mem (h : Legible (.field f :: rest)) : f ∈ Field.named :=
  h.named f List.mem_cons_self

theorem Legible.text_ne_nil (h : Legible (.literal text :: rest)) : text ≠ [] := by
  rintro rfl
  exact h.canonical.nonempty List.mem_cons_self

theorem leads_field (f : Field) (rest : List Item) :
    leads (renderAll (.field f :: rest)) = leads f.render := by
  refine List.map_congr_left fun now _ => ?_
  rw [renderAll_cons]
  exact List.head?_append_of_ne_nil _ (f.signs_render now).nonempty

theorem leads_literal (h : text ≠ []) (after : Instant → List Char) :
    leads (fun now => text ++ after now) = leads fun _ => text :=
  List.map_congr_left fun _ _ => List.head?_append_of_ne_nil _ h

/-- Items that begin with several characters begin with a field. -/
theorem exists_field_of_varies (h : Legible items) (hvaries : Varies (leads (renderAll items))) :
    ∃ f rest, items = .field f :: rest := by
  cases items with
  | nil => exact absurd hvaries (not_varies_const [])
  | cons item rest =>
    cases item with
    | field f => exact ⟨f, rest, rfl⟩
    | literal text =>
      have hconst : leads (renderAll (.literal text :: rest)) = leads fun _ => text :=
        leads_literal h.text_ne_nil (renderAll rest)
      rw [hconst] at hvaries
      exact absurd hvaries (not_varies_const text)

/-- The other way around, they do not begin with a field if they begin with text. -/
theorem not_field_of_text (h : Legible (.field f :: rest)) (hne : text ≠ [])
    {after : Instant → List Char}
    (heq : ∀ now ∈ moments, renderAll (.field f :: rest) now = text ++ after now) : False := by
  have hleads := leads_congr heq
  rw [leads_field, leads_literal hne] at hleads
  have hvaries := varies_field f h.field_mem
  rw [hleads] at hvaries
  exact not_varies_const text hvaries

/-- The items after the short form of a name do not write the rest of it. -/
theorem not_short (h : Legible rest) (hf : f ∈ Field.named) (hshort : f.short? = some g)
    {after : Instant → List Char}
    (heq : ∀ now ∈ moments, f.render now ++ after now = g.render now ++ renderAll rest now) :
    False := by
  obtain ⟨hnone, hvaries, hother⟩ := leads_ending f hf (Option.isSome_of_eq_some hshort)
  have hrest : ∀ now ∈ moments, renderAll rest now = f.ending now ++ after now := by
    intro now hnow
    have hwhole := heq now hnow
    rw [Field.render_of_short? hshort, List.append_assoc] at hwhole
    exact (List.append_cancel_left hwhole).symm
  have hfull : ∀ now ∈ moments, f.ending now ≠ [] := by
    intro now hnow hnil
    exact hnone (List.mem_map.mpr ⟨now, hnow, congrArg List.head? hnil⟩)
  have hleads : leads (renderAll rest) = leads f.ending := by
    rw [leads_congr hrest]
    exact List.map_congr_left fun now hnow => List.head?_append_of_ne_nil _ (hfull now hnow)
  obtain ⟨k, more, rfl⟩ := exists_field_of_varies h (hleads ▸ hvaries)
  rw [leads_field] at hleads
  exact hother k h.field_mem hleads

theorem field_eq_of_alike (h : Legible (.field f :: rest)) (h' : Legible (.field g :: rest'))
    (heq : ∀ now ∈ moments, f.render now ++ renderAll rest now =
      g.render now ++ renderAll rest' now) : f = g := by
  have hleads : leads f.render = leads g.render := by
    rw [← leads_field f rest, ← leads_field g rest']
    exact leads_congr heq
  rcases eq_or_short_of_leads f h.field_mem g h'.field_mem hleads with heq' | hshort | hshort
  · exact heq'
  · exact (not_short h'.tail h.field_mem hshort heq).elim
  · exact (not_short h.tail h'.field_mem hshort fun now hnow => (heq now hnow).symm).elim

/-- Text goes on to where the next field begins, so no more text comes after it. -/
theorem eq_nil_of_text (h : Legible (.literal text :: rest)) {more : List Char}
    {after : Instant → List Char}
    (heq : ∀ now ∈ moments, renderAll rest now = more ++ after now) : more = [] := by
  by_contra hne
  cases rest with
  | nil =>
    obtain ⟨now, hnow⟩ := exists_moment
    have hnil : [] = more ++ after now := heq now hnow
    exact hne (List.append_eq_nil_iff.mp hnil.symm).1
  | cons item rest =>
    cases item with
    | field f => exact not_field_of_text h.tail hne heq
    | literal next =>
      have hnext := (List.isChain_cons_cons.mp h.canonical.apart).1
      simp [Item.isField] at hnext

theorem text_eq_of_alike {text' : List Char} (h : Legible (.literal text :: rest))
    (h' : Legible (.literal text' :: rest'))
    (heq : ∀ now ∈ moments, text ++ renderAll rest now = text' ++ renderAll rest' now) :
    text = text' := by
  obtain ⟨one, hone⟩ := exists_moment
  -- One of the two texts goes on for longer, by the same characters at every moment.
  rcases List.append_eq_append_iff.mp (heq one hone) with ⟨more, rfl, -⟩ | ⟨more, rfl, -⟩
  · have hmore : more = [] := eq_nil_of_text h fun now hnow =>
      List.append_cancel_left (by rw [heq now hnow, List.append_assoc])
    rw [hmore, List.append_nil]
  · have hmore : more = [] := eq_nil_of_text h' fun now hnow =>
      List.append_cancel_left (by rw [← heq now hnow, List.append_assoc])
    rw [hmore, List.append_nil]

theorem renderAll_ne_nil (h : Legible (item :: rest)) (now : Instant) :
    renderAll (item :: rest) now ≠ [] := by
  rw [renderAll_cons]
  refine List.append_ne_nil_of_left_ne_nil ?_ _
  cases item with
  | field f => exact (f.signs_render now).nonempty
  | literal text => exact h.text_ne_nil

/-- Items that are rendered alike at the chosen moments are the same. -/
theorem items_eq_of_alike (h : Legible items) (h' : Legible items')
    (heq : ∀ now ∈ moments, renderAll items now = renderAll items' now) : items = items' := by
  obtain ⟨one, hone⟩ := exists_moment
  induction items generalizing items' with
  | nil =>
    cases items' with
    | nil => rfl
    | cons item' rest' => exact absurd (heq one hone).symm (renderAll_ne_nil h' one)
  | cons item rest ih =>
    cases items' with
    | nil => exact absurd (heq one hone) (renderAll_ne_nil h one)
    | cons item' rest' =>
      have hitem : item = item' := by
        cases item with
        | field f =>
          cases item' with
          | field g => rw [field_eq_of_alike h h' heq]
          | literal text' => exact (not_field_of_text h h'.text_ne_nil heq).elim
        | literal text =>
          cases item' with
          | field g =>
            exact (not_field_of_text h' h.text_ne_nil fun now hnow => (heq now hnow).symm).elim
          | literal text' => rw [text_eq_of_alike h h' heq]
      subst hitem
      rw [ih h.tail h'.tail fun now hnow => List.append_cancel_left (heq now hnow)]

end Items

/-! ## Patterns -/

section Patterns

variable {cs ds : List Char} {p q : Pattern} {items : List Item} {f : Field}

theorem field_mem_of_glue (h : Item.field f ∈ glue items) : Item.field f ∈ items := by
  fun_induction glue items with
  | case1 => exact h
  | case2 g rest ih =>
    rcases List.mem_cons.mp h with heq | hmem
    · rw [heq]
      exact List.mem_cons_self
    · exact List.mem_cons_of_mem _ (ih hmem)
  | case3 text rest more after hglue ih =>
    rcases List.mem_cons.mp h with heq | hmem
    · cases heq
    · exact List.mem_cons_of_mem _ (ih (hglue ▸ List.mem_cons_of_mem _ hmem))
  | case4 text rest hglue ih =>
    rcases List.mem_cons.mp h with heq | hmem
    · cases heq
    · exact List.mem_cons_of_mem _ (ih hmem)

theorem legible_of_parse (h : Pattern.parse cs = .ok p) : Legible p.items := by
  obtain ⟨more, hcut, -, rfl⟩ := parse_eq_ok_iff.mp h
  refine ⟨canonical_glue more, fun f hf => ?_⟩
  obtain ⟨piece, hmem, hitem⟩ := List.mem_map.mp (field_mem_of_glue hf)
  cases piece with
  | run letter count field =>
    obtain rfl := Item.field.inj hitem
    exact Field.mem_named (sound_of_mem_cut hcut hmem)
  | quoted text => cases hitem
  | plain c => cases hitem

/-- Patterns have the same items exactly if they are rendered alike at every instant that there
is, so what a pattern means can be told from its items. -/
theorem items_eq_iff_render_eq (hp : Pattern.parse cs = .ok p) (hq : Pattern.parse ds = .ok q) :
    p.items = q.items ↔ ∀ now : Instant,
      Instant.ofUnix? now.seconds now.nanoseconds = some now → p.render now = q.render now := by
  constructor
  · intro heq now _
    rw [Pattern.render, heq, Pattern.render]
  · intro hrender
    have hmoments : ∀ now ∈ moments, Instant.ofUnix? now.seconds now.nanoseconds = some now := by
      decide
    exact items_eq_of_alike (legible_of_parse hp) (legible_of_parse hq)
      fun now hnow => hrender now (hmoments now hnow)

/-- The two forms of a month are the same in May, and so are not told apart by every instant. -/
theorem items_eq_iff_render_eq_months :
    let short : Pattern := ⟨"MMM".toList, [.field .monthShort]⟩
    let long : Pattern := ⟨"MMMM".toList, [.field .monthLong]⟩
    (Pattern.parse "MMM".toList = .ok short ∧ Pattern.parse "MMMM".toList = .ok long) ∧
      short.render ⟨1526000000, 0⟩ = long.render ⟨1526000000, 0⟩ ∧
      ¬ ∀ now : Instant, Instant.ofUnix? now.seconds now.nanoseconds = some now →
        short.render now = long.render now := by
  intro short long
  have hshort : Pattern.parse "MMM".toList = .ok short := by cbv
  have hlong : Pattern.parse "MMMM".toList = .ok long := by cbv
  refine ⟨⟨hshort, hlong⟩, by decide, fun hall => ?_⟩
  have hitems : short.items = long.items := (items_eq_iff_render_eq hshort hlong).mpr hall
  cases hitems

end Patterns

end RecordArchive.Naming
