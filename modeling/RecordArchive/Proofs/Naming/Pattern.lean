import Mathlib.Data.List.Chain
import Mathlib.Data.List.TakeWhile
import RecordArchive.Naming.Pattern

/-!
# The grammar of patterns

A pattern is cut from left to right into pieces: runs of a letter, quoted sections and plain
characters.  No piece can be cut off in two ways, as a run ends where another character comes and
a section at the first quote that is not doubled.  The main statement is `pattern_grammar`: a text
is read as a pattern if it can be cut so and has a run, and it is rendered piece by piece.
-/

namespace RecordArchive.Naming

/-! ## Pieces -/

/-- A piece of a pattern. -/
inductive Piece
  | run (letter : Char) (count : Nat) (field : Field)
  | quoted (text : List Char)
  | plain (c : Char)

/-- A text as it is written between quotes: with every quote in it doubled. -/
def doubled (text : List Char) : List Char :=
  text.flatMap fun c => if c = '\'' then ['\'', '\''] else [c]

/-- The control characters of Unicode. -/
def IsControl (c : Char) : Prop := c.toNat < 0x20 ∨ 0x7F ≤ c.toNat ∧ c.toNat < 0xA0

namespace Piece

def written : Piece → List Char
  | run letter count _ => List.replicate count letter
  | quoted text => '\'' :: (doubled text ++ ['\''])
  | plain c => [c]

/-- A run names a field, a quoted text has no reserved characters, and any other character is of
ASCII and none of those that have a meaning or are refused. -/
def Sound : Piece → Prop
  | run letter count field => Field.ofRun? letter count = some field
  | quoted text => ∀ c ∈ text, c ∉ reserved
  | plain c => c.toNat < 0x80 ∧ ¬ IsControl c ∧ c.isAlpha = false ∧ c ≠ '\'' ∧ c ∉ reserved

/-- What follows a piece does not belong to it: a run is as long as can be, and the quote that
closes a section is not doubled. -/
def Ends (rest : List Char) : Piece → Prop
  | run letter _ _ => rest.head? ≠ some letter
  | quoted _ => rest.head? ≠ some '\''
  | plain _ => True

def IsRun : Piece → Prop
  | run .. => True
  | _ => False

/-- The text of a piece at an instant.  An empty section stands for a quote. -/
def render (t : Instant) : Piece → List Char
  | run _ _ field => field.render t
  | quoted text => if text = [] then ['\''] else text
  | plain c => [c]

/-- The item of a pattern that a piece becomes. -/
def item : Piece → Item
  | run _ _ field => .field field
  | quoted text => .literal (if text = [] then ['\''] else text)
  | plain c => .literal [c]

theorem render_item (t : Instant) (piece : Piece) : piece.item.render t = piece.render t := by
  cases piece <;> rfl

theorem isField_item {piece : Piece} : piece.item.isField = true ↔ piece.IsRun := by
  cases piece <;> simp [item, Item.isField, IsRun]

end Piece

/-- How a text is cut into pieces, from left to right. -/
inductive Cut : List Char → List Piece → Prop
  | nil : Cut [] []
  | cons {piece : Piece} {rest : List Char} {more : List Piece} :
      piece.Sound → piece.Ends rest → Cut rest more → Cut (piece.written ++ rest) (piece :: more)

/-! ## Quoted sections -/

section Quoted

variable {text after rest : List Char} {c : Char}

theorem doubled_quote (text : List Char) :
    doubled ('\'' :: text) = '\'' :: '\'' :: doubled text := rfl

theorem doubled_cons (h : c ≠ '\'') (text : List Char) :
    doubled (c :: text) = c :: doubled text := by
  rw [doubled, List.flatMap_cons, if_neg h]
  rfl

theorem quotedSection_quote (h : after.head? ≠ some '\'') :
    quotedSection ('\'' :: after) = some ([], after) := by
  rw [quotedSection]
  rintro rest rfl
  exact h rfl

theorem quotedSection_cons (h : c ≠ '\'') (rest : List Char) :
    quotedSection (c :: rest) =
      (quotedSection rest).map fun parts => (c :: parts.1, parts.2) := by
  rw [quotedSection]
  · exact fun _ hc => absurd hc h
  · exact h

theorem quotedSection_doubled (h : after.head? ≠ some '\'') (text : List Char) :
    quotedSection (doubled text ++ '\'' :: after) = some (text, after) := by
  induction text with
  | nil => exact quotedSection_quote h
  | cons c text ih =>
    by_cases hc : c = '\''
    · subst hc
      rw [doubled_quote, List.cons_append, List.cons_append, quotedSection, ih]
      rfl
    · rw [doubled_cons hc, List.cons_append, quotedSection_cons hc, ih]
      rfl

theorem of_quotedSection_eq_some (h : quotedSection rest = some (text, after)) :
    rest = doubled text ++ '\'' :: after ∧ after.head? ≠ some '\'' := by
  fun_induction quotedSection rest generalizing text after with
  | case1 => cases h
  | case2 rest ih =>
    obtain ⟨⟨inner, tail⟩, hinner, hparts⟩ := Option.map_eq_some_iff.mp h
    obtain ⟨rfl, rfl⟩ := Prod.mk.inj hparts
    obtain ⟨rfl, hhead⟩ := ih hinner
    exact ⟨rfl, hhead⟩
  | case3 rest hrest =>
    obtain ⟨rfl, rfl⟩ := Prod.mk.inj (Option.some.inj h)
    refine ⟨rfl, fun hhead => ?_⟩
    obtain ⟨tail, rfl⟩ := List.head?_eq_some_iff.mp hhead
    exact hrest tail rfl
  | case4 c rest _ hc ih =>
    obtain ⟨⟨inner, tail⟩, hinner, hparts⟩ := Option.map_eq_some_iff.mp h
    obtain ⟨rfl, rfl⟩ := Prod.mk.inj hparts
    obtain ⟨rfl, hhead⟩ := ih hinner
    exact ⟨by rw [doubled_cons hc, List.cons_append], hhead⟩

end Quoted

/-! ## Single pieces -/

section Pieces

variable {cs rest text after : List Char} {c letter : Char} {count : Nat} {items : List Item}

theorem pieces_of_unclosed (h : quotedSection rest = none) :
    pieces ('\'' :: rest) = .error .unclosedQuote := by
  rw [pieces, if_pos rfl]
  split
  · rfl
  · rename_i hsome
    rw [h] at hsome
    cases hsome

theorem pieces_of_quote (h : quotedSection rest = some (text, after)) :
    pieces ('\'' :: rest) = do
      let item ← quotedItem text
      return item :: (← pieces after) := by
  rw [pieces, if_pos rfl]
  split
  · rename_i hnone
    rw [h] at hnone
    cases hnone
  · rename_i hsome
    rw [h] at hsome
    obtain ⟨rfl, rfl⟩ := Prod.mk.inj (Option.some.inj hsome)
    rfl

theorem pieces_of_letter (hquote : c ≠ '\'') (h : c.isAlpha = true) (rest : List Char) :
    pieces (c :: rest) = do
      let item ← runItem c ((rest.takeWhile (· == c)).length + 1)
      return item :: (← pieces (rest.dropWhile (· == c))) := by
  rw [pieces, if_neg hquote, if_pos h]

theorem pieces_of_other (hquote : c ≠ '\'') (h : ¬ c.isAlpha = true) (rest : List Char) :
    pieces (c :: rest) = do
      let item ← plainItem c
      return item :: (← pieces rest) := by
  rw [pieces, if_neg hquote, if_neg h]

theorem andThen_eq_ok_iff {first : Except PatternFault Item}
    {others : Except PatternFault (List Item)} :
    (do let item ← first
        return item :: (← others)) = .ok items ↔
      ∃ item more, first = .ok item ∧ others = .ok more ∧ item :: more = items := by
  cases first with
  | error fault => simp [bind, Except.bind]
  | ok item =>
    cases others with
    | error fault => simp [bind, Except.bind]
    | ok more => simp [bind, Except.bind, pure, Except.pure]

theorem isReserved_iff : isReserved c = true ↔ c ∈ reserved := by
  simp [isReserved]

theorem quotedItem_eq_ok_iff {item : Item} :
    quotedItem text = .ok item ↔ (Piece.quoted text).Sound ∧ (Piece.quoted text).item = item := by
  by_cases hempty : text = []
  · subst hempty
    simp [quotedItem, Piece.Sound, Piece.item, isReserved, reserved]
  · have hnot : text.isEmpty = false := by simpa using hempty
    have hsound : text.any isReserved = false ↔ (Piece.quoted text).Sound := by
      simp only [List.any_eq_false, isReserved_iff, Piece.Sound]
    rw [← hsound]
    simp only [quotedItem, hnot, Bool.false_eq_true, if_false, Piece.item, hempty]
    cases text.any isReserved <;> simp

theorem runItem_eq_ok_iff {item : Item} :
    runItem letter count = .ok item ↔
      ∃ field, Field.ofRun? letter count = some field ∧ Item.field field = item := by
  cases hfield : Field.ofRun? letter count with
  | some field => simp [runItem, hfield]
  | none =>
    simp only [runItem, hfield]
    split <;> simp

theorem isPlain_iff : isPlain c = true ↔ (Piece.plain c).Sound := by
  simp only [isPlain, Piece.Sound, IsControl, Bool.and_eq_true, Bool.not_eq_true', bne_iff_ne,
    decide_eq_true_eq, ← isReserved_iff, Bool.not_eq_true]
  constructor
  · rintro ⟨⟨⟨⟨hlow, hhigh⟩, hletter⟩, hquote⟩, hreserved⟩
    exact ⟨by omega, by omega, hletter, hquote, hreserved⟩
  · rintro ⟨hascii, hcontrol, hletter, hquote, hreserved⟩
    exact ⟨⟨⟨⟨by omega, by omega⟩, hletter⟩, hquote⟩, hreserved⟩

theorem plainItem_eq_ok_iff {item : Item} :
    plainItem c = .ok item ↔ (Piece.plain c).Sound ∧ (Piece.plain c).item = item := by
  rw [← isPlain_iff]
  by_cases hplain : isPlain c = true
  · simp [plainItem, hplain, Piece.item]
  · simp [plainItem, hplain]

theorem takeWhile_run (h : rest.head? ≠ some letter) (count : Nat) :
    (List.replicate count letter ++ rest).takeWhile (· == letter) = List.replicate count letter ∧
      (List.replicate count letter ++ rest).dropWhile (· == letter) = rest := by
  have hall : ∀ c ∈ List.replicate count letter, (c == letter) = true := fun c hc =>
    beq_iff_eq.mpr (List.eq_of_mem_replicate hc)
  rw [List.takeWhile_append_of_pos hall, List.dropWhile_append_of_pos hall]
  cases rest with
  | nil => simp
  | cons c rest =>
    have hne : (c == letter) = false := beq_eq_false_iff_ne.mpr fun heq => h (heq ▸ rfl)
    simp [hne]

theorem takeWhile_eq_replicate (letter : Char) (cs : List Char) :
    cs.takeWhile (· == letter) = List.replicate (cs.takeWhile (· == letter)).length letter :=
  List.eq_replicate_of_mem fun _ hc =>
    beq_iff_eq.mp (List.mem_takeWhile_imp (p := (· == letter)) hc)

theorem head?_dropWhile_ne (letter : Char) (cs : List Char) :
    (cs.dropWhile (· == letter)).head? ≠ some letter := by
  intro hhead
  have := List.head?_dropWhile_not (· == letter) cs
  rw [hhead] at this
  simp at this

/-- Only letters name fields, and they do so when they are written at least once. -/
theorem of_ofRun?_eq_some {field : Field} (h : Field.ofRun? letter count = some field) :
    letter.isAlpha = true ∧ 0 < count := by
  revert h
  fun_cases Field.ofRun? letter count <;> simp

end Pieces

/-! ## Cuts -/

section Cuts

variable {cs rest rest' : List Char} {piece piece' : Piece} {more more' : List Piece}

/-- A piece at the front of a text is read first. -/
theorem pieces_append (hsound : piece.Sound) (hends : piece.Ends rest) :
    pieces (piece.written ++ rest) = (pieces rest).map (piece.item :: ·) := by
  cases piece with
  | run letter count field =>
    obtain ⟨hletter, hpos⟩ := of_ofRun?_eq_some hsound
    obtain ⟨count, rfl⟩ := Nat.exists_eq_add_one_of_ne_zero hpos.ne'
    have hquote : letter ≠ '\'' := by
      rintro rfl
      cases hletter
    obtain ⟨htake, hdrop⟩ := takeWhile_run hends count
    rw [Piece.written, List.replicate_succ, List.cons_append, pieces_of_letter hquote hletter,
      htake, hdrop, List.length_replicate, runItem_eq_ok_iff.mpr ⟨field, hsound, rfl⟩]
    rfl
  | quoted text =>
    have hquoted := quotedSection_doubled hends text
    have hwritten : (Piece.quoted text).written ++ rest =
        '\'' :: (doubled text ++ '\'' :: rest) := by
      simp [Piece.written]
    rw [hwritten, pieces_of_quote hquoted, quotedItem_eq_ok_iff.mpr ⟨hsound, rfl⟩]
    rfl
  | plain c =>
    have hletter : ¬ c.isAlpha = true := by simp [hsound.2.2.1]
    rw [Piece.written, List.singleton_append, pieces_of_other hsound.2.2.2.1 hletter,
      plainItem_eq_ok_iff.mpr ⟨hsound, rfl⟩]
    rfl

theorem pieces_of_cut (h : Cut cs more) : pieces cs = .ok (more.map Piece.item) := by
  induction h with
  | nil => rw [pieces]; rfl
  | cons hsound hends _ ih =>
    rw [pieces_append hsound hends, ih]
    rfl

/-- What is read has been cut. -/
theorem exists_cut_of_pieces {items : List Item} (h : pieces cs = .ok items) :
    ∃ more, Cut cs more ∧ more.map Piece.item = items := by
  induction cs using pieces.induct generalizing items with
  | case1 =>
    rw [pieces] at h
    exact ⟨[], .nil, Except.ok.inj h⟩
  | case2 rest hnone =>
    rw [pieces_of_unclosed hnone] at h
    cases h
  | case3 rest text after hsome _ ih =>
    rw [pieces_of_quote hsome, andThen_eq_ok_iff] at h
    obtain ⟨item, items, hitem, hitems, rfl⟩ := h
    obtain ⟨hsound, rfl⟩ := quotedItem_eq_ok_iff.mp hitem
    obtain ⟨more, hcut, rfl⟩ := ih hitems
    obtain ⟨rfl, hends⟩ := of_quotedSection_eq_some hsome
    have hwhole := Cut.cons hsound hends hcut
    exact ⟨_, by simpa [Piece.written] using hwhole, rfl⟩
  | case4 c rest hquote hletter ih =>
    rw [pieces_of_letter hquote hletter, andThen_eq_ok_iff] at h
    obtain ⟨item, items, hitem, hitems, rfl⟩ := h
    obtain ⟨field, hfield, rfl⟩ := runItem_eq_ok_iff.mp hitem
    obtain ⟨more, hcut, rfl⟩ := ih hitems
    have hrun : (Piece.run c _ field).Sound := hfield
    have hwhole := Cut.cons hrun (head?_dropWhile_ne c rest) hcut
    rw [Piece.written, List.replicate_succ, ← takeWhile_eq_replicate, List.cons_append,
      List.takeWhile_append_dropWhile] at hwhole
    exact ⟨_, hwhole, rfl⟩
  | case5 c rest hquote hletter ih =>
    rw [pieces_of_other hquote hletter, andThen_eq_ok_iff] at h
    obtain ⟨item, items, hitem, hitems, rfl⟩ := h
    obtain ⟨hsound, rfl⟩ := plainItem_eq_ok_iff.mp hitem
    obtain ⟨more, hcut, rfl⟩ := ih hitems
    exact ⟨_, Cut.cons hsound trivial hcut, rfl⟩

/-! There is one way at most to cut a text. -/

/-- The character that a piece begins with. -/
def Piece.first : Piece → Char
  | run letter _ _ => letter
  | quoted _ => '\''
  | plain c => c

theorem head?_written (hsound : piece.Sound) (rest : List Char) :
    (piece.written ++ rest).head? = some piece.first := by
  cases piece with
  | run letter count field =>
    obtain ⟨count, rfl⟩ := Nat.exists_eq_add_one_of_ne_zero (of_ofRun?_eq_some hsound).2.ne'
    rfl
  | quoted text => rfl
  | plain c => rfl

theorem written_ne_nil (hsound : piece.Sound) (rest : List Char) : piece.written ++ rest ≠ [] := by
  intro hnil
  have hhead := head?_written hsound rest
  rw [hnil] at hhead
  cases hhead

/-- What kind of piece it is can be told from the first character, and where it ends from those
that follow. -/
theorem piece_unique (hsound : piece.Sound) (hends : piece.Ends rest) (hsound' : piece'.Sound)
    (hends' : piece'.Ends rest') (h : piece.written ++ rest = piece'.written ++ rest') :
    piece = piece' ∧ rest = rest' := by
  have hfirst : piece.first = piece'.first := by
    have hhead := head?_written hsound rest
    rw [h, head?_written hsound'] at hhead
    exact (Option.some.inj hhead).symm
  cases piece with
  | run letter count field =>
    have hletter := (of_ofRun?_eq_some hsound).1
    cases piece' with
    | run letter' count' field' =>
      obtain rfl : letter = letter' := hfirst
      obtain ⟨htake, hdrop⟩ := takeWhile_run hends count
      obtain ⟨htake', hdrop'⟩ := takeWhile_run hends' count'
      simp only [Piece.written] at h
      rw [h, htake'] at htake
      rw [h, hdrop'] at hdrop
      obtain rfl : count' = count := by simpa using congrArg List.length htake
      obtain rfl := Option.some.inj (Eq.trans (Eq.symm hsound) hsound')
      exact ⟨rfl, hdrop.symm⟩
    | quoted text' =>
      obtain rfl : letter = '\'' := hfirst
      cases hletter
    | plain c' =>
      obtain rfl : letter = c' := hfirst
      exact absurd (hletter.symm.trans hsound'.2.2.1) Bool.noConfusion
  | quoted text =>
    cases piece' with
    | run letter' count' field' =>
      have hletter := (of_ofRun?_eq_some hsound').1
      obtain rfl : '\'' = letter' := hfirst
      cases hletter
    | quoted text' =>
      simp only [Piece.written, List.cons_append, List.append_assoc, List.cons.injEq,
        true_and, List.nil_append] at h
      have hquoted := quotedSection_doubled hends text
      rw [h, quotedSection_doubled hends'] at hquoted
      obtain ⟨rfl, rfl⟩ := Prod.mk.inj (Option.some.inj hquoted)
      exact ⟨rfl, rfl⟩
    | plain c' => exact absurd hfirst.symm hsound'.2.2.2.1
  | plain c =>
    cases piece' with
    | run letter' count' field' =>
      have hletter := (of_ofRun?_eq_some hsound').1
      obtain rfl : c = letter' := hfirst
      exact absurd (hletter.symm.trans hsound.2.2.1) Bool.noConfusion
    | quoted text' => exact absurd hfirst hsound.2.2.2.1
    | plain c' =>
      obtain ⟨rfl, rfl⟩ := List.cons.inj h
      exact ⟨rfl, rfl⟩

theorem cut_unique (h : Cut cs more) (h' : Cut cs more') : more = more' := by
  induction h generalizing more' with
  | nil =>
    generalize hnil : ([] : List Char) = cs at h'
    cases h' with
    | nil => rfl
    | cons hsound => exact absurd hnil.symm (written_ne_nil hsound _)
  | @cons piece rest more hsound hends _ ih =>
    generalize hwhole : piece.written ++ rest = cs at h'
    cases h' with
    | nil => exact absurd hwhole (written_ne_nil hsound _)
    | cons hsound' hends' hrest' =>
      obtain ⟨rfl, rfl⟩ := piece_unique hsound hends hsound' hends' hwhole
      rw [ih hrest']

end Cuts

/-! ## Items -/

/-- Items as a pattern keeps them: no literal is empty, and no two literals are neighbours. -/
structure Canonical (items : List Item) : Prop where
  nonempty : Item.literal [] ∉ items
  apart : items.IsChain fun a b => a.isField = true ∨ b.isField = true

section Items

variable {items : List Item} {more : List Piece} {cs : List Char}

theorem literal_notMem_glue (h : Item.literal [] ∉ items) : Item.literal [] ∉ glue items := by
  fun_induction glue items with
  | case1 => exact h
  | case2 f rest ih =>
    have hrest := List.not_mem_of_not_mem_cons h
    exact List.not_mem_cons_of_ne_of_not_mem Item.noConfusion (ih hrest)
  | case3 text rest more after hglue ih =>
    obtain ⟨htext, hrest⟩ := List.ne_and_not_mem_of_not_mem_cons h
    have hafter := ih hrest
    rw [hglue] at hafter
    refine List.not_mem_cons_of_ne_of_not_mem (fun hempty => htext ?_)
      (List.not_mem_of_not_mem_cons hafter)
    rw [(List.append_eq_nil_iff.mp (Item.literal.inj hempty).symm).1]
  | case4 text rest hglue ih =>
    obtain ⟨htext, hrest⟩ := List.ne_and_not_mem_of_not_mem_cons h
    exact List.not_mem_cons_of_ne_of_not_mem htext (ih hrest)

theorem isChain_glue (items : List Item) :
    (glue items).IsChain fun a b => a.isField = true ∨ b.isField = true := by
  fun_induction glue items with
  | case1 => exact .nil
  | case2 f rest ih => exact List.isChain_cons.mpr ⟨fun _ _ => Or.inl rfl, ih⟩
  | case3 text rest more after hrest ih =>
    rw [hrest] at ih
    obtain ⟨hnext, hafter⟩ := List.isChain_cons.mp ih
    exact List.isChain_cons.mpr ⟨hnext, hafter⟩
  | case4 text rest hrest ih =>
    refine List.isChain_cons.mpr ⟨fun next hnext => Or.inr ?_, ih⟩
    obtain ⟨after, hafter⟩ := List.head?_eq_some_iff.mp hnext
    cases next with
    | field f => rfl
    | literal more => exact absurd hafter (hrest more after)

theorem literal_notMem_items (more : List Piece) : Item.literal [] ∉ more.map Piece.item := by
  intro hmem
  obtain ⟨piece, -, hitem⟩ := List.mem_map.mp hmem
  cases piece with
  | run letter count field => cases hitem
  | quoted text =>
    by_cases hempty : text = [] <;> simp [Piece.item, hempty] at hitem
  | plain c => cases hitem

theorem canonical_glue (more : List Piece) : Canonical (glue (more.map Piece.item)) :=
  ⟨literal_notMem_glue (literal_notMem_items more), isChain_glue _⟩

theorem render_items (more : List Piece) (now : Instant) :
    (glue (more.map Piece.item)).flatMap (Item.render now) = more.flatMap (Piece.render now) := by
  rw [render_glue, List.flatMap_map]
  exact congrArg (List.flatMap · more) (funext fun piece => Piece.render_item now piece)

/-- A text is read if it can be cut and has a run. -/
theorem parse_eq_ok_iff {p : Pattern} :
    Pattern.parse cs = .ok p ↔
      ∃ more, Cut cs more ∧ (∃ piece ∈ more, piece.IsRun) ∧
        p = ⟨cs, glue (more.map Piece.item)⟩ := by
  have hfield (more : List Piece) :
      (more.map Piece.item).any Item.isField = true ↔ ∃ piece ∈ more, piece.IsRun := by
    simp only [List.any_map, List.any_eq_true, Function.comp_apply, Piece.isField_item]
  constructor
  · intro h
    rw [Pattern.parse] at h
    cases hpieces : pieces cs with
    | error fault =>
      rw [hpieces] at h
      cases h
    | ok items =>
      obtain ⟨more, hcut, rfl⟩ := exists_cut_of_pieces hpieces
      simp only [hpieces, bind, Except.bind] at h
      split at h
      · rename_i hany
        exact ⟨more, hcut, (hfield more).mp hany, (Except.ok.inj h).symm⟩
      · cases h
  · rintro ⟨more, hcut, hrun, rfl⟩
    have hany := (hfield more).mpr hrun
    simp only [Pattern.parse, pieces_of_cut hcut, bind, Except.bind, hany, if_true]
    rfl

theorem exists_cut_of_parse {p : Pattern} (h : Pattern.parse cs = .ok p) :
    ∃ more, Cut cs more ∧ (∃ piece ∈ more, piece.IsRun) ∧
      ∀ now, p.render now = more.flatMap (Piece.render now) := by
  obtain ⟨more, hcut, hrun, rfl⟩ := parse_eq_ok_iff.mp h
  exact ⟨more, hcut, hrun, render_items more⟩

theorem exists_parse_of_cut (hcut : Cut cs more) (hrun : ∃ piece ∈ more, piece.IsRun) :
    ∃ p, Pattern.parse cs = .ok p ∧ ∀ now, p.render now = more.flatMap (Piece.render now) :=
  ⟨_, parse_eq_ok_iff.mpr ⟨more, hcut, hrun, rfl⟩, render_items more⟩

end Items

/-! ## The grammar -/

/-- A text is read as a pattern if it can be cut into pieces one of which is a run.  There is one
way at most to cut it, the pattern is rendered piece by piece, its items hold no empty literal and
no two neighbouring ones, and any other text is refused. -/
theorem pattern_grammar (cs : List Char) :
    ((∃ p, Pattern.parse cs = .ok p) ↔ ∃ more, Cut cs more ∧ ∃ piece ∈ more, piece.IsRun) ∧
    (∀ more more', Cut cs more → Cut cs more' → more = more') ∧
    (∀ p, Pattern.parse cs = .ok p →
      Canonical p.items ∧
      ∀ more, Cut cs more → ∀ now, p.render now = more.flatMap (Piece.render now)) ∧
    ((¬ ∃ more, Cut cs more ∧ ∃ piece ∈ more, piece.IsRun) →
      ∃ fault, Pattern.parse cs = .error fault) := by
  have hread : (∃ p, Pattern.parse cs = .ok p) ↔
      ∃ more, Cut cs more ∧ ∃ piece ∈ more, piece.IsRun := by
    constructor
    · rintro ⟨p, hp⟩
      obtain ⟨more, hcut, hrun, -⟩ := parse_eq_ok_iff.mp hp
      exact ⟨more, hcut, hrun⟩
    · rintro ⟨more, hcut, hrun⟩
      exact ⟨_, parse_eq_ok_iff.mpr ⟨more, hcut, hrun, rfl⟩⟩
  refine ⟨hread, fun _ _ h h' => cut_unique h h', fun p hp => ?_, fun hnone => ?_⟩
  · obtain ⟨more, hcut, -, rfl⟩ := parse_eq_ok_iff.mp hp
    refine ⟨canonical_glue more, fun more' hcut' now => ?_⟩
    obtain rfl := cut_unique hcut hcut'
    exact render_items more now
  · cases hparse : Pattern.parse cs with
    | error fault => exact ⟨fault, rfl⟩
    | ok p => exact absurd (hread.mp ⟨p, hparse⟩) hnone

end RecordArchive.Naming
