import Mathlib
import RecordArchive.Proofs.Naming.Pattern

/-!
# Patterns put together

Where two patterns are written one after the other, only the last piece of the first can go on
into the second: a run if its letter comes next, and a quoted section if a quote does.  Otherwise
the whole is cut as its two parts are, and is rendered as they are: `patterns_concatenate`.  Any
text without reserved characters can be put in front of a pattern in quotes: `quoting_round_trip`.
-/

namespace RecordArchive.Naming

/-- Two texts that meet in the same character, and this is one that a piece may go on with. -/
def Merges (before after : List Char) : Prop :=
  ∃ c, before.getLast? = some c ∧ after.head? = some c ∧ (c.isAlpha = true ∨ c = '\'')

section Seam

variable {before after rest : List Char} {piece : Piece} {more more' : List Piece}

/-- A piece ends with the character that it begins with. -/
theorem getLast?_written (h : piece.Sound) : piece.written.getLast? = some piece.first := by
  cases piece with
  | run letter count field =>
    have hcount := (of_ofRun?_eq_some h).2
    show (List.replicate count letter).getLast? = some letter
    rw [List.getLast?_replicate, if_neg hcount.ne']
  | quoted text =>
    show (('\'' :: doubled text) ++ ['\'']).getLast? = some '\''
    exact List.getLast?_concat
  | plain c => rfl

theorem ends_of_not_merges (hsound : piece.Sound) (h : ¬ Merges piece.written after) :
    piece.Ends after := by
  have hlast := getLast?_written hsound
  cases piece with
  | run letter count field =>
    intro hhead
    exact h ⟨letter, hlast, hhead, Or.inl (of_ofRun?_eq_some hsound).1⟩
  | quoted text =>
    intro hhead
    exact h ⟨'\'', hlast, hhead, Or.inr rfl⟩
  | plain c => trivial

/-- What ends a piece is the next character, so more text changes nothing where there is one. -/
theorem ends_append (hne : rest ≠ []) (hends : piece.Ends rest) (after : List Char) :
    piece.Ends (rest ++ after) := by
  have hhead : (rest ++ after).head? = rest.head? := List.head?_append_of_ne_nil _ hne
  cases piece with
  | run letter count field =>
    show (rest ++ after).head? ≠ some letter
    rw [hhead]
    exact hends
  | quoted text =>
    show (rest ++ after).head? ≠ some '\''
    rw [hhead]
    exact hends
  | plain c => trivial

theorem cut_append (h : Cut before more) (h' : Cut after more') (hseam : ¬ Merges before after) :
    Cut (before ++ after) (more ++ more') := by
  induction h with
  | nil => exact h'
  | @cons piece rest more hsound hends hrest ih =>
    rw [List.append_assoc]
    by_cases hnil : rest = []
    · -- The last piece is the one at the seam.
      subst hnil
      rw [List.append_nil] at hseam
      have hlast : ¬ Merges [] after := fun ⟨_, hnone, _⟩ => by cases hnone
      exact .cons hsound (ends_of_not_merges hsound hseam) (ih hlast)
    · have hlater : ¬ Merges rest after := by
        rintro ⟨c, hlast, hhead, hc⟩
        exact hseam ⟨c, by rw [List.getLast?_append_of_ne_nil _ hnil, hlast], hhead, hc⟩
      exact .cons hsound (ends_append hnil hends after) (ih hlater)

end Seam

/-! ## Reading -/

section Reading

variable {cs ds text : List Char} {p q : Pattern}

/-- Two patterns one after the other are a pattern, which is rendered as the one and then the
other, unless they meet in the same letter or in two quotes. -/
theorem patterns_concatenate (hp : Pattern.parse cs = .ok p) (hq : Pattern.parse ds = .ok q)
    (hseam : ¬ Merges cs ds) :
    ∃ r, Pattern.parse (cs ++ ds) = .ok r ∧ ∀ now, r.render now = p.render now ++ q.render now := by
  obtain ⟨more, hcut, ⟨piece, hmem, hrun⟩, hrender⟩ := exists_cut_of_parse hp
  obtain ⟨more', hcut', -, hrender'⟩ := exists_cut_of_parse hq
  obtain ⟨r, hr, hwhole⟩ := exists_parse_of_cut (cut_append hcut hcut' hseam)
    ⟨piece, List.mem_append_left more' hmem, hrun⟩
  refine ⟨r, hr, fun now => ?_⟩
  rw [hwhole, List.flatMap_append, hrender, hrender']

/-- Two patterns may well meet in the same character if it is no letter and no quote. -/
theorem patterns_concatenate_dashes :
    let year : Pattern := ⟨"yyyy-".toList, [.field (.year 4), .literal ['-']]⟩
    let month : Pattern := ⟨"-MM".toList, [.literal ['-'], .field (.month true)]⟩
    (Pattern.parse "yyyy-".toList = .ok year ∧ Pattern.parse "-MM".toList = .ok month ∧
      ¬ Merges "yyyy-".toList "-MM".toList) ∧
    ∃ r, Pattern.parse ("yyyy-".toList ++ "-MM".toList) = .ok r ∧
      ∀ now, r.render now = year.render now ++ month.render now := by
  intro year month
  have hyear : Pattern.parse "yyyy-".toList = .ok year := by cbv
  have hmonth : Pattern.parse "-MM".toList = .ok month := by cbv
  have hseam : ¬ Merges "yyyy-".toList "-MM".toList := by
    rintro ⟨c, hlast, -, hc⟩
    obtain rfl : '-' = c := Option.some.inj hlast
    exact absurd hc (by decide)
  exact ⟨⟨hyear, hmonth, hseam⟩, patterns_concatenate hyear hmonth hseam⟩

/-- Text in quotes, every quote in it doubled, can be written in front of a pattern that does not
begin with a quote.  The whole is a pattern, which is rendered as the text and then as before. -/
theorem quoting_round_trip (hne : text ≠ []) (hreserved : ∀ c ∈ text, c ∉ reserved)
    (hq : Pattern.parse cs = .ok q) (hhead : cs.head? ≠ some '\'') :
    ∃ p, Pattern.parse ('\'' :: doubled text ++ ['\''] ++ cs) = .ok p ∧
      ∀ now, p.render now = text ++ q.render now := by
  obtain ⟨more, hcut, ⟨piece, hmem, hrun⟩, hrender⟩ := exists_cut_of_parse hq
  have hquoted : Cut ((Piece.quoted text).written ++ cs) (.quoted text :: more) :=
    .cons hreserved hhead hcut
  obtain ⟨p, hp, hwhole⟩ := exists_parse_of_cut hquoted ⟨piece, List.mem_cons_of_mem _ hmem, hrun⟩
  refine ⟨p, hp, fun now => ?_⟩
  rw [hwhole, List.flatMap_cons, hrender, Piece.render, if_neg hne]

/-- Text that begins and ends with a quote, next to the quotes around it. -/
theorem quoting_round_trip_quotes :
    let hour : Pattern := ⟨"HH".toList, [.field (.hour24 true)]⟩
    ("'T'".toList ≠ [] ∧ (∀ c ∈ "'T'".toList, c ∉ reserved) ∧
      Pattern.parse "HH".toList = .ok hour ∧ "HH".toList.head? ≠ some '\'') ∧
    doubled "'T'".toList = "''T''".toList ∧
    ∃ p, Pattern.parse ('\'' :: doubled "'T'".toList ++ ['\''] ++ "HH".toList) = .ok p ∧
      ∀ now, p.render now = "'T'".toList ++ hour.render now := by
  intro hour
  have hne : "'T'".toList ≠ [] := by decide
  have hreserved : ∀ c ∈ "'T'".toList, c ∉ reserved := by simp [reserved]
  have hhour : Pattern.parse "HH".toList = .ok hour := by cbv
  have hhead : "HH".toList.head? ≠ some '\'' := by decide
  exact ⟨⟨hne, hreserved, hhour, hhead⟩, rfl, quoting_round_trip hne hreserved hhour hhead⟩

end Reading

end RecordArchive.Naming
