import Mathlib.Data.List.GetD
import RecordArchive.Proofs.Naming.Distinct
import RecordArchive.Proofs.Naming.Namer
import RecordArchive.Proofs.Naming.Pattern
import RecordArchive.Proofs.Time.Calendar

/-!
# Rendered templates

A field is rendered to letters, digits and signs, and a literal has no reserved characters, so
what stands in place of a token is some text without any.  It can neither begin nor complete a
`%{` with the text on either side.  The main statement is `rendering_final`: what a template is
rendered to is a template without a token, which is rendered to itself.
-/

namespace RecordArchive

theorem Date.monthName_mem (n : Int) : (ofDays n).monthName ∈ monthNames := by
  have hbounds := (bounds_ofDays n).1
  have hlt : (ofDays n).month - 1 < monthNames.length := by
    show (ofDays n).month - 1 < 12
    omega
  rw [monthName, List.getD_eq_getElem _ _ hlt]
  exact List.getElem_mem hlt

theorem weekdayName_mem (n : Int) : weekdayName n ∈ weekdayNames := by
  have hlt : ((n + 4) % 7).toNat < weekdayNames.length := by
    show ((n + 4) % 7).toNat < 7
    omega
  rw [weekdayName, List.getD_eq_getElem _ _ hlt]
  exact List.getElem_mem hlt

namespace Naming

/-! ## Fields and suffixes -/

/-- The characters with which fields and suffixes are written. -/
def IsSign (c : Char) : Prop := c.isAlphanum = true ∨ c = '-'

theorem IsSign.notMem_reserved {c : Char} (h : IsSign c) : c ∉ reserved := by
  have hall : reserved.all (fun r => !r.isAlphanum && r != '-') = true := rfl
  intro hmem
  have hc := List.all_eq_true.mp hall c hmem
  rcases h with halphanum | rfl
  · simp [halphanum] at hc
  · cases hc

theorem IsSign.of_isDigit {c : Char} (h : c.isDigit = true) : IsSign c :=
  Or.inl (by simp [Char.isAlphanum, h])

/-- Some text of such characters. -/
structure Signs (text : List Char) : Prop where
  nonempty : text ≠ []
  isSign : ∀ c ∈ text, IsSign c

theorem Signs.of_padded (width n : Nat) : Signs (Text.padded width n) :=
  ⟨Text.padded_ne_nil width n, fun _ hc => .of_isDigit (Text.isDigit_of_mem_padded hc)⟩

theorem Signs.of_paddedInt (width : Nat) (n : Int) : Signs (Text.paddedInt width n) :=
  ⟨Text.paddedInt_ne_nil width n, fun _ hc =>
    (Text.isDigit_or_of_mem_paddedInt hc).elim .of_isDigit Or.inr⟩

theorem names_alphanum : ∀ name ∈ Date.monthNames ++ weekdayNames,
    name.toList ≠ [] ∧ name.toList.all Char.isAlphanum = true := by
  decide

theorem Signs.of_name {name : String} (h : name ∈ Date.monthNames ++ weekdayNames) :
    Signs name.toList where
  nonempty := (names_alphanum name h).1
  isSign c hc := Or.inl (List.all_eq_true.mp (names_alphanum name h).2 c hc)

theorem Signs.of_abbreviation {name : String} (h : name ∈ Date.monthNames ++ weekdayNames) :
    Signs (abbreviation name).toList := by
  have hname := Signs.of_name h
  rw [abbreviation, String.toList_ofList]
  refine ⟨fun hnil => ?_, fun c hc => hname.isSign c (List.mem_of_mem_take hc)⟩
  exact (List.take_eq_nil_iff.mp hnil).elim (by decide) hname.nonempty

theorem Field.signs_render (f : Field) (now : Instant) : Signs (f.render now) := by
  have hmonth := List.mem_append_left weekdayNames (Date.monthName_mem now.dayNumber)
  have hweekday := List.mem_append_right Date.monthNames (weekdayName_mem now.dayNumber)
  cases f with
  | year width => exact .of_paddedInt _ _
  | monthShort => exact .of_abbreviation hmonth
  | monthLong => exact .of_name hmonth
  | weekdayShort => exact .of_abbreviation hweekday
  | weekdayLong => exact .of_name hweekday
  | halfDay =>
    rw [Field.render]
    split
    · exact ⟨List.cons_ne_nil _ _, by simp [IsSign, Char.isAlphanum]⟩
    · exact ⟨List.cons_ne_nil _ _, by simp [IsSign, Char.isAlphanum]⟩
  | _ => exact .of_padded _ _

theorem isSign_hexDigit {d : Nat} (h : d < 16) : IsSign (Text.hexDigit d) := by
  have hall : ∀ d : Fin 16, (Text.hexDigit d).isAlphanum = true := by decide
  exact Or.inl (hall ⟨d, h⟩)

theorem Uuid.isSign_of_mem_hexDigits {n low count : Nat} :
    ∀ c ∈ hexDigits n low count, IsSign c := by
  induction count with
  | zero => exact List.forall_mem_nil _
  | succ count ih =>
    rw [hexDigits, List.forall_mem_cons]
    exact ⟨isSign_hexDigit (Nat.mod_lt _ (by decide)), ih⟩

theorem Uuid.isSign_of_mem_text (id : Uuid) : ∀ c ∈ id.text, IsSign c := by
  have htop := top_lt id.bits
  have hsign : IsSign '-' := Or.inr rfl
  simp only [text, List.forall_mem_append, List.forall_mem_cons]
  exact ⟨⟨⟨⟨isSign_of_mem_hexDigits, hsign, isSign_of_mem_hexDigits⟩, hsign, Or.inl rfl,
    isSign_of_mem_hexDigits⟩, hsign, isSign_hexDigit (by omega), isSign_of_mem_hexDigits⟩, hsign,
    isSign_of_mem_hexDigits⟩

theorem KeyNamer.isSign_of_mem_suffix (now : Instant) (id : Uuid) :
    ∀ c ∈ suffix now id, IsSign c := by
  have hsign : IsSign '-' := Or.inr rfl
  simp only [suffix, List.forall_mem_append, List.forall_mem_cons]
  exact ⟨⟨hsign, (Signs.of_paddedInt _ _).isSign⟩, hsign, id.isSign_of_mem_text⟩

/-! ## Tokens -/

section Tokens

variable {body cs : List Char} {pattern : Pattern} {piece : Piece} {more : List Piece} {c : Char}

theorem sound_of_mem_cut (h : Cut cs more) (hmem : piece ∈ more) : piece.Sound := by
  induction h with
  | nil => cases hmem
  | cons hsound _ _ ih =>
    rcases List.mem_cons.mp hmem with rfl | hmem
    · exact hsound
    · exact ih hmem

theorem Piece.render_ne_nil (piece : Piece) (now : Instant) : piece.render now ≠ [] := by
  cases piece with
  | run letter count field => exact (field.signs_render now).nonempty
  | quoted text =>
    rw [Piece.render]
    split
    · exact List.cons_ne_nil _ _
    · assumption
  | plain c => exact List.cons_ne_nil _ _

theorem Piece.notMem_reserved_of_mem (h : piece.Sound) {now : Instant}
    (hc : c ∈ piece.render now) : c ∉ reserved := by
  cases piece with
  | run letter count field => exact ((field.signs_render now).isSign c hc).notMem_reserved
  | quoted text =>
    rw [Piece.render] at hc
    split at hc
    · rw [List.mem_singleton.mp hc]
      simp [reserved]
    · exact h c hc
  | plain d =>
    rw [List.mem_singleton.mp hc]
    exact h.2.2.2.2

theorem Pattern.render_ne_nil (h : Pattern.parse body = .ok pattern) (now : Instant) :
    pattern.render now ≠ [] := by
  obtain ⟨more, -, ⟨piece, hmem, -⟩, hrender⟩ := exists_cut_of_parse h
  obtain ⟨c, hc⟩ := List.exists_mem_of_ne_nil _ (piece.render_ne_nil now)
  have hwhole : c ∈ more.flatMap (Piece.render now) := List.mem_flatMap.mpr ⟨piece, hmem, hc⟩
  rw [hrender]
  exact List.ne_nil_of_mem hwhole

theorem Pattern.notMem_reserved_of_mem (h : Pattern.parse body = .ok pattern) {now : Instant}
    (hc : c ∈ pattern.render now) : c ∉ reserved := by
  obtain ⟨more, hcut, -, hrender⟩ := exists_cut_of_parse h
  rw [hrender] at hc
  obtain ⟨piece, hmem, hc⟩ := List.mem_flatMap.mp hc
  exact Piece.notMem_reserved_of_mem (sound_of_mem_cut hcut hmem) hc

end Tokens

/-! ## Seams -/

section Seams

variable {before middle after cs : List Char} {t : Template}

/-- A `%{` in a text stands on one side of any place of it, or around it. -/
theorem opens_append : Opens (before ++ after) ↔
    Opens before ∨ Opens after ∨ before.getLast? = some '%' ∧ after.head? = some '{' := by
  induction before with
  | nil => simp [not_opens_nil]
  | cons c before ih =>
    rw [List.cons_append, opens_cons, ih, opens_cons]
    cases before with
    | nil => simp [not_opens_nil, or_comm]
    | cons d before =>
      rw [List.getLast?_cons_cons]
      simp [or_assoc]

/-- Text that is put in place of a token makes no `%{`, if there is any such text. -/
theorem not_opens_seams (hbefore : ¬ Opens before) (hafter : ¬ Opens after) (hne : middle ≠ [])
    (hreserved : ∀ c ∈ middle, c ∉ reserved) : ¬ Opens (before ++ middle ++ after) := by
  have hmiddle : ¬ Opens middle := fun hopens =>
    hreserved '{' (mem_of_opens hopens) (by simp [reserved])
  rw [List.append_assoc, opens_append, opens_append]
  rintro (hopens | (hopens | hopens | ⟨hlast, -⟩) | ⟨-, hhead⟩)
  · exact hbefore hopens
  · exact hmiddle hopens
  · exact hafter hopens
  · exact hreserved '%' (List.mem_of_getLast? hlast) (by simp [reserved])
  · rw [List.head?_append_of_ne_nil _ hne] at hhead
    exact hreserved '{' (List.mem_of_head? hhead) (by simp [reserved])

theorem not_opens_render (h : readTemplate cs = .ok t) (now : Instant) :
    ¬ Opens (t.render now) := by
  rcases parse_cases (readTemplate_eq_ok_iff.mp h) with ⟨hnone, rfl⟩ |
    ⟨before, body, after, pattern, hone, hpattern, rfl⟩
  · exact hnone
  · exact not_opens_seams hone.before hone.after (Pattern.render_ne_nil hpattern now)
      fun c hc => Pattern.notMem_reserved_of_mem hpattern hc

end Seams

/-! ## Keys -/

namespace KeyNamer

variable {pathPrefix codec : Option String} {namePattern : String} {unique : Bool}
  {namer : KeyNamer}

theorem opens_directories {texts : List (List Char)} {directories : List Template}
    (h : List.Forall₂ (fun text directory => readTemplate text = .ok directory) texts directories)
    (now : Instant) (rest : List Char) :
    Opens (directories.flatMap (fun directory => directory.render now ++ ['/']) ++ rest) ↔
      Opens rest := by
  induction h with
  | nil => rfl
  | cons hread _ ih =>
    have hrender := not_opens_render hread now
    rw [List.flatMap_cons, List.append_assoc, List.append_assoc, opens_append,
      List.singleton_append, opens_cons, ih]
    simp [hrender]

theorem opens_ending {name : List Char} (hname : ¬ Opens name) (now : Instant) (id : Uuid)
    (extension : List Char) :
    Opens (name ++ (if unique then suffix now id else []) ++ '.' :: extension) ↔
      Opens extension := by
  have hsuffix : ¬ Opens (suffix now id) := fun hopens =>
    (isSign_of_mem_suffix now id '{' (mem_of_opens hopens)).notMem_reserved (by simp [reserved])
  have hsuffixed : ¬ Opens (name ++ if unique then suffix now id else []) := by
    cases unique with
    | false => simpa using hname
    | true =>
      rw [if_pos rfl, opens_append]
      rintro (hopens | hopens | ⟨-, hhead⟩)
      · exact hname hopens
      · exact hsuffix hopens
      · cases hhead
  rw [opens_append, opens_cons]
  simp [hsuffixed]

/-- A key has a `%{` only within its extension. -/
theorem opens_key_iff (h : make pathPrefix namePattern codec unique = .ok namer) (now : Instant)
    (id : Uuid) : Opens (namer.key now id).toList ↔ Opens (extensionFor codec).toList := by
  obtain ⟨directories, name, hdirectories, -, -, hname, rfl⟩ := make_eq_ok_iff.mp h
  rw [key, String.toList_ofList, directoryPart, opens_directories hdirectories, fileName,
    opens_ending (not_opens_render hname now)]

end KeyNamer

/-- What a template is rendered to is read as a template without a token, which is rendered to
itself at any time.  A key therefore has a `%{` only if its extension has one, whatever stands
around the tokens it was rendered from. -/
theorem rendering_final (i : Instant) :
    (∀ cs t, readTemplate cs = .ok t →
      ¬ Opens (t.render i) ∧
      ∃ final, readTemplate (t.render i) = .ok final ∧ final.hasToken = false ∧
        ∀ j, final.render j = t.render i) ∧
    (∀ pathPrefix namePattern codec unique namer,
      KeyNamer.make pathPrefix namePattern codec unique = .ok namer →
      ∀ id, Opens (namer.key i id).toList ↔ Opens (extensionFor codec).toList) := by
  refine ⟨fun cs t h => ?_, fun _ _ _ _ _ h id => KeyNamer.opens_key_iff h i id⟩
  have hnone := not_opens_render h i
  exact ⟨hnone, ⟨t.render i, none⟩, readTemplate_eq_ok_iff.mpr (parse_of_not_opens hnone), rfl,
    fun _ => rfl⟩

end Naming

end RecordArchive
