import Mathlib
import RecordArchive.Proofs.Naming.Namer
import RecordArchive.Proofs.Text.Order
import RecordArchive.Proofs.Time.Calendar

/-!
# Keys in the order of time

The name that keys have unless another is set shows the date and the time of day in numerals of
one width each, the greatest unit first.  Keys therefore sort as their seconds do, and with a
suffix those of one second sort as their milliseconds do: `default_keys_in_order`.
-/

namespace RecordArchive.Naming

/-! ## The stamp -/

/-- The items of the pattern in the name that keys have unless another is set. -/
def stampItems : List Item :=
  [.field (.year 4), .literal ['-'], .field (.month true), .literal ['-'], .field (.day true),
    .literal ['T'], .field (.hour24 true), .literal ['-'], .field (.minute true), .literal ['-'],
    .field (.second true)]

def stampTemplate : Template where
  source := "events-%\x7byyyy-MM-dd'T'HH-mm-ss\x7d".toList
  token := some ⟨"events-".toList, ⟨"yyyy-MM-dd'T'HH-mm-ss".toList, stampItems⟩, []⟩

theorem parse_stampTemplate : Template.parse stampTemplate.source = .ok stampTemplate := by
  cbv

/-- The second of an instant, with four digits for the year. -/
def stamp (t : Instant) : List Char :=
  Text.padded 4 t.date.year.natAbs ++ '-' :: (Text.padded 2 t.date.month ++
    '-' :: (Text.padded 2 t.date.day ++ 'T' :: (Text.padded 2 t.hour ++
      '-' :: (Text.padded 2 t.minute ++ '-' :: Text.padded 2 t.second))))

theorem render_stampItems {t : Instant} (h : 0 ≤ t.date.year) :
    stampItems.flatMap (Item.render t) = stamp t := by
  have hyear : Text.paddedInt 4 t.date.year = Text.padded 4 t.date.year.natAbs := by
    rw [Text.paddedInt, if_neg (Int.not_lt.mpr h)]
  simp only [stampItems, List.flatMap_cons, List.flatMap_nil, Item.render, Field.render,
    Field.numeral, if_true, hyear, List.append_nil, List.singleton_append, stamp]

theorem render_stampTemplate {t : Instant} (h : 0 ≤ t.date.year) :
    stampTemplate.render t = "events-".toList ++ stamp t := by
  have hrender : stampTemplate.render t =
    "events-".toList ++ stampItems.flatMap (Item.render t) ++ [] := rfl
  rw [hrender, render_stampItems h, List.append_nil]

namespace KeyNamer

/-- A namer with the settings that there are unless others are made. -/
def usual (codec : Option String) (unique : Bool) : KeyNamer :=
  ⟨[], stampTemplate, extensionFor codec, unique⟩

theorem ofSettings_usual (codec : Option String) (unique : Bool) :
    ofSettings { uniqueSuffix := unique } codec = .ok (usual codec unique) := by
  have hslash : '/' ∉ stampTemplate.source := by decide
  have hblank : Text.isBlank (String.ofList stampTemplate.source) = false := by decide
  exact make_eq_ok_iff.mpr ⟨[], stampTemplate, .nil, hslash, hblank,
    readTemplate_eq_ok_iff.mpr parse_stampTemplate, rfl⟩

end KeyNamer

/-! ## Stamps in order -/

/-- A number of one width, and what follows it. -/
theorem before_number {width m n : Nat} {xs ys : List Char} (h : 0 < width)
    (hm : m < Nat.pow 10 width) (hn : n < Nat.pow 10 width)
    (horder : m < n ∨ m = n ∧ Text.Before xs ys) :
    Text.Before (Text.padded width m ++ xs) (Text.padded width n ++ ys) := by
  rcases horder with hlt | ⟨rfl, hrest⟩
  · have hlength : (Text.padded width m).length = (Text.padded width n).length := by
      rw [Text.length_padded h hm, Text.length_padded h hn]
    exact lex_append (Text.before_padded h hlt hn) hlength xs ys
  · exact List.Lex.append_left _ hrest _

/-- The year can be written with four digits. -/
def HasShortYear (t : Instant) : Prop := 0 ≤ t.date.year ∧ t.date.year ≤ 9999

section Stamps

variable {a b : Instant} {xs ys : List Char}

theorem stamp_eq (h : a.seconds = b.seconds) : stamp a = stamp b := by
  simp only [stamp, Instant.date, Instant.dayNumber, Instant.hour, Instant.minute, Instant.second,
    Instant.secondOfDay, h]

/-- An earlier second has an earlier date, or the same date and an earlier time of day. -/
theorem clock_order (h : a.seconds < b.seconds) : a.date.Before b.date ∨ a.date = b.date ∧
    (a.hour < b.hour ∨ a.hour = b.hour ∧
      (a.minute < b.minute ∨ a.minute = b.minute ∧ a.second < b.second)) := by
  rcases Int.lt_or_eq_of_le (show a.dayNumber ≤ b.dayNumber by
    simp only [Instant.dayNumber]; omega) with hday | hday
  · exact Or.inl (Date.before_ofDays hday)
  · refine Or.inr ⟨congrArg Date.ofDays hday, ?_⟩
    simp only [Instant.dayNumber] at hday
    simp only [Instant.hour, Instant.minute, Instant.second, Instant.secondOfDay]
    omega

theorem bounds_clock (t : Instant) : t.date.month < 100 ∧ t.date.day < 100 ∧ t.hour < 100 ∧
    t.minute < 100 ∧ t.second < 100 := by
  obtain ⟨⟨-, hmonth⟩, -, hday⟩ := Date.bounds_ofDays t.dayNumber
  have hlength := (Date.daysInMonth_bounds t.date.year t.date.month).2
  simp only [Instant.hour, Instant.minute, Instant.second, Instant.secondOfDay]
  refine ⟨?_, ?_, ?_, ?_, ?_⟩
  · exact Nat.lt_of_le_of_lt hmonth (by decide)
  · exact Nat.lt_of_le_of_lt (Nat.le_trans hday hlength) (by decide)
  all_goals omega

/-- Stamps differ first in the greatest unit in which their times do. -/
theorem before_stamp (ha : HasShortYear a) (hb : HasShortYear b) (h : a.seconds < b.seconds)
    (xs ys : List Char) : Text.Before (stamp a ++ xs) (stamp b ++ ys) := by
  obtain ⟨hmonth, hday, hhour, hminute, hsecond⟩ := bounds_clock a
  obtain ⟨hmonth', hday', hhour', hminute', hsecond'⟩ := bounds_clock b
  obtain ⟨hfirst, hlast⟩ := ha
  obtain ⟨hfirst', hlast'⟩ := hb
  have hyear : a.date.year.natAbs < 10000 := by omega
  have hyear' : b.date.year.natAbs < 10000 := by omega
  have horder : a.date.year.natAbs < b.date.year.natAbs ∨
      a.date.year.natAbs = b.date.year.natAbs ∧ (a.date.month < b.date.month ∨
      a.date.month = b.date.month ∧ (a.date.day < b.date.day ∨
      a.date.day = b.date.day ∧ (a.hour < b.hour ∨
      a.hour = b.hour ∧ (a.minute < b.minute ∨
      a.minute = b.minute ∧ a.second < b.second)))) := by
    rcases clock_order h with hdate | ⟨hdate, htime⟩
    · simp only [Date.Before] at hdate
      omega
    · rw [hdate]
      exact Or.inr ⟨rfl, Or.inr ⟨rfl, Or.inr ⟨rfl, htime⟩⟩⟩
  simp only [stamp, List.append_assoc, List.cons_append]
  refine before_number (by decide) hyear hyear' (horder.imp_right (And.imp_right fun horder => ?_))
  refine .cons (before_number (by decide) hmonth hmonth'
    (horder.imp_right (And.imp_right fun horder => ?_)))
  refine .cons (before_number (by decide) hday hday'
    (horder.imp_right (And.imp_right fun horder => ?_)))
  refine .cons (before_number (by decide) hhour hhour'
    (horder.imp_right (And.imp_right fun horder => ?_)))
  refine .cons (before_number (by decide) hminute hminute'
    (horder.imp_right (And.imp_right fun horder => ?_)))
  exact .cons (before_number (by decide) hsecond hsecond' (Or.inl horder))

end Stamps

/-! ## Keys in order -/

/-- Milliseconds that are written with thirteen digits, as they are from 2001 to 2286. -/
def HasLongCount (t : Instant) : Prop :=
  1000000000000 ≤ t.milliseconds ∧ t.milliseconds < 10000000000000

section Milliseconds

variable {t a b : Instant} {id id' : Uuid} {xs ys : List Char}

theorem year_le {m n : Int} (h : m ≤ n) : (Date.ofDays m).year ≤ (Date.ofDays n).year := by
  rcases Int.lt_or_eq_of_le h with hlt | rfl
  · rcases Date.before_ofDays hlt with hyear | ⟨hyear, -⟩
    · exact Int.le_of_lt hyear
    · exact Int.le_of_eq hyear
  · exact Int.le_refl _

theorem HasLongCount.hasShortYear (h : HasLongCount t) (hleap : t.nanoseconds < 2000000000) :
    HasShortYear t := by
  have hday : 0 ≤ t.dayNumber ∧ t.dayNumber ≤ 2932896 := by
    obtain ⟨hlow, hhigh⟩ := h
    simp only [Instant.milliseconds, Instant.dayNumber] at hlow hhigh ⊢
    omega
  have hfirst : (Date.ofDays 0).year = 1970 := rfl
  have hlast : (Date.ofDays 2932896).year = 9999 := rfl
  have hlow := year_le hday.1
  have hhigh := year_le hday.2
  rw [hfirst] at hlow
  rw [hlast] at hhigh
  exact ⟨Int.le_trans (by decide) hlow, hhigh⟩

theorem HasLongCount.paddedInt_eq (h : HasLongCount t) :
    Text.paddedInt 1 t.milliseconds = Text.padded 13 t.milliseconds.natAbs := by
  obtain ⟨hlow, -⟩ := h
  have hlong : Nat.pow 10 12 ≤ t.milliseconds.natAbs := by
    show 1000000000000 ≤ t.milliseconds.natAbs
    omega
  rw [Text.paddedInt, if_neg (by omega), Text.padded_of_le (Nat.le_refl 1),
    Text.padded_of_pow_le hlong]

/-- Later milliseconds are the greater number. -/
theorem before_suffix (ha : HasLongCount a) (hb : HasLongCount b)
    (h : a.milliseconds < b.milliseconds) (id id' : Uuid) (xs ys : List Char) :
    Text.Before (KeyNamer.suffix a id ++ xs) (KeyNamer.suffix b id' ++ ys) := by
  have hcount {t : Instant} (ht : HasLongCount t) :
      t.milliseconds.natAbs < Nat.pow 10 13 := by
    obtain ⟨hlow, hhigh⟩ := ht
    show t.milliseconds.natAbs < 10000000000000
    omega
  have horder : a.milliseconds.natAbs < b.milliseconds.natAbs := by
    obtain ⟨hlow, -⟩ := ha
    omega
  rw [KeyNamer.suffix, KeyNamer.suffix, ha.paddedInt_eq, hb.paddedInt_eq]
  simp only [List.append_assoc, List.cons_append]
  exact .cons (before_number (by decide) (hcount ha) (hcount hb) (Or.inl horder))

end Milliseconds

namespace KeyNamer

variable {a b : Instant} {codec : Option String} {unique : Bool}

theorem toList_key_usual (codec : Option String) (unique : Bool) {t : Instant}
    (h : HasShortYear t) (id : Uuid) :
    ((usual codec unique).key t id).toList = "events-".toList ++ (stamp t ++
      ((if unique then suffix t id else []) ++ '.' :: (extensionFor codec).toList)) := by
  rw [key, String.toList_ofList, directoryPart, fileName, usual, render_stampTemplate h.1]
  simp only [List.flatMap_nil, List.nil_append, List.append_assoc]

theorem before_of_toList {x y : String} (h : Text.Before x.toList y.toList) :
    Bytes.Before (Utf8.encode x) (Utf8.encode y) := Utf8.before_encodeChars h

theorem before_of_seconds (ha : HasShortYear a) (hb : HasShortYear b) (h : a.seconds < b.seconds)
    (codec : Option String) (unique : Bool) (id id' : Uuid) :
    Bytes.Before (Utf8.encode ((usual codec unique).key a id))
      (Utf8.encode ((usual codec unique).key b id')) := by
  refine before_of_toList ?_
  rw [toList_key_usual codec unique ha, toList_key_usual codec unique hb]
  exact List.Lex.append_left _ (before_stamp ha hb h _ _) _

theorem key_eq_of_seconds (ha : HasShortYear a) (hb : HasShortYear b) (h : a.seconds = b.seconds)
    (codec : Option String) (id id' : Uuid) :
    (usual codec false).key a id = (usual codec false).key b id' := by
  rw [← String.toList_inj, toList_key_usual codec false ha, toList_key_usual codec false hb,
    stamp_eq h, if_neg Bool.false_ne_true, if_neg Bool.false_ne_true]

theorem before_of_milliseconds (ha : HasLongCount a) (hb : HasLongCount b)
    (hleap : a.nanoseconds < 2000000000) (hleap' : b.nanoseconds < 2000000000)
    (hsame : a.seconds = b.seconds) (h : a.milliseconds < b.milliseconds)
    (codec : Option String) (id id' : Uuid) :
    Bytes.Before (Utf8.encode ((usual codec true).key a id))
      (Utf8.encode ((usual codec true).key b id')) := by
  refine before_of_toList ?_
  rw [toList_key_usual codec true (ha.hasShortYear hleap),
    toList_key_usual codec true (hb.hasShortYear hleap'), stamp_eq hsame]
  exact List.Lex.append_left _ (List.Lex.append_left _ (before_suffix ha hb h id id' _ _) _) _

/-- What comes out in the order of its times is in no other order. -/
theorem order_iff {x y : String} {m n : Int}
    (hbefore : m < n → Bytes.Before (Utf8.encode x) (Utf8.encode y)) (hequal : m = n → x = y)
    (hafter : n < m → Bytes.Before (Utf8.encode y) (Utf8.encode x)) :
    (Bytes.Before (Utf8.encode x) (Utf8.encode y) ↔ m < n) ∧ (x = y ↔ m = n) ∧
      (Bytes.Before (Utf8.encode y) (Utf8.encode x) ↔ n < m) := by
  rcases Int.lt_trichotomy m n with hlt | heq | hgt
  · have hkeys := hbefore hlt
    have hne : x ≠ y := fun hsame => hkeys.ne (congrArg Utf8.encode hsame)
    exact ⟨iff_of_true hkeys hlt, iff_of_false hne (Int.ne_of_lt hlt),
      iff_of_false hkeys.asymm (Int.lt_asymm hlt)⟩
  · have hkeys := hequal heq
    have hsame := congrArg Utf8.encode hkeys
    exact ⟨iff_of_false (fun h => h.ne hsame) (by omega), iff_of_true hkeys heq,
      iff_of_false (fun h => h.ne hsame.symm) (by omega)⟩
  · have hkeys := hafter hgt
    have hne : x ≠ y := fun hsame => hkeys.ne (congrArg Utf8.encode hsame.symm)
    exact ⟨iff_of_false hkeys.asymm (Int.lt_asymm hgt), iff_of_false hne (Int.ne_of_gt hgt),
      iff_of_true hkeys hgt⟩

/-- With fewer milliseconds a key comes first just if its second is no later. -/
theorem suffixed_order_iff (ha : HasLongCount a) (hb : HasLongCount b)
    (hleap : a.nanoseconds < 2000000000) (hleap' : b.nanoseconds < 2000000000)
    (h : a.milliseconds < b.milliseconds) (codec : Option String) (id id' : Uuid) :
    Bytes.Before (Utf8.encode ((usual codec true).key a id))
      (Utf8.encode ((usual codec true).key b id')) ↔ a.seconds ≤ b.seconds := by
  have hyear := ha.hasShortYear hleap
  have hyear' := hb.hasShortYear hleap'
  constructor
  · intro hkeys
    by_contra hnot
    exact hkeys.asymm (before_of_seconds hyear' hyear (Int.not_le.mp hnot) codec true id' id)
  · intro hle
    rcases Int.lt_or_eq_of_le hle with hlt | heq
    · exact before_of_seconds hyear hyear' hlt codec true id id'
    · exact before_of_milliseconds ha hb hleap hleap' heq h codec id id'

/-- A namer is made with the settings that there are unless others are made.  Without a suffix
its keys sort, as bytes, as their seconds do, and are the same for one second.  With a suffix a
key with fewer milliseconds comes first, unless its second is the one after the leap second of the
other: the milliseconds of a leap second are counted on into the next second.  The dates in the
keys are those of the Gregorian calendar, day after day. -/
theorem default_keys_in_order (codec : Option String) :
    (∃ namer, ofSettings { uniqueSuffix := false } codec = .ok namer ∧
      ∀ a b id id', HasShortYear a → HasShortYear b →
        (Bytes.Before (Utf8.encode (namer.key a id)) (Utf8.encode (namer.key b id')) ↔
          a.seconds < b.seconds) ∧
        (namer.key a id = namer.key b id' ↔ a.seconds = b.seconds) ∧
        (Bytes.Before (Utf8.encode (namer.key b id')) (Utf8.encode (namer.key a id)) ↔
          b.seconds < a.seconds)) ∧
    (∃ namer, ofSettings {} codec = .ok namer ∧
      ∀ a b id id', a.nanoseconds < 2000000000 → b.nanoseconds < 2000000000 →
        HasLongCount a → HasLongCount b → a.milliseconds < b.milliseconds →
        (b.nanoseconds < 1000000000 →
          Bytes.Before (Utf8.encode (namer.key a id)) (Utf8.encode (namer.key b id'))) ∧
        (Bytes.Before (Utf8.encode (namer.key a id)) (Utf8.encode (namer.key b id')) ↔
          a.seconds ≤ b.seconds)) ∧
    Date.ofDays 0 = ⟨1970, 1, 1⟩ ∧ ∀ n, Date.ofDays (n + 1) = (Date.ofDays n).next := by
  refine ⟨⟨usual codec false, ofSettings_usual codec false, fun a b id id' ha hb => ?_⟩,
    ⟨usual codec true, ofSettings_usual codec true, fun a b id id' hleap hleap' ha hb h => ?_⟩,
    rfl, Date.ofDays_succ⟩
  · exact order_iff (fun hlt => before_of_seconds ha hb hlt codec false id id')
      (fun heq => key_eq_of_seconds ha hb heq codec id id')
      (fun hgt => before_of_seconds hb ha hgt codec false id' id)
  · have hkeys := suffixed_order_iff ha hb hleap hleap' h codec id id'
    refine ⟨fun hregular => hkeys.mpr ?_, hkeys⟩
    simp only [Instant.milliseconds] at h
    omega

end KeyNamer

end RecordArchive.Naming
