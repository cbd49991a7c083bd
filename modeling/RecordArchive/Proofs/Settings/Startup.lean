import RecordArchive.Proofs.Retrier.Pauses
import RecordArchive.Settings.Archive

/-!
# Settings that are checked twice

Settings are checked before a run begins, and their sink is checked again when it is set
up.  Both make the same checks in the same order: `validate_of_refused` says that what
keeps a sink from being set up is found beforehand, and `validate_eq_ok_iff` that settings
pass exactly if their sink can be set up, the jitter of its uploads is a part of the delay,
and the queue has room.  `validate_agrees` puts the two together.

A retrier takes a jitter that is not a positive number for none.  Of the jitters that
pass only a zero is such a number, so the retrier of a sink that was checked has the
jitter that was set.  None of its pauses is too long, as `run?_of_validate` says, so
that its uploads never break down.
-/

namespace RecordArchive

namespace Binary64

/-- Whether a number is zero, with either sign. -/
def isZero : Binary64 → Bool
  | finite _ mantissa _ => mantissa == 0
  | infinite _ | nan => false

/-- Two numbers that are the same but for the sign of zero. -/
def Alike (x y : Binary64) : Prop := x = y ∨ (x.isZero = true ∧ y.isZero = true)

theorem isPositiveFinite_or_isZero {x : Binary64} (h : x.inUnitInterval = true) :
    x.isPositiveFinite = true ∨ x.isZero = true := by
  cases x with
  | infinite | nan => cases h
  | finite negative mantissa exponent =>
    cases negative with
    | true => exact Or.inr h
    | false =>
      by_cases hzero : mantissa = 0
      · exact Or.inr (beq_iff_eq.mpr hzero)
      · exact Or.inl (bne_iff_ne.mpr hzero)

end Binary64

theorem Retrier.jitter_make {jitter : Binary64} (h : jitter.inUnitInterval = true) (attempts : Nat)
    (delay : Duration) : (Retrier.make attempts delay jitter).jitter.Alike jitter := by
  show (if jitter.isPositiveFinite then jitter else .zero false).Alike jitter
  by_cases hpositive : jitter.isPositiveFinite = true
  · rw [if_pos hpositive]
    exact Or.inl rfl
  · rw [if_neg hpositive]
    exact Or.inr ⟨rfl, (Binary64.isPositiveFinite_or_isZero h).resolve_left hpositive⟩

theorem Sink.retrier_of_ofSettings {settings : SinkSettings} {sink : Sink}
    (h : Sink.ofSettings settings = .ok sink) :
    sink.retrier = .make settings.uploadAttempts (.ofMilliseconds settings.delayMilliseconds)
      settings.jitter := by
  unfold Sink.ofSettings at h
  simp only [bind, Except.bind, pure, Except.pure] at h
  split at h
  · cases h
  · split at h
    · cases h
    · split at h
      · cases h
      · rw [← Except.ok.inj h]

namespace Settings

theorem lt_of_word64? {v : Json} {n : Nat} (h : word64? v = some n) : n < 2 ^ 64 := by
  unfold word64? natural? at h
  cases v with
  | integer i =>
    by_cases hrange : 0 ≤ i ∧ i ≤ ((1 <<< 64) - 1 : Nat)
    · simp only [if_pos hrange, Option.some.injEq] at h
      have hbits : ((1 <<< 64) - 1 : Nat) < 2 ^ 64 := by decide
      omega
    · simp only [if_neg hrange] at h
      cases h
  | _ => cases h

theorem lt_of_withDefault {default n : Nat} {v : Option Json} (hdefault : default < 2 ^ 64)
    (h : withDefault default word64? v = some n) : n < 2 ^ 64 := by
  cases v with
  | none => exact Option.some.inj h ▸ hdefault
  | some v => exact lt_of_word64? h

theorem exists_of_required {α : Type} {read : Json → Option α} {v : Option Json} {a : α}
    (h : required read v = some a) : ∃ table, read table = some a := by
  cases v with
  | none => cases h
  | some table => exact ⟨table, h⟩

theorem delay_lt_of_sink? {dialect : Dialect} {v : Json} {settings : SinkSettings}
    (h : sink? dialect v = some settings) : settings.delayMilliseconds < 2 ^ 64 := by
  obtain ⟨values, -, h⟩ := Option.bind_eq_some_iff.mp h
  split at h
  · iterate 7 obtain ⟨_, -, h⟩ := Option.bind_eq_some_iff.mp h
    obtain ⟨delay, hdelay, h⟩ := Option.bind_eq_some_iff.mp h
    iterate 3 obtain ⟨_, -, h⟩ := Option.bind_eq_some_iff.mp h
    obtain rfl := Option.some.inj h
    have hdefault : 5000 < 2 ^ 64 := by decide
    exact lt_of_withDefault hdefault hdelay
  · cases h

theorem delay_lt_of_archive? {dialect : Dialect} {v : Json} {settings : ArchiveSettings}
    (h : archive? dialect v = some settings) : settings.sink.delayMilliseconds < 2 ^ 64 := by
  obtain ⟨values, -, h⟩ := Option.bind_eq_some_iff.mp h
  split at h
  · obtain ⟨_, -, h⟩ := Option.bind_eq_some_iff.mp h
    obtain ⟨sink, hsink, h⟩ := Option.bind_eq_some_iff.mp h
    iterate 2 obtain ⟨_, -, h⟩ := Option.bind_eq_some_iff.mp h
    obtain rfl := Option.some.inj h
    obtain ⟨table, htable⟩ := exists_of_required hsink
    exact delay_lt_of_sink? htable
  · cases h

end Settings

namespace ArchiveSettings

/-- What is checked after all that a sink needs. -/
def checkRun (settings : ArchiveSettings) : Except ArchiveError Unit :=
  if !settings.sink.jitter.inUnitInterval then
    .error (.configuration ("upload_retry_jitter must be between 0.0 and 1.0, got " ++
      String.ofList (settings.sink.jitter.render Layout.message)))
  else if settings.runtime.queueCapacity = 0 then
    .error (.configuration "runtime queue_capacity must be greater than zero")
  else .ok ()

theorem checkRun_eq_ok_iff (settings : ArchiveSettings) :
    settings.checkRun = .ok () ↔
      settings.sink.jitter.inUnitInterval = true ∧ settings.runtime.queueCapacity ≠ 0 := by
  unfold checkRun
  cases settings.sink.jitter.inUnitInterval with
  | false => simp
  | true =>
    by_cases hcapacity : settings.runtime.queueCapacity = 0
    · simp [hcapacity]
    · simp [hcapacity]

/-- The checks of a sink come first, in the order in which they are made when it is set
up. -/
theorem validate_eq (settings : ArchiveSettings) :
    settings.validate = Sink.ofSettings settings.sink >>= fun _ => settings.checkRun := by
  simp only [validate, Sink.ofSettings]
  cases settings.sink.checkBucket with
  | error e => rfl
  | ok u =>
    cases Naming.KeyNamer.ofSettings settings.sink.keys (some settings.sink.codec.name) with
    | error e => rfl
    | ok namer =>
      cases Limits.ofSettings settings.sink.limits with
      | error e => rfl
      | ok limits => rfl

variable {settings : ArchiveSettings}

theorem validate_of_refused {e : ArchiveError} (h : Sink.ofSettings settings.sink = .error e) :
    settings.validate = .error e := by
  rw [validate_eq, h]
  rfl

theorem validate_eq_ok_iff :
    settings.validate = .ok () ↔
      (∃ sink, Sink.ofSettings settings.sink = .ok sink) ∧
        settings.sink.jitter.inUnitInterval = true ∧ settings.runtime.queueCapacity ≠ 0 := by
  rw [validate_eq, ← checkRun_eq_ok_iff]
  cases hsink : Sink.ofSettings settings.sink with
  | error e =>
    constructor
    · intro h
      cases h
    · rintro ⟨⟨sink, h⟩, -⟩
      cases h
  | ok sink =>
    constructor
    · intro h
      exact ⟨⟨sink, rfl⟩, h⟩
    · intro h
      exact h.2

theorem validate_of_isOk (h : settings.validate.isOk = true) : settings.validate = .ok () := by
  cases hvalid : settings.validate with
  | ok u => rfl
  | error e =>
    rw [hvalid] at h
    cases h

/-- Settings that pass are those of a sink that can be set up, with the jitter that was
set, and a mistake that keeps a sink from being set up is the one that is reported. -/
theorem validate_agrees (settings : ArchiveSettings) :
    (settings.validate = .ok () →
      ∃ sink, Sink.ofSettings settings.sink = .ok sink ∧
        sink.retrier.jitter.Alike settings.sink.jitter) ∧
      ∀ e, Sink.ofSettings settings.sink = .error e → settings.validate = .error e := by
  constructor
  · intro hvalid
    obtain ⟨⟨sink, hsink⟩, hjitter, -⟩ := validate_eq_ok_iff.mp hvalid
    refine ⟨sink, hsink, ?_⟩
    rw [Sink.retrier_of_ofSettings hsink]
    exact Retrier.jitter_make hjitter _ _
  · intro e hsink
    exact validate_of_refused hsink

/-- Where settings were read and pass, the uploads of their sink never break down over a pause
that is too long. -/
theorem run?_of_validate {dialect : Dialect} {v : Json} {sink : Sink}
    (hread : Settings.archive? dialect v = some settings) (hvalid : settings.validate = .ok ())
    (hsink : Sink.ofSettings settings.sink = .ok sink) {σ : Type} (fractions : Fractions)
    (operation : σ → Retrier.Attempt σ) (clock : Clock) (drawn : Nat) (state : σ) :
    sink.retrier.run? fractions operation clock drawn state =
      some (sink.retrier.run fractions operation clock drawn state) := by
  have hjitter := (validate_eq_ok_iff.mp hvalid).2.1
  apply (Retrier.checked_loop sink.retrier.attempts ⟨clock, drawn, 0, state⟩).whole
  intro i _ _
  rw [Sink.retrier_of_ofSettings hsink]
  exact Retrier.pauseFor?_ne_none_of_inUnitInterval hjitter (Settings.delay_lt_of_archive? hread) _
    (fractions.parts_le i)

/-- Half the delay is kept as it was set.  Without a bucket's name and with a negative
jitter it is the name that is asked for, both times. -/
theorem validate_agrees_half :
    let limits : LimitSettings := { collectSeconds := 60 }
    let half : Binary64 := .finite false Binary64.leastMantissa (-53)
    let good : ArchiveSettings := ⟨.listed [] {},
      { bucket := "logs", limits := limits, jitter := half }, .memory, {}⟩
    let bad : ArchiveSettings := ⟨.listed [] {},
      { bucket := " ", limits := limits, jitter := .finite true 1 0 }, .memory, {}⟩
    (∃ sink, Sink.ofSettings good.sink = .ok sink ∧ sink.retrier.jitter = half) ∧
      bad.validate = .error (.configuration "sink bucket must not be empty") := by
  intro limits half good bad
  have hvalid : good.validate = .ok () := validate_of_isOk (by decide +kernel)
  have hrefused : Sink.ofSettings bad.sink =
      .error (.configuration "sink bucket must not be empty") := by
    rw [Sink.ofSettings, SinkSettings.checkBucket, if_pos (by decide)]
    rfl
  obtain ⟨sink, hsink, hjitter | ⟨-, hzero⟩⟩ := (validate_agrees good).1 hvalid
  · exact ⟨⟨sink, hsink, hjitter⟩, (validate_agrees bad).2 _ hrefused⟩
  · exact absurd hzero (by decide)

end ArchiveSettings

end RecordArchive
