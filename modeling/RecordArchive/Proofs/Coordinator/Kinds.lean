import RecordArchive.Proofs.Buffer.Ample
import RecordArchive.Proofs.Coordinator.Dialogue
import RecordArchive.Proofs.Sample

/-!
# Both kinds of buffers answer alike

Two coordinators that differ in the kind of their buffers go through the same
requests.  As long as no staging file fails them, neither an answer nor a put tells
which is which.  The relation that is kept is `Twins`: the active buffers hold the
same records, whatever they hold them in, and what surrounds the coordinators differs
in the staging files at most.  The main statement is `kinds_alike`.
-/

namespace RecordArchive

/-! ## Stores and puts -/

/-- Stores that are alike answer puts of the same contents under the same name alike,
whether the contents come as bytes or as a file, and are alike after that. -/
structure Interchangeable {σ σ' : Type} [ObjectStore σ] [ObjectStore σ']
    (similar : σ → σ' → Prop) : Prop where
  put_alike : ∀ s s' name body body' content, similar s s' →
    body.content? = some content → body'.content? = some content →
      (ObjectStore.put s name body).outcome.isOk = (ObjectStore.put s' name body').outcome.isOk ∧
      (ObjectStore.put s name body).took = (ObjectStore.put s' name body').took ∧
      similar (ObjectStore.put s name body).state (ObjectStore.put s' name body').state

theorem MemoryStore.interchangeable : Interchangeable fun s s' : MemoryStore => s = s' where
  put_alike s s' name body body' content hs hbody hbody' := by
    subst hs
    have hput (b : Body) (hb : b.content? = some content) :
        s.put name b = s.put name (.bytes content) := by
      cases b with
      | bytes content' => exact congrArg (s.put name ∘ .bytes) (Option.some.inj hb)
      | file path content? =>
        obtain rfl : content? = some content := hb
        rfl
    have hsame : s.put name body = s.put name body' := by rw [hput body hbody, hput body' hbody']
    have hattempt : ObjectStore.put s name body = ObjectStore.put s name body' :=
      congrArg (fun answer => (⟨answer.1, answer.2, .zero⟩ : Retrier.Attempt MemoryStore)) hsame
    rw [hattempt]
    exact ⟨rfl, rfl, rfl⟩

/-- The same contents were offered under the same name, and were stored both times or
neither. -/
structure SameUpload (put put' : Put) : Prop where
  name_eq : put.name = put'.name
  content : ∃ content, put.body.content? = some content ∧ put'.body.content? = some content
  succeeded_eq : put.succeeded = put'.succeeded

section

variable {σ σ' : Type} [ObjectStore σ] [ObjectStore σ'] {similar : σ → σ' → Prop}

/-- Uploads that have gone alike. -/
structure World.Uploading.Alike (similar : σ → σ' → Prop) (u : World.Uploading σ)
    (u' : World.Uploading σ') : Prop where
  store : similar u.1 u'.1
  puts : List.Forall₂ SameUpload u.2 u'.2

theorem World.offer_alike (hstores : Interchangeable similar) (name : ObjectName)
    {body body' : Body} {content : Bytes} (hbody : body.content? = some content)
    (hbody' : body'.content? = some content) {u : Uploading σ} {u' : Uploading σ'}
    (h : Uploading.Alike similar u u') :
    (offer name body u).outcome.isOk = (offer name body' u').outcome.isOk ∧
      (offer name body u).took = (offer name body' u').took ∧
      Uploading.Alike similar (offer name body u).state (offer name body' u').state := by
  obtain ⟨hok, htook, hsimilar⟩ := hstores.put_alike u.1 u'.1 name body body' content h.store
    hbody hbody'
  refine ⟨hok, htook, hsimilar, .cons ⟨rfl, ⟨content, hbody, hbody'⟩, ?_⟩ h.puts⟩
  unfold Put.succeeded
  unfold Except.isOk Except.toBool at hok
  generalize (ObjectStore.put u.1 name body).outcome = outcome at hok ⊢
  generalize (ObjectStore.put u'.1 name body').outcome = outcome' at hok ⊢
  cases outcome <;> cases outcome' <;> first | rfl | exact hok

/-- Loops of attempts that have gone alike. -/
structure Retrier.Progress.Alike (similar : σ → σ' → Prop)
    (p : Retrier.Progress (World.Uploading σ)) (p' : Retrier.Progress (World.Uploading σ')) :
    Prop where
  clock_eq : p.clock = p'.clock
  drawn_eq : p.drawn = p'.drawn
  state : World.Uploading.Alike similar p.state p'.state

theorem Retrier.loop_alike (hstores : Interchangeable similar) (r : Retrier)
    (fractions : Fractions) (name : ObjectName) {body body' : Body} {content : Bytes}
    (hbody : body.content? = some content) (hbody' : body'.content? = some content) (budget : Nat)
    {p : Progress (World.Uploading σ)} {p' : Progress (World.Uploading σ')}
    (h : Progress.Alike similar p p') :
    (r.loop fractions (World.offer name body) budget p).1 =
        (r.loop fractions (World.offer name body') budget p').1 ∧
      Progress.Alike similar (r.loop fractions (World.offer name body) budget p).2
        (r.loop fractions (World.offer name body') budget p').2 := by
  induction budget generalizing p p' with
  | zero => exact ⟨rfl, h⟩
  | succ left ih =>
    obtain ⟨hok, htook, hstate⟩ := World.offer_alike hstores name hbody hbody' h.state
    unfold loop
    rw [h.clock_eq]
    by_cases hcancelled : p'.clock.isCancelled = true
    · rw [if_pos hcancelled, if_pos hcancelled]
      exact ⟨rfl, h⟩
    · rw [if_neg hcancelled, if_neg hcancelled]
      have hafter : Progress.Alike similar (p.attemptOnce (World.offer name body)).2
          (p'.attemptOnce (World.offer name body')).2 := by
        refine ⟨?_, h.drawn_eq, hstate⟩
        show p.clock.advance _ = p'.clock.advance _
        rw [h.clock_eq, htook]
      have hends : (p.attemptOnce (World.offer name body)).1.isOk =
          (p'.attemptOnce (World.offer name body')).1.isOk := hok
      generalize p.attemptOnce (World.offer name body) = after at hafter hends
      generalize p'.attemptOnce (World.offer name body') = after' at hafter hends
      obtain ⟨outcome, q⟩ := after
      obtain ⟨outcome', q'⟩ := after'
      cases outcome with
      | ok u =>
        cases outcome' with
        | ok u' => exact ⟨rfl, hafter⟩
        | error e' => cases hends
      | error e =>
        cases outcome' with
        | ok u' => cases hends
        | error e' =>
          by_cases hlast : left = 0
          · simp only [hlast, if_true]
            exact ⟨trivial, hafter⟩
          · simp only [hlast, if_false]
            -- The pauses are alike, so either both are cut short or none is.
            have hpause : (q.rest r fractions).1 = (q'.rest r fractions).1 ∧
                Progress.Alike similar (q.rest r fractions).2 (q'.rest r fractions).2 := by
              unfold Progress.rest Progress.restFor
              rw [hafter.clock_eq, hafter.drawn_eq]
              exact ⟨rfl, rfl, rfl, hafter.state⟩
            generalize q.rest r fractions = rested at hpause
            generalize q'.rest r fractions = rested' at hpause
            obtain ⟨cut, q₁⟩ := rested
            obtain ⟨cut', q₁'⟩ := rested'
            obtain ⟨rfl, hrested⟩ := hpause
            cases cut with
            | true => exact ⟨rfl, hrested⟩
            | false => exact ih hrested

end

/-! ## Worlds -/

section

variable {σ σ' : Type} {similar : σ → σ' → Prop} {kind kind' : BufferKind}

/-- Two worlds, each of which serves buffers of its kind.  They differ in the staging
files at most. -/
structure World.Alike (similar : σ → σ' → Prop) (kind kind' : BufferKind) (w : World σ)
    (w' : World σ') : Prop where
  clock_eq : w.clock = w'.clock
  epoch_eq : w.epoch = w'.epoch
  chance_eq : w.chance = w'.chance
  fractions_eq : w.fractionsDrawn = w'.fractionsDrawn
  ids_eq : w.idsDrawn = w'.idsDrawn
  upload : World.Uploading.Alike similar (w.store, w.puts) (w'.store, w'.puts)
  serves : w.staging.Serves kind
  serves' : w'.staging.Serves kind'

/-- Two buffers, each sound and of its kind, hold the same records. -/
structure Buffer.Alike (kind kind' : BufferKind) (s s' : Staging) (records : List Bytes)
    (b b' : Buffer) : Prop where
  holds : b.Holds s records
  holds' : b'.Holds s' records
  sound : b.Sound kind
  sound' : b'.Sound kind'
  createdAt_eq : b.createdAt = b'.createdAt

variable {s s' : Staging} {records : List Bytes} {b b' : Buffer}

theorem Buffer.Alike.count_eq (h : Alike kind kind' s s' records b b') : b.count = b'.count := by
  rw [h.holds.count_eq, h.holds'.count_eq]

theorem Buffer.Alike.size_eq (h : Alike kind kind' s s' records b b') : b.size = b'.size := by
  rw [h.holds.size_eq, h.holds'.size_eq]

theorem Buffer.Alike.snapshot_eq (h : Alike kind kind' s s' records b b') (now : Duration) :
    b.snapshot now = b'.snapshot now := by
  unfold snapshot
  rw [h.count_eq, h.size_eq, h.createdAt_eq]

theorem World.Alike.withStaging {w : World σ} {w' : World σ'}
    (h : w.Alike similar kind kind' w') (hs : s.Serves kind) (hs' : s'.Serves kind') :
    { w with staging := s }.Alike similar kind kind' { w' with staging := s' } :=
  ⟨h.clock_eq, h.epoch_eq, h.chance_eq, h.fractions_eq, h.ids_eq, h.upload, hs, hs'⟩

theorem World.Alike.drawId {w : World σ} {w' : World σ'} (h : w.Alike similar kind kind' w') :
    w.drawId.1 = w'.drawId.1 ∧ w.drawId.2.Alike similar kind kind' w'.drawId.2 := by
  unfold World.drawId
  rw [h.chance_eq, h.ids_eq]
  exact ⟨rfl, h.clock_eq, h.epoch_eq, rfl, h.fractions_eq, rfl, h.upload, h.serves, h.serves'⟩

variable [ObjectStore σ] [ObjectStore σ']

theorem World.upload_alike (hstores : Interchangeable similar) {w : World σ} {w' : World σ'}
    (h : w.Alike similar kind kind' w') (retrier : Retrier) (name : ObjectName)
    {body body' : Body} {content : Bytes} (hbody : body.content? = some content)
    (hbody' : body'.content? = some content) :
    (w.upload retrier name body).1 = (w'.upload retrier name body').1 ∧
      (w.upload retrier name body).2.Alike similar kind kind'
        (w'.upload retrier name body').2 := by
  have hbegun : Retrier.Progress.Alike similar
      ⟨w.clock, w.fractionsDrawn, 0, (w.store, w.puts)⟩
      ⟨w'.clock, w'.fractionsDrawn, 0, (w'.store, w'.puts)⟩ :=
    ⟨h.clock_eq, h.fractions_eq, h.upload⟩
  obtain ⟨hverdict, hprogress⟩ := retrier.loop_alike hstores w'.chance.fractions name hbody hbody'
    retrier.attempts hbegun
  unfold upload Retrier.run
  rw [h.chance_eq]
  exact ⟨congrArg (Retrier.Verdict.uploaded name.key) hverdict, hprogress.clock_eq, h.epoch_eq,
    rfl, hprogress.drawn_eq, h.ids_eq, hprogress.state, h.serves, h.serves'⟩

/-- Buffers that hold the same records are uploaded alike. -/
theorem World.flush_alike (hstores : Interchangeable similar) {w : World σ} {w' : World σ'}
    (h : w.Alike similar kind kind' w')
    (hb : Buffer.Alike kind kind' w.staging w'.staging records b b') (retrier : Retrier)
    (name : ObjectName) :
    (w.flush retrier name b).1 = (w'.flush retrier name b').1 ∧
      (w.flush retrier name b).2.Alike similar kind kind' (w'.flush retrier name b').2 := by
  obtain ⟨staging, hfinish, hserves⟩ := Buffer.finish_of_serves hb.sound h.serves
  obtain ⟨staging', hfinish', hserves'⟩ := Buffer.finish_of_serves hb.sound' h.serves'
  have hbody : ({ w with staging := staging }.bodyOf b).content? = some records.flatten :=
    content?_bodyOf hb.holds hfinish
  have hbody' : ({ w' with staging := staging' }.bodyOf b').content? = some records.flatten :=
    content?_bodyOf hb.holds' hfinish'
  obtain ⟨houtcome, hafter⟩ := World.upload_alike hstores (h.withStaging hserves hserves') retrier
    name hbody hbody'
  unfold flush
  rw [hfinish, hfinish']
  exact ⟨houtcome, hafter.withStaging (Buffer.serves_discard hafter.serves)
    (Buffer.serves_discard hafter.serves')⟩

end

/-! ## Coordinators -/

/-- The sink with buffers of another kind. -/
def Sink.withKind (sink : Sink) (kind : BufferKind) : Sink := { sink with kind := kind }

namespace Coordinator

variable {σ σ' : Type} {similar : σ → σ' → Prop} {kind kind' : BufferKind}

/-- Two coordinators, each with buffers of its kind, between which nothing can be told
apart. -/
structure Twins (similar : σ → σ' → Prop) (kind kind' : BufferKind) (c : Coordinator σ)
    (c' : Coordinator σ') : Prop where
  world : c.world.Alike similar kind kind' c'.world
  tally_eq : c.tally = c'.tally
  buffers : c.current = none ∧ c'.current = none ∨ ∃ records b b', records ≠ [] ∧
    c.current = some b ∧ c'.current = some b' ∧
      Buffer.Alike kind kind' c.world.staging c'.world.staging records b b'

variable {c : Coordinator σ} {c' : Coordinator σ'}

theorem Twins.now_eq (h : c.Twins similar kind kind' c') : c.now = c'.now :=
  congrArg Clock.now h.world.clock_eq

theorem Twins.snapshot?_eq (h : c.Twins similar kind kind' c') : c.snapshot? = c'.snapshot? := by
  unfold snapshot?
  rcases h.buffers with ⟨hcur, hcur'⟩ | ⟨records, b, b', -, hcur, hcur', hb⟩
  · rw [hcur, hcur']
    rfl
  · rw [hcur, hcur', h.now_eq, Option.map_some, Option.map_some, hb.snapshot_eq]

/-- Without buffers it is enough that the worlds are alike. -/
theorem twins_of_none (hworld : c.world.Alike similar kind kind' c'.world)
    (htally : c.tally = c'.tally) (hcur : c.current = none) (hcur' : c'.current = none) :
    c.Twins similar kind kind' c' :=
  ⟨hworld, htally, Or.inl ⟨hcur, hcur'⟩⟩

/-- A record is appended to both buffers, or to new ones. -/
theorem append_twins (sink : Sink) (h : c.Twins similar kind kind' c') (record : Bytes) :
    (c.append (sink.withKind kind) record).1 = true ∧
      (c'.append (sink.withKind kind') record).1 = true ∧
      (c.append (sink.withKind kind) record).2.Twins similar kind kind'
        (c'.append (sink.withKind kind') record).2 := by
  have hwritten {s s' : Staging} {records : List Bytes} {b b' : Buffer} (hs : s.Serves kind)
      (hs' : s'.Serves kind') (hb : Buffer.Alike kind kind' s s' records b b') :
      ∃ b₁ s₁ b₁' s₁', b.append record s = (.ok b₁, s₁) ∧ b'.append record s' = (.ok b₁', s₁') ∧
        s₁.Serves kind ∧ s₁'.Serves kind' ∧
        Buffer.Alike kind kind' s₁ s₁' (records ++ [record.terminated]) b₁ b₁' := by
    obtain ⟨b₁, s₁, happend, hsound, hserves⟩ := Buffer.append_of_serves hb.sound hs record
    obtain ⟨b₁', s₁', happend', hsound', hserves'⟩ := Buffer.append_of_serves hb.sound' hs' record
    refine ⟨b₁, s₁, b₁', s₁', happend, happend', hserves, hserves',
      Buffer.holds_append hb.holds happend, Buffer.holds_append hb.holds' happend', hsound,
      hsound', ?_⟩
    rw [Buffer.createdAt_append happend, Buffer.createdAt_append happend', hb.createdAt_eq]
  unfold append takeBuffer
  -- Either both have a buffer or both make one.
  rcases h.buffers with ⟨hcur, hcur'⟩ | ⟨records, b, b', -, hcur, hcur', hb⟩
  · obtain ⟨b, s, hcreate, hsound, hserves⟩ :=
      Buffer.create_of_serves h.world.serves c.now
    obtain ⟨b', s', hcreate', hsound', hserves'⟩ :=
      Buffer.create_of_serves h.world.serves' c'.now
    have hb : Buffer.Alike kind kind' s s' [] b b' := by
      refine ⟨Buffer.holds_create hcreate, Buffer.holds_create hcreate', hsound, hsound', ?_⟩
      rw [Buffer.createdAt_create hcreate, Buffer.createdAt_create hcreate', h.now_eq]
    obtain ⟨b₁, s₁, b₁', s₁', happend, happend', hs₁, hs₁', hb₁⟩ := hwritten hserves hserves' hb
    simp only [hcur, hcur', Sink.withKind, hcreate, hcreate', happend, happend']
    exact ⟨trivial, trivial, h.world.withStaging hs₁ hs₁', h.tally_eq,
      Or.inr ⟨_, b₁, b₁', by simp, rfl, rfl, hb₁⟩⟩
  · obtain ⟨b₁, s₁, b₁', s₁', happend, happend', hs₁, hs₁', hb₁⟩ :=
      hwritten h.world.serves h.world.serves' hb
    simp only [hcur, hcur', happend, happend']
    exact ⟨trivial, trivial, h.world.withStaging hs₁ hs₁', h.tally_eq,
      Or.inr ⟨_, b₁, b₁', by simp, rfl, rfl, hb₁⟩⟩

theorem add_twins (sink : Sink) (h : c.Twins similar kind kind' c') (record : Bytes) :
    (c.add (sink.withKind kind) record).1 = (c'.add (sink.withKind kind') record).1 ∧
      (c.add (sink.withKind kind) record).2.Twins similar kind kind'
        (c'.add (sink.withKind kind') record).2 := by
  obtain ⟨hdone, hdone', htwins⟩ := append_twins sink h record
  unfold add
  generalize c.append (sink.withKind kind) record = answer at hdone htwins
  generalize c'.append (sink.withKind kind') record = answer' at hdone' htwins
  obtain ⟨added, next⟩ := answer
  obtain ⟨added', next'⟩ := answer'
  obtain rfl : added = true := hdone
  obtain rfl : added' = true := hdone'
  have htally : next.tally = next'.tally := htwins.tally_eq
  refine ⟨rfl, htwins.world, ?_, htwins.buffers⟩
  simp only [htally]

variable [ObjectStore σ] [ObjectStore σ']

theorem retire_twins (sink : Sink) (hstores : Interchangeable similar)
    (h : c.Twins similar kind kind' c') {records : List Bytes} {b b' : Buffer}
    (hb : Buffer.Alike kind kind' c.world.staging c'.world.staging records b b') :
    (retire (sink.withKind kind) b { c with current := none }).1 =
        (retire (sink.withKind kind') b' { c' with current := none }).1 ∧
      (retire (sink.withKind kind) b { c with current := none }).2.Twins similar kind kind'
        (retire (sink.withKind kind') b' { c' with current := none }).2 := by
  have hworld := h.world
  unfold retire
  rw [hb.count_eq]
  by_cases hempty : b'.count = 0
  · rw [if_pos hempty, if_pos hempty]
    exact ⟨rfl, twins_of_none (hworld.withStaging (Buffer.serves_discard hworld.serves)
      (Buffer.serves_discard hworld.serves')) h.tally_eq rfl rfl⟩
  · rw [if_neg hempty, if_neg hempty]
    obtain ⟨hid, hdrawn⟩ := hworld.drawId
    have hinstant : c.world.instant = c'.world.instant := by
      unfold World.instant
      rw [hworld.epoch_eq, hworld.clock_eq]
    obtain ⟨hends, hafter⟩ := World.flush_alike hstores hdrawn hb sink.retrier
      ⟨sink.bucket, sink.namer.key c'.world.instant c'.world.drawId.1⟩
    simp only [Sink.withKind, hinstant, hid]
    generalize c.world.drawId.2.flush sink.retrier _ b = answer at hends hafter
    generalize c'.world.drawId.2.flush sink.retrier _ b' = answer' at hends hafter
    obtain ⟨outcome, world⟩ := answer
    obtain ⟨outcome', world'⟩ := answer'
    obtain rfl : outcome = outcome' := hends
    cases outcome with
    | error e => exact ⟨rfl, twins_of_none hafter h.tally_eq rfl rfl⟩
    | ok uploaded =>
      refine ⟨rfl, twins_of_none hafter ?_ rfl rfl⟩
      show (if uploaded then c.tally.flushed b else c.tally.lost b) =
        if uploaded then c'.tally.flushed b' else c'.tally.lost b'
      unfold Tally.flushed Tally.lost
      rw [h.tally_eq, hb.count_eq, hb.size_eq]

theorem flushWhen_twins (sink : Sink) (hstores : Interchangeable similar)
    (h : c.Twins similar kind kind' c') (due : Snapshot → Bool) :
    (c.flushWhen (sink.withKind kind) due).1 = (c'.flushWhen (sink.withKind kind') due).1 ∧
      (c.flushWhen (sink.withKind kind) due).2.Twins similar kind kind'
        (c'.flushWhen (sink.withKind kind') due).2 := by
  unfold flushWhen
  rcases h.buffers with ⟨hcur, hcur'⟩ | ⟨records, b, b', -, hcur, hcur', hb⟩
  · simp only [hcur, hcur']
    exact ⟨trivial, h⟩
  · simp only [hcur, hcur', h.now_eq, hb.snapshot_eq]
    by_cases hdue : due (b'.snapshot c'.now) = true
    · obtain ⟨hends, hafter⟩ := retire_twins sink hstores h hb
      simp only [hdue, if_true]
      generalize retire (sink.withKind kind) b { c with current := none } = answer at hends hafter
      generalize retire (sink.withKind kind') b' { c' with current := none } = answer'
        at hends hafter
      obtain ⟨outcome, next⟩ := answer
      obtain ⟨outcome', next'⟩ := answer'
      obtain rfl : outcome = outcome' := hends
      cases outcome <;> exact ⟨rfl, hafter⟩
    · rw [if_neg hdue, if_neg hdue]
      exact ⟨rfl, h⟩

theorem acceptFrom_twins (sink : Sink) (hstores : Interchangeable similar) (records : List Record)
    (summary : Summary) (h : c.Twins similar kind kind' c') :
    (c.acceptFrom (sink.withKind kind) summary records).1 =
        (c'.acceptFrom (sink.withKind kind') summary records).1 ∧
      (c.acceptFrom (sink.withKind kind) summary records).2.Twins similar kind kind'
        (c'.acceptFrom (sink.withKind kind') summary records).2 := by
  have hrefuse {c : Coordinator σ} {c' : Coordinator σ'} (h : c.Twins similar kind kind' c')
      (dropped : Nat) : (c.refuse dropped).Twins similar kind kind' (c'.refuse dropped) :=
    ⟨h.world, congrArg (Tally.refuse · dropped) h.tally_eq, h.buffers⟩
  induction records generalizing summary c c' with
  | nil => exact ⟨rfl, h⟩
  | cons record rest ih =>
    have hcodec (k : BufferKind) : (sink.withKind k).codec = sink.codec := rfl
    have hpolicy (k : BufferKind) : (sink.withKind k).policy = sink.policy := rfl
    have hlimits (k : BufferKind) : (sink.withKind k).limits = sink.limits := rfl
    unfold acceptFrom
    rw [hcodec, hcodec]
    cases sink.codec.encode record with
    | error fault =>
      simp only [hpolicy]
      cases sink.policy with
      | abort => exact ⟨rfl, hrefuse h _⟩
      | skip => exact ih (summary.refuse 1) (hrefuse h 1)
    | ok bytes =>
      obtain ⟨hends, hcut⟩ := flushWhen_twins sink hstores h sink.limits.shouldFlush
      simp only [hlimits]
      generalize c.flushWhen (sink.withKind kind) _ = answer at hends hcut
      generalize c'.flushWhen (sink.withKind kind') _ = answer' at hends hcut
      obtain ⟨outcome, next⟩ := answer
      obtain ⟨outcome', next'⟩ := answer'
      obtain rfl : outcome = outcome' := hends
      cases outcome with
      | error e => exact ⟨rfl, hcut⟩
      | ok flushed =>
        obtain ⟨hadded, hnext⟩ := add_twins sink hcut bytes
        simp only [hadded]
        exact ih _ hnext

theorem reply_twins (sink : Sink) (hstores : Interchangeable similar)
    (h : c.Twins similar kind kind' c') (request : Request) :
    (c.reply (sink.withKind kind) request).1 = (c'.reply (sink.withKind kind') request).1 ∧
      (c.reply (sink.withKind kind) request).2.Twins similar kind kind'
        (c'.reply (sink.withKind kind') request).2 := by
  cases request with
  | call call =>
    cases call with
    | accept batch =>
      obtain ⟨hends, hnext⟩ := acceptFrom_twins sink hstores batch {} h
      exact ⟨congrArg Answer.accepted hends, hnext⟩
    | flushExpired =>
      obtain ⟨hends, hnext⟩ := flushWhen_twins sink hstores h sink.limits.isExpired
      exact ⟨congrArg Answer.expired hends, hnext⟩
    | shutdown =>
      obtain ⟨hends, hnext⟩ := flushWhen_twins sink hstores h fun _ => true
      simp only [reply, shutdown]
      generalize c.flushWhen (sink.withKind kind) _ = answer at hends hnext
      generalize c'.flushWhen (sink.withKind kind') _ = answer' at hends hnext
      obtain ⟨outcome, next⟩ := answer
      obtain ⟨outcome', next'⟩ := answer'
      obtain rfl : outcome = outcome' := hends
      cases outcome with
      | error e => exact ⟨rfl, hnext⟩
      | ok flushed => exact ⟨congrArg (Answer.ended ∘ Except.ok) hnext.tally_eq, hnext⟩
  | snapshot => exact ⟨congrArg Answer.snapshot h.snapshot?_eq, h⟩
  | stats => exact ⟨congrArg Answer.stats h.tally_eq, h⟩

/-! ## Dialogues -/

end Coordinator

/-- The same surroundings, each of which serves buffers of its kind. -/
structure Circumstances.Alike {σ σ' : Type} (similar : σ → σ' → Prop) (kind kind' : BufferKind)
    (around : Circumstances σ) (around' : Circumstances σ') : Prop where
  clock_eq : around.clock = around'.clock
  store : similar around.store around'.store
  serves : kind = .staged → around.usable = true ∧ around.room = none
  serves' : kind' = .staged → around'.usable = true ∧ around'.room = none

namespace Coordinator

variable {σ σ' : Type} {similar : σ → σ' → Prop} {kind kind' : BufferKind}
  {c : Coordinator σ} {c' : Coordinator σ'}

theorem amid_twins (h : c.Twins similar kind kind' c') {around : Circumstances σ}
    {around' : Circumstances σ'} (hs : around.Alike similar kind kind' around') :
    (c.amid around).Twins similar kind kind' (c'.amid around') := by
  have hworld := h.world
  refine ⟨⟨hs.clock_eq, hworld.epoch_eq, hworld.chance_eq, hworld.fractions_eq, hworld.ids_eq,
    ⟨hs.store, hworld.upload.puts⟩, fun hk => ⟨(hs.serves hk).1, (hs.serves hk).2⟩,
    fun hk => ⟨(hs.serves' hk).1, (hs.serves' hk).2⟩⟩, h.tally_eq, ?_⟩
  rcases h.buffers with hnone | ⟨records, b, b', hne, hcur, hcur', hb⟩
  · exact Or.inl hnone
  · exact Or.inr ⟨records, b, b', hne, hcur, hcur', Buffer.holds_congr hb.holds rfl,
      Buffer.holds_congr hb.holds' rfl, hb.sound, hb.sound', hb.createdAt_eq⟩

variable [ObjectStore σ] [ObjectStore σ']

theorem converse_twins (sink : Sink) (hstores : Interchangeable similar)
    {requests : List (Circumstances σ × Request)} {requests' : List (Circumstances σ' × Request)}
    (hrequests : List.Forall₂ (fun entry entry' =>
      entry.1.Alike similar kind kind' entry'.1 ∧ entry.2 = entry'.2) requests requests')
    (h : c.Twins similar kind kind' c') :
    (c.converse (sink.withKind kind) requests).answers =
        (c'.converse (sink.withKind kind') requests').answers ∧
      (c.converse (sink.withKind kind) requests).final.Twins similar kind kind'
        (c'.converse (sink.withKind kind') requests').final := by
  induction hrequests generalizing c c' with
  | nil => exact ⟨rfl, h⟩
  | @cons entry entry' rest rest' hentry _ ih =>
    obtain ⟨around, request⟩ := entry
    obtain ⟨around', request'⟩ := entry'
    obtain ⟨hs, rfl⟩ := hentry
    obtain ⟨hanswer, hnext⟩ := reply_twins sink hstores (amid_twins h hs) request
    obtain ⟨hlater, hfinal⟩ := ih hnext
    simp only [converse]
    rw [hanswer, hlater]
    exact ⟨rfl, hfinal⟩

/-- A coordinator that buffers in staging files, none of which fails it, and one that
buffers in memory answer all requests alike: with the same summaries, totals, readings
and errors.  They offer the same contents under the same names, put by put, and the
sizes that they show are those of what they offer. -/
theorem kinds_alike (hstores : Interchangeable similar) (sink : Sink) {world : World σ}
    {world' : World σ'} (hworld : world.Alike similar .staged .memory world')
    {requests : List (Circumstances σ × Request)} {requests' : List (Circumstances σ' × Request)}
    (hrequests : List.Forall₂ (fun entry entry' =>
      entry.1.Alike similar .staged .memory entry'.1 ∧ entry.2 = entry'.2) requests requests') :
    let staged := (start world).converse (sink.withKind .staged) requests
    let memory := (start world').converse (sink.withKind .memory) requests'
    staged.answers = memory.answers ∧
      List.Forall₂ SameUpload staged.final.world.puts memory.final.world.puts ∧
      SizesOffered world.puts.reverse staged.deeds staged.final ∧
      SizesOffered world'.puts.reverse memory.deeds memory.final := by
  intro staged memory
  have hstart : (start world).Twins similar .staged .memory (start world') :=
    twins_of_none hworld rfl rfl rfl
  obtain ⟨hanswers, hfinal⟩ := converse_twins sink hstores hrequests hstart
  exact ⟨hanswers, hfinal.world.upload.puts, sizes_of_converse _ world requests,
    sizes_of_converse _ world' requests'⟩

/-- One buffer is lost, and one is stored. -/
theorem kinds_alike_sample :
    let same := fun s s' : MemoryStore => s = s'
    let requests : List (Circumstances MemoryStore × Request) :=
      [(Sample.calm, .call (.accept [Sample.record "a"])), (Sample.later, .snapshot),
        (Sample.failing, .call (.accept [Sample.record "bc"])),
        (Sample.calm, .call .shutdown)]
    let staged := (start Sample.world).converse (Sample.sink.withKind .staged) requests
    let memory := (start Sample.world).converse (Sample.sink.withKind .memory) requests
    Interchangeable same ∧ Sample.world.Alike same .staged .memory Sample.world ∧
    List.Forall₂ (fun entry entry' : Circumstances MemoryStore × Request =>
      entry.1.Alike same .staged .memory entry'.1 ∧ entry.2 = entry'.2) requests requests ∧
    staged.answers = memory.answers ∧
    memory.answers = [.accepted (.ok ⟨1, 0, 0, 0⟩), .snapshot (some ⟨1, 2, .ofSeconds 61⟩),
      .accepted (.ok ⟨1, 0, 1, 0⟩), .ended (.ok ⟨2, 0, 0, 0, 1, 1, 1, 1, 3⟩)] ∧
    List.Forall₂ SameUpload staged.final.world.puts memory.final.world.puts ∧
    memory.final.world.puts.map (·.body.content?) =
      [some [98, 99, lineFeed], some [97, lineFeed]] := by
  intro same requests staged memory
  have hworld : Sample.world.Alike same .staged .memory Sample.world :=
    ⟨rfl, rfl, rfl, rfl, rfl, ⟨rfl, .nil⟩, fun _ => ⟨rfl, rfl⟩, fun h => nomatch h⟩
  have hrequests : List.Forall₂ (fun entry entry' : Circumstances MemoryStore × Request =>
      entry.1.Alike same .staged .memory entry'.1 ∧ entry.2 = entry'.2) requests requests := by
    refine List.forall₂_same.mpr fun entry hentry =>
      ⟨⟨rfl, rfl, fun _ => ?_, fun h => nomatch h⟩, rfl⟩
    simp only [requests, List.mem_cons, List.not_mem_nil, or_false] at hentry
    rcases hentry with rfl | rfl | rfl | rfl <;> exact ⟨rfl, rfl⟩
  obtain ⟨hanswers, hputs, -⟩ :=
    kinds_alike MemoryStore.interchangeable Sample.sink hworld hrequests
  exact ⟨MemoryStore.interchangeable, hworld, hrequests, hanswers, rfl, hputs, rfl⟩

end Coordinator

end RecordArchive
