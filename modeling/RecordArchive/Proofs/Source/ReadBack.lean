import RecordArchive.Proofs.Coordinator.Calm
import RecordArchive.Proofs.Sample
import RecordArchive.Proofs.Source.Lines

/-!
# Reading an archive back

Records are written as lines of JSON into a buffer of either kind, the buffer is
uploaded, and the object is read as a file.  If the records are objects without binary
numbers, and not nested too deeply, then the records that are read are those that were
written: `archive_read_back`.
-/

namespace RecordArchive

/-! ## Filling a buffer -/

namespace Buffer

/-- Appends records in turn. -/
def appendAll (b : Buffer) (s : Staging) : List Bytes → Except ArchiveError Buffer × Staging
  | [] => (.ok b, s)
  | record :: rest =>
    match b.append record s with
    | (.error e, s) => (.error e, s)
    | (.ok b, s) => b.appendAll s rest

/-- A new buffer with records appended to it. -/
def filled (kind : BufferKind) (now : Duration) (records : List Bytes) (s : Staging) :
    Except ArchiveError Buffer × Staging :=
  match create kind now s with
  | (.error e, s) => (.error e, s)
  | (.ok b, s) => b.appendAll s records

variable {kind : BufferKind} {now : Duration} {b b' : Buffer} {s s' : Staging}

theorem holds_appendAll {held : List Bytes} (hb : b.Holds s held) (records : List Bytes)
    (h : b.appendAll s records = (.ok b', s')) :
    b'.Holds s' (held ++ records.map Bytes.terminated) := by
  induction records generalizing b s held with
  | nil =>
    cases h
    rw [List.map_nil, List.append_nil]
    exact hb
  | cons record rest ih =>
    rw [appendAll] at h
    split at h
    · cases h
    · rename_i happend
      have hnext := ih (holds_append hb happend) h
      rwa [List.append_assoc, List.singleton_append] at hnext

theorem holds_filled {records : List Bytes} (h : filled kind now records s = (.ok b', s')) :
    b'.Holds s' (records.map Bytes.terminated) := by
  unfold filled at h
  split at h
  · cases h
  · rename_i hcreate
    exact holds_appendAll (holds_create hcreate) records h

theorem appendAll_of_serves (hb : b.Sound kind) (hs : s.Serves kind) (records : List Bytes) :
    ∃ b' s', b.appendAll s records = (.ok b', s') ∧ b'.Sound kind ∧ s'.Serves kind := by
  induction records generalizing b s with
  | nil => exact ⟨b, s, rfl, hb, hs⟩
  | cons record rest ih =>
    obtain ⟨b₁, s₁, happend, hb₁, hs₁⟩ := append_of_serves hb hs record
    rw [appendAll, happend]
    exact ih hb₁ hs₁

theorem filled_of_serves (hs : s.Serves kind) (now : Duration) (records : List Bytes) :
    ∃ b s', filled kind now records s = (.ok b, s') ∧ b.Sound kind ∧ s'.Serves kind := by
  obtain ⟨b, s₁, hcreate, hb, hs₁⟩ := create_of_serves hs now
  rw [filled, hcreate]
  exact appendAll_of_serves hb hs₁ records

end Buffer

/-! ## The archive -/

variable {σ : Type} [ObjectStore σ]

/-- Every put of a flush offers what the buffer holds, and a buffer is not reported as
uploaded unless one of them succeeds. -/
theorem World.flush_contents (w : World σ) (retrier : Retrier) (name : ObjectName) {b : Buffer}
    {records : List Bytes} (hb : b.Holds w.staging records) :
    (∀ put ∈ w.putsUntil (w.flush retrier name b).2,
      put.body.content? = some records.flatten) ∧
    ((w.flush retrier name b).1 = .ok true →
      ∃ put ∈ w.putsUntil (w.flush retrier name b).2, put.succeeded = true) := by
  obtain ⟨tried, hputs, hattempts, hcount, -⟩ := w.flush_offers retrier name hb
  rw [World.putsUntil_eq hputs]
  refine ⟨hattempts.reverse.content_eq, fun hstored => ?_⟩
  rw [hstored] at hcount
  have hpos : 0 < tried.countP Put.succeeded := by
    rw [hcount]
    exact Nat.one_pos
  obtain ⟨put, hmem, hsucceeded⟩ := List.countP_pos_iff.mp hpos
  exact ⟨put, List.mem_reverse.mpr hmem, hsucceeded⟩

theorem plain_nested : Json.Plain Sample.nested := by
  refine .object (by decide) (List.forall_mem_cons.mpr ⟨.array ?_, List.forall_mem_cons.mpr
    ⟨.object (by decide) ?_, by simp⟩⟩)
  · rintro item (_ | ⟨_, _ | ⟨_, _ | ⟨_, ⟨⟩⟩⟩⟩)
    · exact .integer (by decide) (by decide)
    · exact .null
    · exact .text _
  · rintro field (_ | ⟨_, _ | ⟨_, ⟨⟩⟩⟩)
    · exact .integer (by decide) (by decide)
    · exact .boolean true

/-- Records that are objects, without binary numbers and less than 128 containers deep,
are encoded, and their lines are appended to a buffer of either kind unless the disk
fails it.  Every put of the buffer then offers bytes that are read as these records,
one put succeeds if the upload does, and the upload does where nothing is in its way. -/
theorem archive_read_back {events : List Record}
    (hevents : ∀ event ∈ events,
      event.isObject = true ∧ event.Plain ∧ event.depth < 128)
    (kind : BufferKind) (now : Duration) (w : World σ) (retrier : Retrier) (name : ObjectName) :
    ∃ encodings, events.mapM Codec.ndjson.encode = .ok encodings ∧
      (w.staging.Serves kind → ∃ b s, Buffer.filled kind now encodings w.staging = (.ok b, s)) ∧
      ∀ b s, Buffer.filled kind now encodings w.staging = (.ok b, s) →
        ∀ outcome after, { w with staging := s }.flush retrier name b = (outcome, after) →
          (∀ put ∈ w.putsUntil after, ∃ content, put.body.content? = some content ∧
            Source.ReadsAs content events) ∧
          (outcome = .ok true → ∃ put ∈ w.putsUntil after, put.succeeded = true) ∧
          (∀ ready, Prompt ready → w.Calm kind ready → outcome = .ok true) := by
  have hplain : ∀ event ∈ events, event.Plain := fun event hmem => (hevents event hmem).2.1
  refine ⟨events.map Record.line, Record.mapM_encode_ndjson hplain, ?_, ?_⟩
  · intro hserves
    obtain ⟨b, s, hfilled, -, -⟩ := Buffer.filled_of_serves hserves now (events.map Record.line)
    exact ⟨b, s, hfilled⟩
  intro b s hfilled outcome after hflush
  have hholds := Buffer.holds_filled hfilled
  have hlines : (events.map Record.line).map Bytes.terminated = events.map Record.line := by
    rw [List.map_map]
    exact List.map_congr_left fun event _ => Record.terminated_line event
  rw [hlines] at hholds
  have hcontents := World.flush_contents { w with staging := s } retrier name hholds
  rw [hflush] at hcontents
  refine ⟨?_, hcontents.2, ?_⟩
  · intro put hput
    refine ⟨_, hcontents.1 put hput, Source.readsAs_lines fun event hmem => ?_⟩
    obtain ⟨hobject, hplain, hdepth⟩ := hevents event hmem
    exact ⟨hobject, hplain, Nat.le_of_lt_succ hdepth⟩
  · -- A disk with room enough has filled the buffer without a failed write.
    intro ready hprompt hcalm
    obtain ⟨b', s', hfilled', hsound, hserves⟩ :=
      Buffer.filled_of_serves hcalm.serves now (events.map Record.line)
    rw [hfilled] at hfilled'
    cases hfilled'
    obtain ⟨put, w', hstored, -⟩ := World.flush_of_calm (w := { w with staging := s }) hprompt
      ⟨hcalm.uncancelled, hcalm.ready, hserves⟩ retrier name hholds hsound
    rw [hflush] at hstored
    exact congrArg Prod.fst hstored

/-- Two records go through a staging file and come back. -/
theorem archive_read_back_sample :
    (∀ event ∈ [Sample.nested, Sample.record "b"],
      event.isObject = true ∧ event.Plain ∧ event.depth < 128) ∧
    ∃ encodings b s after,
      [Sample.nested, Sample.record "b"].mapM Codec.ndjson.encode = .ok encodings ∧
      Buffer.filled .staged .zero encodings Sample.world.staging = (.ok b, s) ∧
      { Sample.world with staging := s }.flush Sample.sink.retrier ⟨"logs", "a"⟩ b =
        (.ok true, after) ∧
      ∃ put ∈ Sample.world.putsUntil after, put.succeeded = true ∧
        ∃ content, put.body.content? = some content ∧
          Source.ReadsAs content [Sample.nested, Sample.record "b"] := by
  have hevents : ∀ event ∈ [Sample.nested, Sample.record "b"],
      event.isObject = true ∧ event.Plain ∧ event.depth < 128 := by
    refine List.forall_mem_cons.mpr ⟨⟨rfl, plain_nested, by decide⟩, ?_⟩
    refine List.forall_mem_singleton.mpr ⟨rfl, .object (List.pairwise_singleton _ _) ?_, by decide⟩
    exact List.forall_mem_singleton.mpr (.text "b")
  obtain ⟨encodings, hencode, happend, hupload⟩ := archive_read_back hevents .staged .zero
    Sample.world Sample.sink.retrier ⟨"logs", "a"⟩
  obtain ⟨b, s, hfilled⟩ := happend fun _ => ⟨rfl, rfl⟩
  cases hflush : { Sample.world with staging := s }.flush Sample.sink.retrier ⟨"logs", "a"⟩ b with
  | mk outcome after =>
    obtain ⟨hread, hstored, hcalm⟩ := hupload b s hfilled outcome after hflush
    have houtcome := hcalm _ MemoryStore.prompt ⟨rfl, rfl, fun _ => ⟨rfl, rfl⟩⟩
    obtain ⟨put, hput, hsucceeded⟩ := hstored houtcome
    rw [houtcome] at hflush
    exact ⟨hevents, encodings, b, s, after, hencode, hfilled, hflush, put, hput, hsucceeded,
      hread put hput⟩

end RecordArchive
