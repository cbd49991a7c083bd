import RecordArchive.Archive
import RecordArchive.Proofs.Pipeline.Delivery
import RecordArchive.Proofs.Settings.Startup

/-!
# The end of a source

A source that answers a call with no batch is taken to be at its end.  What it has given
by then is its stream, so it is all that its settings name unless it stalls:
`Source.stream_of_reads`.  A file stalls when no byte may go into a batch, a list never
does.  Since settings are not refused for it, a run may then end well without the records
of the file.  The main statement is `SourceSettings.read_out_iff`.
-/

namespace RecordArchive

namespace SourceSettings

/-! ## What settings name -/

/-- The records that a source has by its settings: those of the lines of a file that are
not blank, or of all lines of a list. -/
def records (settings : SourceSettings) (contents? : String → Option Contents) : List Record :=
  match settings with
  | file path _ =>
    match contents? path with
    | some (some bytes) => bytes.lines.filterMap Source.recordOf?
    | some none | none => []
  | listed lines _ => (if lines.isEmpty then Source.sampleLines else lines).map Record.ofLine

/-- Whether a batch has room for a line. -/
def admits : SourceSettings → Bool
  | file _ limits => limits.bytes != 0
  | listed _ _ => true

variable {settings : SourceSettings} {contents? : String → Option Contents} {source : Source}

theorem content_of_start (h : Source.start settings contents? = .ok source) :
    source.content = settings.records contents? := by
  cases Source.started_of_start h with
  | listed found limits => rfl
  | unreadable limits hcontents | unread limits hcontents | file limits hcontents =>
    simp only [records, hcontents]
    rfl

/-- A source gives all that its settings name if a batch has room for a line, or if there is
nothing to give. -/
theorem stream_of_start_iff (h : Source.start settings contents? = .ok source) :
    source.stream = settings.records contents? ↔
      settings.admits = true ∨ settings.records contents? = [] := by
  rw [← content_of_start h, Source.stream_eq_content_iff]
  cases Source.started_of_start h with
  | listed found limits => exact ⟨fun _ => Or.inl rfl, fun _ => Or.inl rfl⟩
  | unreadable limits hcontents | unread limits hcontents =>
    exact ⟨fun _ => Or.inr rfl, fun _ => Or.inr rfl⟩
  | file limits hcontents =>
    refine or_congr_left ?_
    show (limits.bytes == 0) = false ↔ (!(limits.bytes == 0)) = true
    rw [Bool.not_eq_true']

end SourceSettings

/-! ## Runs -/

variable {σ : Type} [ObjectStore σ]

/-- A run that ended well, without having been told to stop, has handed over the stream of
its source. -/
theorem Passage.handed_of_result {settings : PipelineSettings} {source : Source}
    {queueCapacity : Nat} {c : Coordinator σ} {actions : List Pipeline.Action} {t : Passage σ}
    {tally : Tally}
    (hrun : run? settings actions { state := .start source queueCapacity c } = some t)
    (hend : t.state.result? false = some (.ok tally)) : t.handed.flatten = source.stream := by
  obtain ⟨⟨outcome, hin, hok⟩, hout, -⟩ := Pipeline.ended_of_result? hend
  have h := accounted_run? hrun
  have hwritten : t.written = source.stream := by
    have hintake := h.intake
    rw [hin, hok rfl] at hintake
    exact hintake
  have hdrained := (h.drained hout).1
  simp only [Queue.isDrained, Bool.and_eq_true, List.isEmpty_iff] at hdrained
  rw [← hwritten, h.written_eq, hout, hdrained.2]
  exact (List.append_nil _).symm

namespace SourceSettings

variable {settings : SourceSettings} {contents? : String → Option Contents} {source : Source}

/-- All that settings name has been given before a source says that it is at its end, and
has been handed over when a run ends well, exactly if a batch has room for a line or there
is nothing to give. -/
theorem read_out_iff (hstart : Source.start settings contents? = .ok source) :
    (∀ answers s s', source.Reads answers s → s.next = .ok (none, s') →
      (Source.delivered answers = settings.records contents? ↔
        settings.admits = true ∨ settings.records contents? = [])) ∧
      ∀ (pipeline : PipelineSettings) (queueCapacity : Nat) (c : Coordinator σ)
        (actions : List Pipeline.Action) (t : Passage σ) (tally : Tally),
        Passage.run? pipeline actions { state := .start source queueCapacity c } = some t →
          t.state.result? false = some (.ok tally) →
            (t.handed.flatten = settings.records contents? ↔
              settings.admits = true ∨ settings.records contents? = []) := by
  constructor
  · intro answers s s' hreads hnone
    have hall := Source.stream_of_reads hreads
    rw [Source.stream_of_next_none hnone, List.append_nil] at hall
    rw [← hall]
    exact stream_of_start_iff hstart
  · intro pipeline queueCapacity c actions t tally hrun hend
    rw [Passage.handed_of_result hrun hend]
    exact stream_of_start_iff hstart

/-- Two lines with a blank one between them, of which each fills a batch, and a list that is
run to its end. -/
theorem read_out_iff_two_lines :
    let contents? : String → Option Contents := fun _ => some (some [97, 10, 10, 98])
    let file : SourceSettings := .file "in.log" ⟨1000, 1⟩
    (∃ answers s, (Source.lines [[97, 10], [10], [98]] ⟨1000, 1⟩).Reads answers s ∧
      s.next = .ok (none, s) ∧ answers.length = 2 ∧
      Source.delivered answers = file.records contents?) ∧
      ∃ actions t, Passage.run? Sample.pipeline actions
          { state := .start (Source.ofLines ["a", "b"] {}) 4 (.start Sample.world) } = some t ∧
        t.handed.flatten = (listed ["a", "b"] {}).records contents? := by
  intro contents? file
  constructor
  · obtain ⟨answers, s, hreads, hnone, hlength⟩ : ∃ answers s,
        (Source.lines [[97, 10], [10], [98]] ⟨1000, 1⟩).Reads answers s ∧
          s.next = .ok (none, s) ∧ answers.length = 2 :=
      ⟨_, _, .call rfl (.call rfl (.stop _)), rfl, rfl⟩
    have hstart : Source.start file contents? = .ok (.lines [[97, 10], [10], [98]] ⟨1000, 1⟩) := rfl
    exact ⟨answers, s, hreads, hnone, hlength,
      ((read_out_iff (σ := MemoryStore) hstart).1 answers s s hreads hnone).mpr (Or.inl rfl)⟩
  · let begun : Passage MemoryStore :=
      { state := .start (Source.ofLines ["a", "b"] {}) 4 (.start Sample.world) }
    have hends : (((begun.run? Sample.pipeline Sample.interleaved).bind (·.state.result? false)).map
        (·.isOk)) = some true := by decide +kernel
    obtain ⟨result, hresult, hok⟩ := Option.map_eq_some_iff.mp hends
    obtain ⟨t, hrun, hend⟩ := Option.bind_eq_some_iff.mp hresult
    cases result with
    | error fault => cases hok
    | ok tally =>
      have hstart : Source.start (listed ["a", "b"] {}) contents? =
          .ok (Source.ofLines ["a", "b"] {}) := rfl
      exact ⟨Sample.interleaved, t, hrun,
        ((read_out_iff hstart).2 _ _ _ Sample.interleaved t tally hrun hend).mpr (Or.inl rfl)⟩

end SourceSettings

namespace Sample

/-- A file with one line, of which no byte fits into a batch, and where it lies. -/
def narrowFile : ArchiveSettings :=
  { source := .file "/in.log" ⟨1000, 0⟩
    sink := { bucket := "logs", limits := { collectSeconds := 60 } } }

def oneFile : Surroundings :=
  { tree := { entries := [(["in.log"], .file [97, lineFeed])] }
    epoch := ⟨0, 0⟩
    chance := ⟨.zero, fun n => .ofNat n⟩ }

end Sample

/-- The settings pass, the source says at once that it is at its end, and the run ends well
without the record of the line. -/
theorem Archive.narrowFile_unread :
    Sample.narrowFile.validate = .ok () ∧
      (∃ source, Source.start Sample.narrowFile.source Sample.oneFile.tree.contents? = .ok source ∧
        source.next = .ok (none, source)) ∧
      Sample.narrowFile.source.records Sample.oneFile.tree.contents? ≠ [] ∧
      (run Sample.narrowFile Sample.oneFile false false).1 = .ok {} := by
  refine ⟨?_, ⟨_, rfl, rfl⟩, ?_, ?_⟩
  · exact ArchiveSettings.validate_of_isOk (by decide +kernel)
  · have hblank : Text.isBlank (Source.lineText [97, lineFeed]) = false := by decide
    show List.filterMap Source.recordOf? [[97, lineFeed]] ≠ []
    simp [Source.recordOf?, hblank]
  · have hrun : (run Sample.narrowFile Sample.oneFile false false).1.toOption = some {} := by
      decide +kernel
    cases h : (run Sample.narrowFile Sample.oneFile false false).1 with
    | error fault =>
      rw [h] at hrun
      cases hrun
    | ok tally =>
      rw [h] at hrun
      exact congrArg Except.ok (Option.some.inj hrun)

end RecordArchive
