import RecordArchive.Proofs.Pipeline.Quiet
import RecordArchive.Proofs.Source.PlainText

/-!
# Plain text that passes through

The lines of a text that are no objects go from a file into objects as they are, but for
what ends them: each loses its carriage returns and is followed by one line feed.  Blank
lines are left out.  The main statement is `plain_text_stored`, about every quiet run.
-/

namespace RecordArchive

namespace Passage

variable {σ : Type} [ObjectStore σ]

theorem plain_text_stored {settings : PipelineSettings} {path text : String}
    {limits : BatchLimits} {contents? : String → Option Contents} {world : World σ}
    (queueCapacity : Nat) (hcodec : settings.sink.codec = .raw messageField)
    (hfile : contents? path = some (some (Utf8.encode text))) (hbytes : 1 ≤ limits.bytes)
    (hplain : ∀ line ∈ Text.plainLines text, ∀ fields,
      Json.parse? line ≠ some (.object fields))
    (hclock : world.clock.cancelAt = none) (hserves : world.staging.Serves settings.sink.kind) :
    ∃ source, Source.start (.file path limits) contents? = .ok source ∧
      ∀ actions t, quietRun? settings actions
          { state := .start source queueCapacity (.start world) } = some t →
        (∃ more t', t.quietRun? settings more = some t' ∧
          t'.state.intake.isEnded = true ∧ t'.state.outlet.isEnded = true) ∧
        (t.state.intake.isEnded = true → t.state.outlet.isEnded = true →
          t.state.coordinator.tally.buffersLost = 0 →
            t.state.result? false = some (.ok t.state.coordinator.tally) ∧
            (world.stored t.state.coordinator.world).flatten =
              Text.written (Text.plainLines text) ∧
            t.state.coordinator.tally.eventsDropped = 0 ∧
            t.state.coordinator.tally.encodeFailures = 0) := by
  let source : Source := .lines (Bytes.lines (Utf8.encode text)) limits
  have hstart : Source.start (.file path limits) contents? = .ok source := by
    rw [Source.start, hfile]
  have hencode : ∀ line ∈ Text.plainLines text, settings.sink.codec.encode (Record.ofLine line) =
      .ok (Utf8.encode line ++ [lineFeed]) := by
    intro line hline
    rw [hcodec]
    exact Codec.encode_ofLine (Text.lineFeed_notMem_of_plainLines hline) (hplain line hline)
  have hstream : source.stream = (Text.plainLines text).map Record.ofLine := by
    have hroom : source.stalls = false := beq_eq_false_iff_ne.mpr (Nat.ne_of_gt hbytes)
    rw [Source.stream, hroom]
    exact Source.content_of_text text limits
  refine ⟨source, hstart, fun actions t hrun => ⟨?_, fun hin hout hlost => ?_⟩⟩
  · have hsource : t.state.intake.Advances := by
      refine quietRun?_invariant (fun t => t.state.intake.Advances) ?_ ?_ hrun
      · exact fun _ _ _ h _ hstep => Pipeline.advances_of_step (step_of_step? hstep).1 h
      · exact Source.advances_of_start hstart
    exact exists_quietRun? settings t hsource
  · have hcodes : ∀ record ∈ source.stream, ∃ bytes,
        settings.sink.codec.encode record = .ok bytes := by
      intro record hmem
      rw [hstream] at hmem
      obtain ⟨line, hline, rfl⟩ := List.mem_map.mp hmem
      exact ⟨_, hencode line hline⟩
    obtain ⟨hresult, hstored, hdropped, hfailures⟩ :=
      stored_of_quietRun? rfl hcodes hclock hserves hrun hin hout hlost
    refine ⟨hresult, ?_, hdropped, hfailures⟩
    have hlines : ∀ line ∈ Text.plainLines text,
        ((fun record => (settings.sink.codec.encode record).toOption) ∘ Record.ofLine) line =
          some (Utf8.encode line ++ [lineFeed]) := by
      intro line hline
      rw [Function.comp_apply, hencode line hline]
      rfl
    rw [hstored, hstream, List.filterMap_map, List.filterMap_congr hlines, Text.written,
      List.flatMap_def, List.filterMap_eq_map']

end Passage

namespace Sample

/-- A line that ends in a carriage return, a blank one, one that is no JSON at all, and one
without a line feed. -/
def mixedText : String := "ab\r\n \n\"q\\\n1"

def mixedFile : Source := .lines (Bytes.lines (Utf8.encode mixedText)) {}

def stagedPipeline : PipelineSettings := { pipeline with sink := stagedSink }

/-- The file is read in one batch before the sink's worker takes its turn. -/
def oneBatch : List Pipeline.Action := [.pull, .check, .write, .check, .write, .check, .write,
  .check, .pull, .take, .gather, .gather, .hold, .accept, .stop, .close, .finish]

end Sample

/-- The three lines go through staging files. -/
theorem Passage.plain_text_stored_mixed :
    ∃ actions t, quietRun? Sample.stagedPipeline actions (Sample.start Sample.mixedFile) = some t ∧
      (Sample.world.stored t.state.coordinator.world).flatten =
        Utf8.encode "ab\n\"q\\\n1\n" := by
  have hlines : Text.plainLines Sample.mixedText = ["ab", "\"q\\", "1"] := by decide +kernel
  have hplain : ∀ line ∈ Text.plainLines Sample.mixedText, ∀ fields,
      Json.parse? line ≠ some (.object fields) := by
    have hall : (["ab", "\"q\\", "1"].all fun line => !(Json.parse? line).any Json.isObject) =
        true := by decide +kernel
    rw [hlines]
    intro line hline fields hparse
    have hnot := List.all_eq_true.mp hall line hline
    rw [hparse] at hnot
    cases hnot
  let contents? : String → Option Contents := fun _ => some (some (Utf8.encode Sample.mixedText))
  let limits : BatchLimits := {}
  have hcodec : Sample.stagedPipeline.sink.codec = .raw messageField := rfl
  have hfile : contents? "in.log" = some (some (Utf8.encode Sample.mixedText)) := rfl
  have hbytes : 1 ≤ limits.bytes := by decide
  have hclock : Sample.world.clock.cancelAt = none := rfl
  have hserves : Sample.world.staging.Serves Sample.stagedPipeline.sink.kind :=
    fun _ => ⟨rfl, rfl⟩
  obtain ⟨source, hstart, hruns⟩ :=
    plain_text_stored 4 hcodec hfile hbytes hplain hclock hserves
  have hsource : Sample.mixedFile = source := Except.ok.inj hstart
  subst hsource
  have hends : (quietRun? Sample.stagedPipeline Sample.oneBatch
      (Sample.start Sample.mixedFile)).map (fun t => (t.state.intake.isEnded,
        t.state.outlet.isEnded, t.state.coordinator.tally.buffersLost)) = some (true, true, 0) := by
    decide +kernel
  obtain ⟨t, hrun, hended⟩ := Option.map_eq_some_iff.mp hends
  obtain ⟨hin, hrest⟩ := Prod.mk.inj hended
  obtain ⟨hout, hlost⟩ := Prod.mk.inj hrest
  obtain ⟨-, hstored, -, -⟩ := (hruns Sample.oneBatch t hrun).2 hin hout hlost
  refine ⟨Sample.oneBatch, t, hrun, ?_⟩
  rw [hstored, hlines]
  decide +kernel

end RecordArchive
