import RecordArchive.Pipeline
import RecordArchive.Settings.Load
import RecordArchive.Store.Configured

/-!
# A whole run

From settings and a tree of files to the totals of a run and the files that it
leaves.
-/

namespace RecordArchive

/-- What a run finds: the files, the time of day, and the sources of chance. -/
structure Surroundings where
  tree : FileTree
  epoch : Instant
  chance : Chance

namespace FileTree

/-- The contents of a file that can be opened.  A directory can be opened but not
read. -/
def contents? (t : FileTree) (path : String) : Option Contents :=
  match t.read path with
  | .ok bytes => some (some bytes)
  | .error _ => if t.isDirectory path then some none else none

end FileTree

namespace Archive

def names : PipelineNames := ⟨"ingest", "archive"⟩

/-- What the sink of a run works on. -/
def world (settings : ArchiveSettings) (s : Surroundings) (abort : Bool) : World ConfiguredStore :=
  let directory := settings.sink.staging
  { clock := { cancelAt := if abort then some .zero else none }
    epoch := s.epoch
    store := .make settings.store s.tree
    staging := { directory := directory, usable := s.tree.isDirectory directory }
    chance := s.chance }

/-- How the pipeline of a run is set up. -/
def pipeline (settings : ArchiveSettings) (sink : Sink) : PipelineSettings :=
  { sink := sink
    batchSize := max 1 settings.runtime.batchSize
    patience := settings.runtime.writeTimeout
    names := names }

/-- Runs an archive, and answers the totals and the files that are left. -/
def run (settings : ArchiveSettings) (s : Surroundings) (stop abort : Bool) :
    Except RunFault Tally × FileTree :=
  match Sink.ofSettings settings.sink with
  | .error e => (.error (.unusable e), s.tree)
  | .ok sink =>
    match Source.start settings.source s.tree.contents? with
    | .error fault => (.error (.unopened fault), s.tree)
    | .ok source =>
      let p := Pipeline.run (pipeline settings sink) source settings.runtime.queueCapacity stop
        (Coordinator.start (world settings s abort))
      ((p.result? stop).getD (.ok p.coordinator.tally), p.coordinator.world.store.tree s.tree)

end Archive

end RecordArchive
