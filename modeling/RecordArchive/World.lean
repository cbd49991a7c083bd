import RecordArchive.Buffer
import RecordArchive.Naming.Uuid
import RecordArchive.Store.ObjectStore
import RecordArchive.Time.Instant

/-!
# What a sink works on

The clock, the object store with a record of every put that reached it, the
staging files, and the sources of chance.  Uploading a buffer changes these and
nothing else.
-/

namespace RecordArchive

/-- Where random numbers come from. -/
structure Chance where
  fractions : Fractions
  ids : Nat → Naming.Uuid

/-- A put that reached the store. -/
structure Put where
  name : ObjectName
  body : Body
  outcome : Except StoreError Unit

structure World (σ : Type) where
  clock : Clock
  /-- The time of day when the clock showed zero. -/
  epoch : Instant
  store : σ
  /-- The puts, the last one first. -/
  puts : List Put := []
  staging : Staging
  chance : Chance
  fractionsDrawn : Nat := 0
  idsDrawn : Nat := 0

namespace World

variable {σ : Type}

def instant (w : World σ) : Instant := w.epoch.after w.clock.now

def onClock (change : Clock → Clock) (w : World σ) : World σ :=
  { w with clock := change w.clock }

/-- The world with so many bytes left on the disk, or with enough of them. -/
def withRoom (room : Option Nat) (w : World σ) : World σ :=
  { w with staging := { w.staging with room := room } }

def drawId (w : World σ) : Naming.Uuid × World σ :=
  (w.chance.ids w.idsDrawn, { w with idsDrawn := w.idsDrawn + 1 })

variable [ObjectStore σ]

/-- What an upload changes. -/
abbrev Uploading (σ : Type) := σ × List Put

/-- Offers a body to the store once and records that. -/
def offer (name : ObjectName) (body : Body) (u : Uploading σ) : Retrier.Attempt (Uploading σ) :=
  let attempt := ObjectStore.put u.1 name body
  ⟨attempt.outcome, (attempt.state, ⟨name, body, attempt.outcome⟩ :: u.2), attempt.took⟩

/-- Offers a body to the store as often as the retrier allows. -/
def upload (w : World σ) (retrier : Retrier) (name : ObjectName) (body : Body) :
    Except ArchiveError Bool × World σ :=
  let (verdict, p) := retrier.run w.chance.fractions (offer name body) w.clock w.fractionsDrawn
    (w.store, w.puts)
  (verdict.uploaded name.key,
    { w with clock := p.clock, store := p.state.1, puts := p.state.2, fractionsDrawn := p.drawn })

/-- The body that uploads a buffer. -/
def bodyOf (w : World σ) (b : Buffer) : Body :=
  match b.holding with
  | .memory reversed => .bytes reversed.reverse.flatten
  | .staged writer => .file (w.staging.path writer.file) (w.staging.content? writer.file)

/-- Uploads a buffer and releases it.  A buffer that cannot be finished is lost
without a put. -/
def flush (w : World σ) (retrier : Retrier) (name : ObjectName) (b : Buffer) :
    Except ArchiveError Bool × World σ :=
  let (finished, staging) := b.finish w.staging
  let w := { w with staging := staging }
  let (outcome, w) : Except ArchiveError Bool × World σ := match finished with
    | .error _ => (.ok false, w)
    | .ok () => w.upload retrier name (w.bodyOf b)
  (outcome, { w with staging := b.discard w.staging })

end World

end RecordArchive
