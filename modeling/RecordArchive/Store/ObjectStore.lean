import RecordArchive.Bytes
import RecordArchive.Retrier

/-!
# Object stores

A store keeps one named blob per bucket and key.  A put succeeds or fails and
takes its time; the body may be offered again, and a store that fails a put
leaves what it held under that name as it was or not at all.
-/

namespace RecordArchive

/-- What is uploaded: bytes in memory, or a file, given by its path and, when it
can be read, its contents. -/
inductive Body
  | bytes (content : Bytes)
  | file (path : String) (content : Option Bytes)
  deriving DecidableEq

namespace Body

/-- The bytes of a body, unless it is a file that cannot be read. -/
def content? : Body → Option Bytes
  | bytes content => some content
  | file _ content => content

/-- A short description for reports. -/
def describe : Body → String
  | bytes content => toString content.length ++ " in-memory bytes"
  | file path _ => "staging file '" ++ path ++ "'"

end Body

/-- The name under which an object is stored. -/
structure ObjectName where
  bucket : String
  key : String
  deriving DecidableEq, Repr

/-- Names in order of their buckets and then of their keys. -/
instance : LT ObjectName :=
  ⟨fun a b => a.bucket < b.bucket ∨ (a.bucket = b.bucket ∧ a.key < b.key)⟩

instance (a b : ObjectName) : Decidable (a < b) :=
  inferInstanceAs (Decidable (a.bucket < b.bucket ∨ (a.bucket = b.bucket ∧ a.key < b.key)))

/-- Stores to which bodies can be uploaded. -/
class ObjectStore (σ : Type) where
  put : σ → ObjectName → Body → Retrier.Attempt σ

/-- A store behind a slow connection: every put takes the same time. -/
structure Delayed (σ : Type) where
  store : σ
  latency : Duration

instance {σ : Type} [ObjectStore σ] : ObjectStore (Delayed σ) where
  put delayed name body :=
    let inner := ObjectStore.put delayed.store name body
    ⟨inner.outcome, { delayed with store := inner.state }, delayed.latency + inner.took⟩

end RecordArchive
