import RecordArchive.Dictionary
import RecordArchive.Store.ObjectStore

/-!
# A store in memory

Objects in a dictionary.  The store counts every put that it is asked for, and
can be told to fail the next few of them.
-/

namespace RecordArchive

structure MemoryStore where
  objects : Dictionary ObjectName Bytes := []
  putAttempts : Nat := 0
  failures : Nat := 0

namespace MemoryStore

def failNext (s : MemoryStore) (n : Nat) : MemoryStore := { s with failures := n }

def object? (s : MemoryStore) (name : ObjectName) : Option Bytes :=
  Dictionary.find? name s.objects

def keys (s : MemoryStore) (bucket : String) : List String :=
  (s.objects.filter (·.1.bucket == bucket)).map (·.1.key)

def size (s : MemoryStore) : Nat := s.objects.length

/-- Counts a put and does it, unless it is to fail or its file cannot be read. -/
def put (s : MemoryStore) (name : ObjectName) (body : Body) :
    Except StoreError Unit × MemoryStore :=
  let s := { s with putAttempts := s.putAttempts + 1 }
  if 0 < s.failures then
    (.error (.transient ("injected failure for '" ++ name.bucket ++ "/" ++ name.key ++ "'")),
      { s with failures := s.failures - 1 })
  else match body with
    | .bytes content => (.ok (), { s with objects := Dictionary.insert name content s.objects })
    | .file _ (some content) =>
      (.ok (), { s with objects := Dictionary.insert name content s.objects })
    | .file path none => (.error (.client ("reading '" ++ path ++ "': no such file")), s)

instance : ObjectStore MemoryStore where
  put s name body :=
    let (outcome, s) := s.put name body
    ⟨outcome, s, .zero⟩

end MemoryStore

end RecordArchive
