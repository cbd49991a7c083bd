import RecordArchive.Settings.Archive
import RecordArchive.Store.Directory
import RecordArchive.Store.Memory

/-!
# The store that the settings name

One store of whichever kind was asked for.  A remote store is not reached from
here: every put to it fails like a put over a broken connection.
-/

namespace RecordArchive

inductive ConfiguredStore
  | memory (store : MemoryStore)
  | directory (store : DirectoryStore)
  | remote

namespace ConfiguredStore

/-- An empty store, or the directory as it is in a tree of files. -/
def make (settings : StoreSettings) (tree : FileTree) : ConfiguredStore :=
  match settings with
  | .memory => memory {}
  | .directory root => directory ⟨root, tree⟩
  | .s3 _ _ _ => remote

def put (s : ConfiguredStore) (name : ObjectName) (body : Body) :
    Except StoreError Unit × ConfiguredStore :=
  match s with
  | memory store =>
    let (outcome, store) := store.put name body
    (outcome, memory store)
  | directory store =>
    let (outcome, store) := store.put name body
    (outcome, directory store)
  | remote => (.error (.client "dispatch failure"), remote)

instance : ObjectStore ConfiguredStore where
  put s name body :=
    let (outcome, s) := s.put name body
    ⟨outcome, s, .zero⟩

/-- The tree of files that the store leaves, given the one that it found. -/
def tree (s : ConfiguredStore) (before : FileTree) : FileTree :=
  match s with
  | directory store => store.tree
  | _ => before

end ConfiguredStore

end RecordArchive
