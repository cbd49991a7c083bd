import RecordArchive.Store.FileTree
import RecordArchive.Store.ObjectStore

/-!
# A store in a directory

Objects as plain files: the object of a bucket and key is the file at the root's
path joined with the bucket and then with the key.
-/

namespace RecordArchive

structure DirectoryStore where
  root : String
  tree : FileTree

namespace DirectoryStore

def objectPath (root : String) (name : ObjectName) : List Char :=
  Path.join (Path.join root.toList name.bucket.toList) name.key.toList

def failure (path : List Char) (fault : PathFault) : StoreError :=
  .client ("'" ++ String.ofList path ++ "': " ++ fault.message)

/-- The bytes that a copy of a body to `path` leaves there.  A file copied onto
itself is emptied before it is read. -/
def bodyFor (t : FileTree) (path : List Char) : Body → Except StoreError Bytes
  | .bytes content => .ok content
  | .file source none => .error (failure source.toList .notFound)
  | .file source (some content) =>
    match t.locate source.toList, t.locate path with
    | .ok a, .ok b => if a = b then .ok [] else .ok content
    | _, _ => .ok content

def put (s : DirectoryStore) (name : ObjectName) (body : Body) :
    Except StoreError Unit × DirectoryStore :=
  let path := objectPath s.root name
  match s.tree.makeParents path with
  | (.error fault, tree) => (.error (failure path fault), { s with tree := tree })
  | (.ok (), tree) =>
    match bodyFor tree path body with
    | .error e => (.error e, { s with tree := tree })
    | .ok content =>
      match tree.write path content with
      | .error fault => (.error (failure path fault), { s with tree := tree })
      | .ok tree => (.ok (), { s with tree := tree })

instance : ObjectStore DirectoryStore where
  put s name body :=
    let (outcome, s) := s.put name body
    ⟨outcome, s, .zero⟩

end DirectoryStore

end RecordArchive
