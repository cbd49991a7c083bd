import RecordArchive.Archive
import RecordArchive.Proofs.Naming.KeyNames
import RecordArchive.Proofs.Pipeline.StoreInvariant
import RecordArchive.Proofs.Settings.Startup

/-!
# Where objects get to

The object of a bucket and key is a file below the directory of its bucket as long as the
directories of the key do not lead out of it.  What a put changes in a tree of files is then
confined: no file changes but below that directory, and elsewhere there are at most new
directories on the way to it.  The main statement is `objects_within_bucket`.
-/

namespace RecordArchive

open RecordArchive.Path (IsName)
open Text (segments)

namespace FileTree

variable {t t' before middle after : FileTree} {place other : Place}
  {names : List (List Char)} {outer inner path base part last : List Char}

/-- A place that is passed on the way to where a path leads. -/
def OnWay (t : FileTree) (path : List Char) (place : Place) : Prop :=
  ∃ front, front <+: Path.components path ∧ place = front.foldl follow (t.start path)

/-- What has changed from one tree to another is below where one path leads, or on the way there.
Unless it is below where another leads, too, it is a directory that was made. -/
structure Confined (outer inner : List Char) (before after : FileTree) : Prop where
  here_eq : after.here = before.here
  made : ∀ place, ¬Below (before.resolve inner) place →
    after.entry? place = before.entry? place ∨
      before.entry? place = none ∧ after.entry? place = some .directory
  entry?_eq : ∀ place, ¬Below (before.resolve outer) place → ¬before.OnWay outer place →
    after.entry? place = before.entry? place

theorem Confined.refl (t : FileTree) : Confined outer inner t t :=
  ⟨rfl, fun _ _ => Or.inl rfl, fun _ _ _ => rfl⟩

theorem start_congr (h : t'.here = t.here) (path : List Char) : t'.start path = t.start path := by
  rw [start, start, h]

theorem resolve_congr (h : t'.here = t.here) (path : List Char) :
    t'.resolve path = t.resolve path := by
  rw [resolve, resolve, start_congr h]

theorem onWay_congr (h : t'.here = t.here) (path : List Char) (place : Place) :
    t'.OnWay path place ↔ t.OnWay path place := by
  rw [OnWay, OnWay, start_congr h]

theorem Confined.trans (h : Confined outer inner before middle)
    (h' : Confined outer inner middle after) : Confined outer inner before after := by
  refine ⟨h'.here_eq.trans h.here_eq, fun place hout => ?_, fun place hout hway => ?_⟩
  · rcases h'.made place (by rwa [resolve_congr h.here_eq]) with hsame | ⟨hnone, hmade⟩
    · rw [hsame]
      exact h.made place hout
    · rcases h.made place hout with hsame | ⟨-, hdirectory⟩
      · exact Or.inr ⟨hsame ▸ hnone, hmade⟩
      · rw [hdirectory] at hnone
        cases hnone
  · rw [h'.entry?_eq place (by rwa [resolve_congr h.here_eq]) (by rwa [onWay_congr h.here_eq]),
      h.entry?_eq place hout hway]

/-! ## What a put changes -/

theorem confined_put_of_below (houter : Below (t.resolve outer) place)
    (hinner : Below (t.resolve inner) place) (entry : Entry) :
    Confined outer inner t (t.put place entry) := by
  have hne : place ≠ [] := by
    rintro rfl
    exact houter.2 (List.prefix_nil.mp houter.1).symm
  refine ⟨rfl, fun other hout => Or.inl ?_, fun other hout _ => ?_⟩
  · have hother : other ≠ place := fun heq => hout (heq ▸ hinner)
    rw [entry?_put t hne, if_neg hother]
  · have hother : other ≠ place := fun heq => hout (heq ▸ houter)
    rw [entry?_put t hne, if_neg hother]

/-- Directories are made where the names lead, one after the other, and nowhere else. -/
theorem exists_front_of_makeDirectories
    (h : FileTree.entry? (t.makeDirectories place names).2 other ≠ t.entry? other) :
    ∃ front, front <+: names ∧ other = front.foldl follow place := by
  induction names generalizing t place with
  | nil => exact absurd rfl h
  | cons name rest ih =>
    have hdeeper {front : List (List Char)} (hfront : front <+: rest)
        (heq : other = front.foldl follow (follow place name)) :
        ∃ front, front <+: name :: rest ∧ other = front.foldl follow place :=
      ⟨name :: front, List.cons_prefix_cons.mpr ⟨rfl, hfront⟩, heq⟩
    rcases t.makeDirectory_cases place name with ⟨inner, henter, hmake⟩ | ⟨henter, hmake⟩ |
      ⟨fault, -, -, hmake⟩
    · rw [makeDirectories_cons_of_ok hmake, (enter_cases henter).1] at h
      obtain ⟨front, hfront, heq⟩ := ih h
      exact hdeeper hfront heq
    · obtain ⟨hpassed, hup, -, -⟩ := enter_eq_notFound_iff.mp henter
      have hfollow : follow place name = place ++ [String.ofList name] := by
        rw [follow, if_neg hpassed, if_neg hup]
      by_cases hhere : other = place ++ [String.ofList name]
      · exact hdeeper (List.nil_prefix) (hhere.trans hfollow.symm)
      · have hput : FileTree.entry? (t.put (place ++ [String.ofList name]) .directory) other =
            t.entry? other := by
          rw [entry?_put t (by simp), if_neg hhere]
        rw [makeDirectories_cons_of_ok hmake, ← hput, ← hfollow] at h
        obtain ⟨front, hfront, heq⟩ := ih h
        exact hdeeper hfront heq
    · rw [makeDirectories, hmake] at h
      exact absurd rfl h

theorem makeParents_cases (t : FileTree) (path : List Char) : (t.makeParents path).2 = t ∨
    (t.makeParents path).2 = (t.makeDirectories (t.start path) (Path.parentComponents path)).2 := by
  cases hcheck : checkText (['/'].intercalate (Path.parentComponents path)) with
  | error fault =>
    refine Or.inl ?_
    simp only [makeParents, hcheck]
  | ok u =>
    refine Or.inr ?_
    simp only [makeParents, hcheck]

theorem exists_of_write {path : List Char} {content : Bytes} (h : t.write path content = .ok t') :
    ∃ place, t.locate path = .ok place ∧ t' = t.put place (.file content) := by
  unfold write at h
  cases hlocate : t.locate path with
  | error fault =>
    rw [hlocate] at h
    cases h
  | ok place =>
    refine ⟨place, rfl, ?_⟩
    rw [hlocate] at h
    cases hentry : t.entry? place with
    | none =>
      simp only [bind, Except.bind, hentry] at h
      exact (Except.ok.inj h).symm
    | some entry =>
      cases entry with
      | directory => simp [bind, Except.bind, hentry] at h
      | file old =>
        simp only [bind, Except.bind, hentry] at h
        exact (Except.ok.inj h).symm

/-! ## Paths that lead on -/

/-- A path leads on from another: the names between them lead downwards, and a last one stands
for a file. -/
def LeadsOn (outer path : List Char) : Prop :=
  Path.isAbsolute path = Path.isAbsolute outer ∧ ∃ names last deeper,
    Path.components path = Path.components outer ++ (names ++ [last]) ∧ IsName last ∧
      descend? [] names = some deeper

theorem components_of_segments (hsegments : segments '/' part = names ++ [last])
    (hlast : IsName last) : Path.components part =
      names.filter (fun name => !name.isEmpty && name != Path.self) ++ [last] := by
  rw [Path.components, hsegments, List.filter_append,
    Path.filter_of_isName (List.forall_mem_singleton.mpr hlast)]

theorem leadsOn_join {deeper : Place} (hpart : Path.isAbsolute part = false)
    (hsegments : segments '/' part = names ++ [last]) (hlast : IsName last)
    (hdeeper : descend? [] names = some deeper) (base : List Char) :
    LeadsOn base (Path.join base part) := by
  refine ⟨Path.isAbsolute_join hpart, _, last, deeper, ?_, hlast,
    (descend?_filter [] names).trans hdeeper⟩
  rw [Path.components_join hpart, components_of_segments hsegments hlast]

theorem leadsOn_join_join {place deeper : Place} (hbase : Path.isAbsolute base = false)
    (hplace : descend? [] (segments '/' base) = some place) (hpart : Path.isAbsolute part = false)
    (hsegments : segments '/' part = names ++ [last]) (hlast : IsName last)
    (hdeeper : descend? place names = some deeper) (outer : List Char) :
    LeadsOn outer (Path.join (Path.join outer base) part) := by
  refine ⟨(Path.isAbsolute_join hpart).trans (Path.isAbsolute_join hbase), Path.components base ++
    names.filter (fun name => !name.isEmpty && name != Path.self), last, deeper, ?_, hlast, ?_⟩
  · rw [Path.components_join hpart, Path.components_join hbase,
      components_of_segments hsegments hlast]
    simp only [List.append_assoc]
  · rw [descend?_append, Path.components, descend?_filter, hplace]
    exact (descend?_filter place names).trans hdeeper

theorem resolve_eq_foldl_components (t : FileTree) (path : List Char) :
    t.resolve path = (Path.components path).foldl follow (t.start path) := by
  rw [Path.components, foldl_follow_filter]
  rfl

namespace LeadsOn

theorem start_eq (h : LeadsOn outer path) (t : FileTree) : t.start path = t.start outer := by
  rw [start, start, h.1]

theorem below (h : LeadsOn outer path) (t : FileTree) :
    Below (t.resolve outer) (t.resolve path) := by
  have hstart := h.start_eq t
  obtain ⟨-, names, last, deeper, hcomponents, hlast, hdeeper⟩ := h
  have hnames := foldl_follow_of_descend? hdeeper (t.resolve outer)
  rw [List.append_nil] at hnames
  rw [t.resolve_eq_foldl_components path, hcomponents, hstart, List.foldl_append,
    List.foldl_append, ← resolve_eq_foldl_components, hnames, List.foldl_cons, List.foldl_nil,
    follow_of_isName hlast, below_concat_iff]
  exact List.prefix_append _ _

/-- The directories that the file needs are on the way to the first path or below it. -/
theorem onWay_or_below (h : LeadsOn outer path) (t : FileTree) {front : List (List Char)}
    (hfront : front <+: Path.parentComponents path) :
    t.OnWay outer (front.foldl follow (t.start outer)) ∨
      Below (t.resolve outer) (front.foldl follow (t.start outer)) := by
  obtain ⟨-, names, last, deeper, hcomponents, -, hdeeper⟩ := h
  have hparents : Path.parentComponents path = Path.components outer ++ names := by
    rw [Path.parentComponents, hcomponents, ← List.append_assoc, List.dropLast_concat]
  rw [hparents] at hfront
  rcases List.prefix_or_prefix_of_prefix hfront (List.prefix_append _ _) with hway | ⟨more, rfl⟩
  · exact Or.inl ⟨front, hway, rfl⟩
  · obtain ⟨reached, hreached⟩ := exists_descend?_of_prefix hdeeper
      ((List.prefix_append_right_inj _).mp hfront)
    have hmore := foldl_follow_of_descend? hreached (t.resolve outer)
    rw [List.append_nil] at hmore
    rw [List.foldl_append, ← resolve_eq_foldl_components, hmore]
    by_cases hnil : reached = []
    · refine Or.inl ⟨Path.components outer, List.prefix_rfl, ?_⟩
      rw [hnil, List.append_nil, resolve_eq_foldl_components]
    · exact Or.inr ((below_append_iff _ _).mpr hnil)

theorem confined_makeParents (h : LeadsOn outer path) (inner : List Char) (t : FileTree) :
    Confined outer inner t (t.makeParents path).2 := by
  rcases t.makeParents_cases path with hsame | hmade
  · rw [hsame]
    exact .refl t
  · have hdigs := t.digs_makeDirectories (t.start path) (Path.parentComponents path)
    rw [hmade]
    refine ⟨hdigs.here_eq, fun place _ => hdigs.entry?_eq place, fun place hout hway => ?_⟩
    by_contra hchanged
    obtain ⟨front, hfront, rfl⟩ := exists_front_of_makeDirectories hchanged
    rw [h.start_eq] at hout hway
    exact (h.onWay_or_below t hfront).elim hway hout

end LeadsOn

end FileTree

namespace DirectoryStore

/-- A put makes directories, and then it writes one file or none. -/
theorem put_cases (s : DirectoryStore) (name : ObjectName) (body : Body) :
    (s.put name body).2.root = s.root ∧ ∃ dug,
      (s.tree.makeParents (objectPath s.root name)).2 = dug ∧
        ((s.put name body).2.tree = dug ∨ ∃ place content,
          dug.locate (objectPath s.root name) = .ok place ∧
            (s.put name body).2.tree = dug.put place (.file content)) := by
  cases hmake : s.tree.makeParents (objectPath s.root name) with
  | mk outcome dug =>
    cases outcome with
    | error fault => simp [put, hmake]
    | ok u =>
      cases hbody : bodyFor dug (objectPath s.root name) body with
      | error e => simp [put, hmake, hbody]
      | ok content =>
        cases hwrite : dug.write (objectPath s.root name) content with
        | error fault => simp [put, hmake, hbody, hwrite]
        | ok written =>
          obtain ⟨place, hlocate, hput⟩ := FileTree.exists_of_write hwrite
          simp only [put, hmake, hbody, hwrite, true_and]
          exact ⟨dug, rfl, Or.inr ⟨place, content, hlocate, hput⟩⟩

/-- A put of an object whose path leads on from another changes no file but its own. -/
theorem confined_put {name : ObjectName} {outer inner : List Char} (s : DirectoryStore)
    (houter : FileTree.LeadsOn outer (objectPath s.root name))
    (hinner : ∀ t : FileTree,
      FileTree.Below (t.resolve inner) (t.resolve (objectPath s.root name)))
    (body : Body) : FileTree.Confined outer inner s.tree (s.put name body).2.tree := by
  have hdug := houter.confined_makeParents inner s.tree
  obtain ⟨-, dug, hmakes, hput⟩ := s.put_cases name body
  rw [hmakes] at hdug
  rcases hput with hmade | ⟨place, content, hlocate, hwritten⟩
  · rw [hmade]
    exact hdug
  · rw [hwritten]
    have hfile := hinner dug
    have hbelow := houter.below dug
    rw [FileTree.resolve_of_locate hlocate] at hfile hbelow
    exact hdug.trans (FileTree.confined_put_of_below hbelow hfile (.file content))

end DirectoryStore

/-! ## Sinks and runs -/

theorem ConfiguredStore.put_directory (store : DirectoryStore) (name : ObjectName) (body : Body) :
    (ObjectStore.put (directory store) name body).state = directory (store.put name body).2 :=
  rfl

namespace Sink

open FileTree (Below descend? Confined LeadsOn)

variable {settings : SinkSettings} {sink : Sink} {inner : Place} {root : String}

/-- The path of the sink's bucket in a directory. -/
def directory (sink : Sink) (dir : String) : List Char := Path.join dir.toList sink.bucket.toList

/-- The name of an object that is put at some moment. -/
def object (sink : Sink) (now : Instant) (id : Naming.Uuid) : ObjectName :=
  ⟨sink.bucket, sink.namer.key now id⟩

theorem keys_of_ofSettings (h : Sink.ofSettings settings = .ok sink) :
    sink.bucket = settings.bucket ∧
      Naming.KeyNamer.ofSettings settings.keys (some settings.codec.name) = .ok sink.namer := by
  unfold Sink.ofSettings at h
  simp only [bind, Except.bind, pure, Except.pure] at h
  split at h
  · cases h
  · split at h
    · cases h
    · rename_i hnamer
      split at h
      · cases h
      · rw [← Except.ok.inj h]
        exact ⟨rfl, hnamer⟩

/-- The directories of a key made at some moment lead from the bucket back into it, and not out
of the root on the way. -/
def Returns (sink : Sink) (inner : Place) (now : Instant) : Prop :=
  ∃ deeper, descend? inner (sink.namer.directories.map fun directory => directory.render now) =
    some deeper ∧ inner <+: deeper

theorem below_directory_iff (h : Sink.ofSettings settings = .ok sink)
    (hrelative : Path.isAbsolute sink.bucket.toList = false)
    (hinner : descend? [] (segments '/' sink.bucket.toList) = some inner) (now : Instant)
    (id : Naming.Uuid) :
    (∀ (t : FileTree) (dir : String), Below (t.resolve (sink.directory dir))
      (t.resolve (DirectoryStore.objectPath dir (sink.object now id)))) ↔
      sink.Returns inner now := by
  have hnamer := (keys_of_ofSettings h).2
  exact FileTree.below_join_iff hrelative hinner (Naming.KeyNamer.isAbsolute_key hnamer now id)
    (Naming.KeyNamer.segments_key hnamer now id) (Naming.KeyNamer.isName_fileName hnamer now id)

/-- From whatever bucket, objects lead on if the directories of their keys lead downwards. -/
theorem leadsOn_directory (h : Sink.ofSettings settings = .ok sink) {now : Instant}
    (hreturns : sink.Returns [] now) (dir : String) (id : Naming.Uuid) :
    LeadsOn (sink.directory dir) (DirectoryStore.objectPath dir (sink.object now id)) := by
  have hnamer := (keys_of_ofSettings h).2
  obtain ⟨deeper, hdeeper, -⟩ := hreturns
  exact FileTree.leadsOn_join (Naming.KeyNamer.isAbsolute_key hnamer now id)
    (Naming.KeyNamer.segments_key hnamer now id) (Naming.KeyNamer.isName_fileName hnamer now id)
    hdeeper _

theorem leadsOn_root (h : Sink.ofSettings settings = .ok sink)
    (hrelative : Path.isAbsolute sink.bucket.toList = false)
    (hinner : descend? [] (segments '/' sink.bucket.toList) = some inner) {now : Instant}
    (hreturns : sink.Returns inner now) (dir : String) (id : Naming.Uuid) :
    LeadsOn dir.toList (DirectoryStore.objectPath dir (sink.object now id)) := by
  have hnamer := (keys_of_ofSettings h).2
  obtain ⟨deeper, hdeeper, -⟩ := hreturns
  exact FileTree.leadsOn_join_join hrelative hinner (Naming.KeyNamer.isAbsolute_key hnamer now id)
    (Naming.KeyNamer.segments_key hnamer now id) (Naming.KeyNamer.isName_fileName hnamer now id)
    hdeeper _

/-- A prefix that does not lead out of where it starts, as it is written, never does. -/
theorem returns_of_descends (h : Sink.ofSettings settings = .ok sink)
    (hdescends : (descend? []
      (Naming.KeyNamer.directoryTexts (settings.keys.pathPrefix.getD ""))).isSome = true)
    (inner : Place) (now : Instant) : sink.Returns inner now := by
  obtain ⟨written, hwritten⟩ := Option.isSome_iff_exists.mp hdescends
  obtain ⟨directories, name, hdirectories, -, -, -, hnamer⟩ :=
    Naming.KeyNamer.make_eq_ok_iff.mp (keys_of_ofSettings h).2
  have htexts : ∀ text ∈ Naming.KeyNamer.directoryTexts (settings.keys.pathPrefix.getD ""),
      '/' ∉ text := fun text htext => (Naming.KeyNamer.of_mem_directoryTexts htext).2
  obtain ⟨rendered, hrendered⟩ :=
    Naming.exists_descend?_rendered hdirectories htexts now (Eq.refl ([] : Place).length) hwritten
  have hdeeper := FileTree.descend?_of_descend? hrendered inner
  rw [List.append_nil] at hdeeper
  rw [Returns, ← hnamer]
  exact ⟨inner ++ rendered, hdeeper, List.prefix_append inner rendered⟩

/-- Whatever a put of the sink changes is confined, by paths that depend on the directory of the
store. -/
def Confines (sink : Sink) (outer inner : String → List Char) (now : Instant) : Prop :=
  ∀ (s : DirectoryStore) id body, Confined (outer s.root) (inner s.root) s.tree
    (s.put (sink.object now id) body).2.tree

theorem confines_directory (h : Sink.ofSettings settings = .ok sink) {now : Instant}
    (hreturns : sink.Returns [] now) : sink.Confines sink.directory sink.directory now := by
  intro s id body
  have hleads := leadsOn_directory h hreturns s.root id
  exact s.confined_put hleads hleads.below body

theorem confines_root (h : Sink.ofSettings settings = .ok sink)
    (hrelative : Path.isAbsolute sink.bucket.toList = false)
    (hinner : descend? [] (segments '/' sink.bucket.toList) = some inner) {now : Instant}
    (hreturns : sink.Returns inner now) : sink.Confines String.toList sink.directory now := by
  intro s id body
  have hbelow := (below_directory_iff h hrelative hinner now id).mpr hreturns
  exact s.confined_put (leadsOn_root h hrelative hinner hreturns s.root id) (hbelow · s.root) body

/-- What confines each put confines them all, however many there are. -/
theorem preserves_confined {outer inner : String → List Char}
    (h : ∀ now, sink.Confines outer inner now) (root : String) (before : FileTree) :
    sink.Preserves fun store => ∃ tree, store = ConfiguredStore.directory ⟨root, tree⟩ ∧
      Confined (outer root) (inner root) before tree := by
  intro store now id body hstore
  obtain ⟨tree, rfl, hbefore⟩ := hstore
  have hput := h now ⟨root, tree⟩ id body
  have hroot := (DirectoryStore.put_cases ⟨root, tree⟩ (sink.object now id) body).1
  rw [ConfiguredStore.put_directory]
  show ∃ after, ConfiguredStore.directory
    (DirectoryStore.put ⟨root, tree⟩ (sink.object now id) body).2 = .directory ⟨root, after⟩ ∧
      Confined (outer root) (inner root) before after
  generalize (DirectoryStore.put ⟨root, tree⟩ (sink.object now id) body).2 = after
    at hput hroot ⊢
  cases after with
  | mk root' tree' =>
    cases hroot
    exact ⟨tree', rfl, hbefore.trans hput⟩

end Sink

/-- What confines the puts of a sink confines a run. -/
theorem Archive.confined_run {settings : ArchiveSettings} {sink : Sink} {root : String}
    {outer inner : String → List Char} (hsink : Sink.ofSettings settings.sink = .ok sink)
    (hstore : settings.store = .directory root) (hputs : ∀ now, sink.Confines outer inner now)
    (s : Surroundings) (stop abort : Bool) :
    FileTree.Confined (outer root) (inner root) s.tree (run settings s stop abort).2 := by
  unfold run
  rw [hsink]
  simp only
  cases hstart : Source.start settings.source s.tree.contents? with
  | error fault => exact .refl s.tree
  | ok source =>
    obtain ⟨actions, t, hrun, hstate⟩ := Passage.exists_run?_run (pipeline settings sink) source
      settings.runtime.queueCapacity stop (.start (world settings s abort))
    have hbegin : (world settings s abort).store = .directory ⟨root, s.tree⟩ := by
      rw [world, hstore]
      rfl
    have hkeeps : (pipeline settings sink).sink.Preserves _ :=
      Sink.preserves_confined hputs root s.tree
    obtain ⟨tree, htree, hconfined⟩ :=
      Passage.store_run? hkeeps ⟨s.tree, hbegin, .refl s.tree⟩ hrun
    show FileTree.Confined _ _ s.tree
      ((Pipeline.run (pipeline settings sink) source settings.runtime.queueCapacity stop
        (.start (world settings s abort))).coordinator.world.store.tree s.tree)
    rw [← hstate, htree]
    exact hconfined

/-- The bucket of settings that pass is below the root of the store, wherever that is, if its
name is a relative path that leads down, and only then.  In whatever bucket the objects stay at
any time if the path of their keys as it is written leads nowhere above where it starts, as one
without `..` never does, and then puts and runs change nothing but below the bucket and on the way
there.  Other paths of keys keep the objects of a moment in a bucket that is below the root,
wherever that is, if they lead back into it without leading out of the root, and only then.  Then
puts and runs change nothing but below the root and on the way there, and files below the bucket
alone. -/
theorem objects_within_bucket {settings : ArchiveSettings} {root : String}
    (hvalid : settings.validate = .ok ()) (hstore : settings.store = .directory root) :
    ∃ sink, Sink.ofSettings settings.sink = .ok sink ∧ sink.bucket = settings.sink.bucket ∧
      ((∀ (t : FileTree) (dir : String),
          FileTree.Below (t.resolve dir.toList) (t.resolve (sink.directory dir))) ↔
        Path.isAbsolute sink.bucket.toList = false ∧
          ∃ inner, FileTree.descend? [] (segments '/' sink.bucket.toList) = some inner ∧
            inner ≠ []) ∧
      (Path.up ∉ Naming.KeyNamer.directoryTexts (settings.sink.keys.pathPrefix.getD "") →
        (FileTree.descend? [] (Naming.KeyNamer.directoryTexts
          (settings.sink.keys.pathPrefix.getD ""))).isSome = true) ∧
      ((FileTree.descend? [] (Naming.KeyNamer.directoryTexts
          (settings.sink.keys.pathPrefix.getD ""))).isSome = true →
        (∀ (t : FileTree) dir now id, FileTree.Below (t.resolve (sink.directory dir))
          (t.resolve (DirectoryStore.objectPath dir (sink.object now id)))) ∧
        (∀ now, sink.Confines sink.directory sink.directory now) ∧
        ∀ s stop abort, FileTree.Confined (sink.directory root) (sink.directory root) s.tree
          (Archive.run settings s stop abort).2) ∧
      ∀ inner, Path.isAbsolute sink.bucket.toList = false →
        FileTree.descend? [] (segments '/' sink.bucket.toList) = some inner →
        (∀ now id, (∀ (t : FileTree) dir, FileTree.Below (t.resolve (sink.directory dir))
            (t.resolve (DirectoryStore.objectPath dir (sink.object now id)))) ↔
          sink.Returns inner now) ∧
        (∀ now, sink.Returns inner now → sink.Confines String.toList sink.directory now) ∧
        ((∀ now, sink.Returns inner now) → ∀ s stop abort,
          FileTree.Confined root.toList (sink.directory root) s.tree
            (Archive.run settings s stop abort).2) := by
  obtain ⟨⟨sink, hsink⟩, -⟩ := ArchiveSettings.validate_eq_ok_iff.mp hvalid
  refine ⟨sink, hsink, (Sink.keys_of_ofSettings hsink).1, FileTree.below_iff,
    fun hup => FileTree.isSome_descend?_of_notMem hup [], fun hwritten => ?_,
    fun inner hrelative hinner => ⟨?_, ?_, ?_⟩⟩
  · have hreturns := Sink.returns_of_descends hsink hwritten []
    have hputs (now : Instant) := Sink.confines_directory hsink (hreturns now)
    exact ⟨fun t dir now id => (Sink.leadsOn_directory hsink (hreturns now) dir id).below t, hputs,
      Archive.confined_run hsink hstore hputs⟩
  · exact Sink.below_directory_iff hsink hrelative hinner
  · intro now hreturns
    exact Sink.confines_root hsink hrelative hinner hreturns
  · intro hreturns
    have hputs (now : Instant) := Sink.confines_root hsink hrelative hinner (hreturns now)
    exact Archive.confined_run hsink hstore hputs

/-- Settings for a directory, without what makes keys differ. -/
def Sample.keptIn (bucket path : String) : ArchiveSettings :=
  { source := .listed ["a"] {}
    sink :=
      { bucket := bucket
        keys := ⟨some path, "part", false⟩
        limits := { collectSeconds := 60 } }
    store := .directory "/data" }

/-- A path that goes up no further than it went down before keeps all objects in their bucket,
whatever the year. -/
theorem objects_within_bucket_yearly :
    let settings := Sample.keptIn "archive" "a/../%\x7byyyy\x7d"
    settings.validate = .ok () ∧ settings.store = .directory "/data" ∧
      ∃ sink, Sink.ofSettings settings.sink = .ok sink ∧
        (∀ (t : FileTree) (dir : String),
          FileTree.Below (t.resolve dir.toList) (t.resolve (sink.directory dir))) ∧
        (∀ (t : FileTree) dir now id, FileTree.Below (t.resolve (sink.directory dir))
          (t.resolve (DirectoryStore.objectPath dir (sink.object now id)))) ∧
        ∀ s stop abort, FileTree.Confined (sink.directory "/data") (sink.directory "/data") s.tree
          (Archive.run settings s stop abort).2 := by
  intro settings
  have hvalid : settings.validate = .ok () :=
    ArchiveSettings.validate_of_isOk (by decide +kernel)
  have hstore : settings.store = .directory "/data" := rfl
  obtain ⟨sink, hsink, hbucket, hroot, -, hwritten, -⟩ := objects_within_bucket hvalid hstore
  obtain ⟨hpaths, -, hruns⟩ := hwritten (by decide)
  refine ⟨hvalid, hstore, sink, hsink, hroot.mpr ⟨?_, ["archive"], ?_, by decide⟩, hpaths, hruns⟩
  · rw [hbucket]
    decide
  · rw [hbucket]
    decide

/-- Settings pass with a path that leads out of the bucket, and with a bucket above the root. -/
theorem objects_outside_bucket :
    let up := Sample.keptIn "archive" ".."
    let above := Sample.keptIn ".." "a"
    up.validate = .ok () ∧ above.validate = .ok () ∧
      (∃ sink, Sink.ofSettings up.sink = .ok sink ∧ ∀ now id (t : FileTree),
        t.resolve (sink.directory "/data") = ["data", "archive"] ∧
          t.resolve (DirectoryStore.objectPath "/data" (sink.object now id)) =
            ["data", "part.ndjson"] ∧
          ¬FileTree.Below ["data", "archive"] ["data", "part.ndjson"]) ∧
      (∀ t : FileTree, t.resolve "/data".toList = ["data"] ∧
        t.resolve (Path.join "/data".toList above.sink.bucket.toList) = [] ∧
        ¬FileTree.Below ["data"] []) := by
  intro up above
  have hvalid (settings : ArchiveSettings) (h : settings.validate.isOk = true) :=
    ArchiveSettings.validate_of_isOk h
  have hresolve {path : List Char} (h : Path.isAbsolute path = true) (t : FileTree) :
      t.resolve path = (segments '/' path).foldl FileTree.follow [] := by
    rw [FileTree.resolve, FileTree.start, if_pos h]
  have hup := hvalid up (by decide +kernel)
  obtain ⟨⟨sink, hsink⟩, -⟩ := ArchiveSettings.validate_eq_ok_iff.mp hup
  obtain ⟨hbucket, hnamer⟩ := Sink.keys_of_ofSettings hsink
  have hmade : Naming.KeyNamer.ofSettings up.sink.keys (some up.sink.codec.name) =
      .ok ⟨[⟨"..".toList, none⟩], ⟨"part".toList, none⟩, "ndjson", false⟩ := by decide
  rw [hmade] at hnamer
  have hkey (now : Instant) (id : Naming.Uuid) :
      (sink.namer.key now id).toList = "../part.ndjson".toList := by
    rw [← Except.ok.inj hnamer, Naming.KeyNamer.key, String.toList_ofList]
    rfl
  refine ⟨hup, hvalid above (by decide +kernel), ⟨sink, hsink, fun now id t => ⟨?_, ?_, by decide⟩⟩,
    fun t => ⟨?_, ?_, by decide⟩⟩
  · rw [Sink.directory, hbucket, hresolve (by decide)]
    decide
  · rw [DirectoryStore.objectPath, Sink.object, hbucket, hkey]
    show t.resolve (Path.join (Path.join "/data".toList "archive".toList)
      "../part.ndjson".toList) = ["data", "part.ndjson"]
    rw [hresolve (by decide)]
    decide
  · rw [hresolve (by decide)]
    decide
  · rw [hresolve (by decide)]
    decide

end RecordArchive
