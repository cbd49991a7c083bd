import Mathlib.Logic.Function.Basic
import RecordArchive.Proofs.Store.Tree
import RecordArchive.Store.Directory
import RecordArchive.Store.Memory

/-!
# A directory mirrors a store in memory

Names of buckets and keys become places in a tree of files, one for each name.  As long as no
key is the directory of another, a store in a directory and one in memory answer every put
alike and keep the same objects, whatever is put, how often, and in which order.  The main
statement is `directory_mirrors_memory`.
-/

namespace RecordArchive

/-! ## The places of objects -/

namespace ObjectName

/-- The names that lead from the root of a store to an object. -/
def names (name : ObjectName) : List (List Char) :=
  name.bucket.toList :: Text.segments '/' name.key.toList

def place (name : ObjectName) : Place := name.names.map String.ofList

/-- The bucket is one name, and the key is names with slashes between them. -/
def Plain (name : ObjectName) : Prop := ∀ part ∈ name.names, Path.IsName part

/-- The object has a path, and names, that a file system has room for. -/
structure Fits (root : String) (name : ObjectName) : Prop where
  path : FileTree.checkText (DirectoryStore.objectPath root name) = .ok ()
  names : ∀ part ∈ name.names, FileTree.isTooLong (String.ofList part) = false

/-- The first object is not where the second one needs a directory. -/
def Clear (a b : ObjectName) : Prop :=
  a.bucket = b.bucket → ¬a.key.toList ++ ['/'] <+: b.key.toList

instance (name : ObjectName) : Decidable name.Plain :=
  inferInstanceAs (Decidable (∀ part ∈ name.names, Path.IsName part))

instance (a b : ObjectName) : Decidable (a.Clear b) :=
  inferInstanceAs (Decidable (a.bucket = b.bucket → ¬a.key.toList ++ ['/'] <+: b.key.toList))

variable {name a b : ObjectName}

theorem names_ne_nil (name : ObjectName) : name.names ≠ [] := List.cons_ne_nil _ _

theorem place_ne_nil (name : ObjectName) : name.place ≠ [] :=
  List.cons_ne_nil (String.ofList name.bucket.toList) _

theorem names_inj (h : a.names = b.names) : a = b := by
  obtain ⟨hbucket, hkey⟩ := List.cons.inj h
  cases a
  cases b
  rw [mk.injEq]
  exact ⟨String.toList_inj.mp hbucket, String.toList_inj.mp (Text.segments_inj hkey)⟩

theorem ofList_injective : Function.Injective String.ofList := by
  intro cs cs' h
  rw [← String.toList_ofList (l := cs), h, String.toList_ofList]

theorem place_inj (h : a.place = b.place) : a = b :=
  names_inj (List.map_injective_iff.mpr ofList_injective h)

/-- Names before the last one lead to a place above that of the object. -/
theorem leads_of_begins {front : List (List Char)} (h : front <+: name.names.dropLast) :
    front.map String.ofList <+: name.place ∧ front.map String.ofList ≠ name.place := by
  refine ⟨(h.trans ( List.dropLast_prefix _)).map String.ofList, fun heq => ?_⟩
  have hlength := congrArg List.length heq
  have hpos := List.length_pos_iff.mpr name.names_ne_nil
  have hle := h.length_le
  rw [place, List.length_map, List.length_map] at hlength
  rw [List.length_dropLast] at hle
  omega

/-- An object that stands on the way to another is where that one needs a directory. -/
theorem Clear.not_before (h : a.Clear b) (hbegins : a.place <+: b.place) : a = b := by
  obtain ⟨more, hmore⟩ := hbegins
  obtain ⟨front, back, hnames, hfront, -⟩ := List.map_eq_append_iff.mp hmore.symm
  rw [place, (List.map_injective_iff.mpr ofList_injective).eq_iff] at hfront
  rw [hfront] at hnames
  obtain ⟨hbucket, hkey⟩ := List.cons.inj hnames
  by_cases hback : back = []
  · rw [hback, List.append_nil] at hnames
    exact names_inj hnames.symm
  · exact absurd (Text.prefix_of_segments hback hkey) (h (String.toList_inj.mp hbucket.symm))

theorem Plain.key_isAbsolute (h : name.Plain) : Path.isAbsolute name.key.toList = false := by
  cases hkey : name.key.toList with
  | nil => rfl
  | cons c rest =>
    rw [Path.isAbsolute_cons, beq_eq_false_iff_ne]
    rintro rfl
    refine (h [] ?_).ne_nil rfl
    rw [names, hkey]
    exact List.mem_cons_of_mem _ (Text.nil_mem_segments_cons rest)

end ObjectName

/-- The objects after a put, which sets one if its body can be read. -/
def afterPut (objects : ObjectName → Option Bytes) (name : ObjectName) (body : Body) :
    ObjectName → Option Bytes :=
  body.content?.elim objects fun content => Function.update objects name (some content)

namespace DirectoryStore

variable {root : String} {name : ObjectName} {place : Place} {t made dug : FileTree}

section Paths

/-- The path of an object goes through the root, the bucket, and the names of the key. -/
theorem segments_objectPath (root : String) (h : name.Plain) : ∃ front,
    Text.segments '/' (objectPath root name) = front ++ Text.segments '/' name.key.toList ∧
      front.filter (fun part => !part.isEmpty && part != Path.self) =
        Path.components root.toList ++ [name.bucket.toList] := by
  have hbucket : Path.IsName name.bucket.toList := h _ List.mem_cons_self
  obtain ⟨front, hsegments, hfront⟩ := Path.segments_join
    (Path.join root.toList name.bucket.toList) h.key_isAbsolute
  refine ⟨front, hsegments, ?_⟩
  rw [hfront, Path.components_join hbucket.isAbsolute_eq_false, Path.components,
    Path.components, hbucket.segments_eq]
  refine congrArg _ (Path.filter_of_isName fun part hpart => ?_)
  rw [List.mem_singleton.mp hpart]
  exact hbucket

theorem components_objectPath (root : String) (h : name.Plain) :
    Path.components (objectPath root name) = Path.components root.toList ++ name.names := by
  obtain ⟨front, hsegments, hfront⟩ := segments_objectPath root h
  rw [Path.components, hsegments, List.filter_append, hfront, List.append_assoc,
    Path.filter_of_isName fun part hpart => h part (List.mem_cons_of_mem _ hpart)]
  rfl

theorem start_objectPath (root : String) (h : name.Plain) (t : FileTree) :
    t.start (objectPath root name) = t.start root.toList := by
  have hbucket : Path.IsName name.bucket.toList := h _ List.mem_cons_self
  rw [FileTree.start, FileTree.start, objectPath, Path.isAbsolute_join h.key_isAbsolute,
    Path.isAbsolute_join hbucket.isAbsolute_eq_false]

end Paths

/-! ## One put -/

/-- Where the root can be made, and no file stands on the way below it, the directories of an
object can be made, and its path leads to its place. -/
theorem makeParents_objectPath (hplain : name.Plain) (hfits : name.Fits root)
    (hroot : t.makeDirectories (t.start root.toList) (Path.components root.toList) =
      (.ok place, made))
    (hfree : ∀ front, front ≠ [] → front <+: name.names.dropLast →
      ∀ content, made.entry? (place ++ front.map String.ofList) ≠ some (.file content)) :
    ∃ dug, t.makeParents (objectPath root name) = (.ok (), dug) ∧ t.Digs dug ∧
      dug.walk (dug.start root.toList) (Path.components root.toList) = .ok place ∧
      dug.locate (objectPath root name) = .ok (place ++ name.place) ∧
      ∀ other, dug.entry? other = made.entry? other ∨
        ∃ front, front ≠ [] ∧ front <+: name.names.dropLast ∧
          other = place ++ front.map String.ofList := by
  have hparents : Path.parentComponents (objectPath root name) =
      Path.components root.toList ++ name.names.dropLast := by
    rw [Path.parentComponents, components_objectPath root hplain,
      List.dropLast_append_of_ne_nil name.names_ne_nil]
  have hcheck : FileTree.checkText
      (['/'].intercalate (Path.components root.toList ++ name.names.dropLast)) = .ok () := by
    refine FileTree.checkText_of_sublist (Path.sublist_of_components ?_) hfits.path
    rw [components_objectPath root hplain]
    exact (List.dropLast_sublist _).append_left _
  have hmem {part : List Char} (h : part ∈ name.names.dropLast) : part ∈ name.names :=
    (List.dropLast_sublist _).subset h
  obtain ⟨dug, hdug, hothers⟩ := FileTree.makeDirectories_names
    (fun part h => hplain part (hmem h)) (fun part h => hfits.names part (hmem h)) hfree
  have hmake := (FileTree.makeDirectories_append hroot name.names.dropLast).trans hdug
  have hdigs := t.digs_makeDirectories (t.start root.toList)
    (Path.components root.toList ++ name.names.dropLast)
  rw [hmake] at hdigs
  have hinner := made.digs_makeDirectories place name.names.dropLast
  rw [hdug] at hinner
  have hstart := hdigs.opens.start_eq root.toList
  refine ⟨dug, ?_, hdigs, ?_, ?_, hothers⟩
  · rw [FileTree.makeParents, hparents]
    simp only [hcheck, start_objectPath root hplain, hmake]
    rfl
  · rw [hstart]
    exact FileTree.walk_mono hinner.opens (FileTree.walk_makeDirectories hroot)
  · obtain ⟨front, hsegments, hfront⟩ := segments_objectPath root hplain
    rcases (Text.segments '/' name.key.toList).eq_nil_or_concat' with hnil | ⟨init, last, hkey⟩
    · exact absurd hnil (Text.segments_ne_nil '/' _)
    have hnames : name.names = (name.bucket.toList :: init) ++ [last] := by
      rw [ObjectName.names, hkey]
      rfl
    have hlast : last ∈ name.names := by simp [hnames]
    have hwalk := FileTree.walk_makeDirectories hmake
    -- The walk passes over the segments of the root that bring no name.
    have hpath : dug.walk (dug.start (objectPath root name)) (front ++ init) =
        .ok (place ++ name.names.dropLast.map String.ofList) := by
      rw [start_objectPath root hplain, hstart, ← FileTree.walk_filter, List.filter_append, hfront,
        Path.filter_of_isName fun part h => hplain part (by simp [hnames, h]), List.append_assoc]
      rw [hnames, List.dropLast_concat] at hwalk ⊢
      exact hwalk
    rw [hkey, ← List.append_assoc] at hsegments
    rw [FileTree.locate_of_walk hfits.path hsegments (hplain last hlast) (hfits.names last hlast)
      hpath, List.append_assoc, ObjectName.place, hnames, List.dropLast_concat, List.map_append]
    rfl

theorem bodyFor_of_unreadable (t : FileTree) (path : List Char) {body : Body}
    (h : body.content? = none) : ∃ e, bodyFor t path body = .error e := by
  cases body with
  | bytes content => cases h
  | file source content? =>
    cases h
    exact ⟨_, rfl⟩

/-- A body that is not the file that it is copied to is copied as it is. -/
theorem bodyFor_of_readable {path : List Char} {body : Body} {content : Bytes}
    (h : body.content? = some content) (hlocate : t.locate path = .ok place)
    (hother : ∀ source found, body = .file source found → t.resolve source.toList ≠ place) :
    bodyFor t path body = .ok content := by
  cases body with
  | bytes content' => exact congrArg Except.ok (Option.some.inj h)
  | file source found =>
    cases h
    simp only [bodyFor, hlocate]
    cases hsource : t.locate source.toList with
    | error fault => rfl
    | ok place' =>
      have hne : place' ≠ place := by
        rintro rfl
        exact hother source _ rfl (FileTree.resolve_of_locate hsource)
      simp only [if_neg hne]

/-! ## What the directory has to do with the objects -/

/-- The files of a tree are those from before and the objects, each at its place below the
root, and below the root there are only directories that an object may need. -/
structure Mirrors (root : String) (place : Place) (named : ObjectName → Prop) (before : FileTree)
    (objects : ObjectName → Option Bytes) (t : FileTree) : Prop where
  here_eq : t.here = before.here
  root_made : ∃ made, t.makeDirectories (t.start root.toList) (Path.components root.toList) =
      (.ok place, made) ∧ ∀ other, other ≠ [] →
        made.entry? (place ++ other) = t.entry? (place ++ other)
  mem : ∀ name content, objects name = some content → named name
  file_iff : ∀ other content, t.entry? other = some (.file content) ↔
    before.entry? other = some (.file content) ∨
      ∃ name, objects name = some content ∧ other = place ++ name.place
  directory : ∀ other, other ≠ [] → t.entry? (place ++ other) = some .directory →
    ∃ name, named name ∧ other <+: name.place ∧ other ≠ name.place
  located : ∀ name content, objects name = some content →
    t.locate (objectPath root name) = .ok (place ++ name.place)

section Mirrors

variable {named : ObjectName → Prop} {before : FileTree} {objects : ObjectName → Option Bytes}

/-- A root that can be made, with nothing below it, mirrors a store without objects. -/
theorem mirrors_start (named : ObjectName → Prop)
    (hroot : t.makeDirectories (t.start root.toList) (Path.components root.toList) =
      (.ok place, made))
    (hempty : ∀ other, other ≠ [] → made.entry? (place ++ other) = none) :
    Mirrors root place named t (fun _ => none) t := by
  have hdigs := t.digs_makeDirectories (t.start root.toList) (Path.components root.toList)
  rw [hroot] at hdigs
  have hbelow (other : Place) (hne : other ≠ []) : t.entry? (place ++ other) = none := by
    rcases hdigs.entry?_eq (place ++ other) with hsame | ⟨hnone, -⟩
    · rw [← hsame, hempty other hne]
    · exact hnone
  refine ⟨rfl, ⟨made, hroot, fun other hne => ?_⟩, fun name content hnone => ?_,
    fun other content => ?_, fun other hne hother => ?_, fun name content hnone => ?_⟩
  · rw [hempty other hne, hbelow other hne]
  · cases hnone
  · simp
  · rw [hbelow other hne] at hother
    cases hother
  · cases hnone

/-- Directories that lead to an object may be made. -/
theorem Mirrors.dig (h : Mirrors root place named before objects t) (hname : named name)
    (hdigs : t.Digs dug)
    (hwalk : dug.walk (dug.start root.toList) (Path.components root.toList) = .ok place)
    (hothers : ∀ other, other ≠ [] → dug.entry? (place ++ other) = t.entry? (place ++ other) ∨
      ∃ front, front <+: name.names.dropLast ∧ other = front.map String.ofList) :
    Mirrors root place named before objects dug := by
  refine ⟨hdigs.here_eq.trans h.here_eq,
    ⟨dug, FileTree.makeDirectories_of_walk hwalk, fun _ _ => rfl⟩, h.mem, fun other content => ?_,
    fun other hne hother => ?_, fun name content hobject =>
      FileTree.locate_mono hdigs.opens (h.located name content hobject)⟩
  · rw [hdigs.file_iff]
    exact h.file_iff other content
  · rcases hothers other hne with hsame | ⟨front, hbegins, rfl⟩
    · exact h.directory other hne (hsame ▸ hother)
    · exact ⟨name, hname, ObjectName.leads_of_begins hbegins⟩

/-- A file that is written at the place of an object replaces that object and no other. -/
theorem Mirrors.write (h : Mirrors root place named before objects t) (hname : named name)
    (hbefore : ∀ other, other ≠ [] → before.entry? (place ++ other) = none)
    (hclear : ∀ a, named a → name.Clear a)
    (hwalk : t.walk (t.start root.toList) (Path.components root.toList) = .ok place)
    (hlocate : t.locate (objectPath root name) = .ok (place ++ name.place)) (content : Bytes) :
    t.write (objectPath root name) content =
        .ok (t.put (place ++ name.place) (.file content)) ∧
      Mirrors root place named before (Function.update objects name (some content))
        (t.put (place ++ name.place) (.file content)) := by
  have hne : place ++ name.place ≠ [] :=
    List.append_ne_nil_of_right_ne_nil place name.place_ne_nil
  -- A directory here would lead to another object, and this one would be in its way.
  have hfree : t.entry? (place ++ name.place) ≠ some .directory := by
    intro hentry
    obtain ⟨a, ha, hbegins, hother⟩ := h.directory name.place name.place_ne_nil hentry
    exact hother (congrArg ObjectName.place ((hclear a ha).not_before hbegins))
  have hopens := FileTree.opens_put hne hfree (.file content)
  refine ⟨FileTree.write_of_locate hlocate hfree content, ?_⟩
  refine ⟨h.here_eq, ⟨_, FileTree.makeDirectories_of_walk ?_, fun _ _ => rfl⟩,
    fun a found ha => ?_, fun other found => ?_, fun other hother hentry => ?_,
    fun a found ha => ?_⟩
  · rw [hopens.start_eq]
    exact FileTree.walk_mono hopens hwalk
  · by_cases heq : a = name
    · exact heq ▸ hname
    · rw [Function.update_of_ne heq] at ha
      exact h.mem a found ha
  · rw [FileTree.entry?_put t hne]
    by_cases hhere : other = place ++ name.place
    · rw [if_pos hhere, hhere, hbefore name.place name.place_ne_nil]
      constructor
      · intro hsome
        cases hsome
        exact Or.inr ⟨name, Function.update_self .., rfl⟩
      · rintro (hnone | ⟨a, ha, hplace⟩)
        · cases hnone
        · obtain rfl := ObjectName.place_inj (List.append_cancel_left hplace)
          rw [Function.update_self] at ha
          cases ha
          rfl
    · rw [if_neg hhere, h.file_iff]
      refine or_congr_right (exists_congr fun a => and_congr_left fun hplace => ?_)
      have hdiffers : a ≠ name := by
        rintro rfl
        exact hhere hplace
      rw [Function.update_of_ne hdiffers]
  · rw [FileTree.entry?_put t hne] at hentry
    by_cases hhere : place ++ other = place ++ name.place
    · rw [if_pos hhere] at hentry
      cases hentry
    · rw [if_neg hhere] at hentry
      exact h.directory other hother hentry
  · by_cases heq : a = name
    · rw [heq]
      exact FileTree.locate_mono hopens hlocate
    · rw [Function.update_of_ne heq] at ha
      exact FileTree.locate_mono hopens (h.located a found ha)

/-- A put of a body that can be read succeeds and sets its object, and any other put fails and
leaves the objects as they are. -/
theorem Mirrors.put (h : Mirrors root place named before objects t)
    (hbefore : ∀ other, other ≠ [] → before.entry? (place ++ other) = none)
    (hnamed : ∀ a, named a → a.Plain ∧ a.Fits root)
    (hclear : ∀ a b, named a → named b → a.Clear b) (hname : named name) {body : Body}
    (hother : ∀ source found, body = .file source found →
      before.resolve source.toList ≠ place ++ name.place) :
    ∃ t', ((DirectoryStore.mk root t).put name body).2 = ⟨root, t'⟩ ∧
      ((DirectoryStore.mk root t).put name body).1.isOk = body.content?.isSome ∧
      Mirrors root place named before (afterPut objects name body) t' := by
  obtain ⟨hplain, hfits⟩ := hnamed name hname
  obtain ⟨made, hroot, hmade⟩ := h.root_made
  have hfree : ∀ front, front ≠ [] → front <+: name.names.dropLast →
      ∀ content, made.entry? (place ++ front.map String.ofList) ≠ some (.file content) := by
    intro front hne hbegins content hentry
    have hne' : front.map String.ofList ≠ [] := by simpa using hne
    rw [hmade _ hne', h.file_iff, hbefore _ hne'] at hentry
    rcases hentry with hnone | ⟨a, ha, hplace⟩
    · cases hnone
    -- The other object would be where this one needs a directory.
    have hleads := ObjectName.leads_of_begins hbegins
    rw [List.append_cancel_left hplace] at hleads
    have heq := (hclear a name (h.mem a content ha) hname).not_before hleads.1
    exact hleads.2 (congrArg ObjectName.place heq)
  obtain ⟨dug, hparents, hdigs, hwalk, hlocate, hothers⟩ :=
    makeParents_objectPath hplain hfits hroot hfree
  have hdug : Mirrors root place named before objects dug := by
    refine h.dig hname hdigs hwalk fun other hne => ?_
    rw [← hmade other hne]
    refine (hothers (place ++ other)).imp_right ?_
    rintro ⟨front, -, hbegins, heq⟩
    exact ⟨front, hbegins, List.append_cancel_left heq⟩
  cases hbody : body.content? with
  | none =>
    obtain ⟨e, he⟩ := bodyFor_of_unreadable dug (objectPath root name) hbody
    rw [afterPut, hbody]
    refine ⟨dug, ?_, ?_, hdug⟩ <;> simp only [DirectoryStore.put, hparents, he]
    rfl
  | some content =>
    obtain ⟨hwrite, hwritten⟩ := hdug.write hname hbefore (fun a ha => hclear name a hname ha)
      hwalk hlocate content
    have hbodyFor : bodyFor dug (objectPath root name) body = .ok content := by
      refine bodyFor_of_readable hbody hlocate fun source found hfile => ?_
      rw [FileTree.resolve, FileTree.start, hdug.here_eq]
      exact hother source found hfile
    rw [afterPut, hbody]
    refine ⟨dug.put (place ++ name.place) (.file content), ?_, ?_, hwritten⟩ <;>
      simp only [DirectoryStore.put, hparents, hbodyFor, hwrite]
    rfl

end Mirrors

end DirectoryStore

/-! ## Puts one after the other -/

/-- Makes puts one after the other, whether they succeed or not. -/
def ObjectStore.putAll {σ : Type} [ObjectStore σ] :
    List (ObjectName × Body) → σ → List (Except StoreError Unit) × σ
  | [], s => ([], s)
  | (name, body) :: rest, s =>
    let attempt := ObjectStore.put s name body
    let later := putAll rest attempt.state
    (attempt.outcome :: later.1, later.2)

/-- What was put last under a name, of the bodies that could be read. -/
def lastPut (name : ObjectName) : List (ObjectName × Body) → Option Bytes
  | [] => none
  | (other, body) :: rest =>
    (lastPut name rest).or (if other = name then body.content? else none)

/-- A store in memory that is told of no failures does what a put is to do. -/
theorem MemoryStore.put_of_calm {s : MemoryStore} (h : s.failures = 0) (name : ObjectName)
    (body : Body) : (s.put name body).2.failures = 0 ∧
      (s.put name body).1.isOk = body.content?.isSome ∧
      (s.put name body).2.object? = afterPut s.object? name body := by
  have hset (content : Bytes) :
      (fun other => Dictionary.find? other (Dictionary.insert name content s.objects)) =
        Function.update s.object? name (some content) := by
    funext other
    by_cases heq : other = name
    · rw [heq, Function.update_self, Dictionary.find?_insert_self]
    · rw [Function.update_of_ne heq, Dictionary.find?_insert_of_ne heq]
      rfl
  unfold MemoryStore.put
  simp only [h, Nat.lt_irrefl, if_false]
  cases body with
  | bytes content => exact ⟨rfl, rfl, hset content⟩
  | file path found =>
    cases found with
    | none => exact ⟨rfl, rfl, rfl⟩
    | some content => exact ⟨rfl, rfl, hset content⟩

/-- What is put later under a name counts for more than what is put now. -/
theorem or_lastPut_cons (objects : ObjectName → Option Bytes) (name : ObjectName) (body : Body)
    (rest : List (ObjectName × Body)) (other : ObjectName) :
    (lastPut other ((name, body) :: rest)).or (objects other) =
      (lastPut other rest).or (afterPut objects name body other) := by
  rw [lastPut, Option.or_assoc, afterPut]
  refine congrArg _ ?_
  by_cases heq : name = other
  · subst heq
    rw [if_pos rfl]
    cases body.content? with
    | none => rfl
    | some content => simp
  · rw [if_neg heq]
    cases body.content? with
    | none => rfl
    | some content => exact (Function.update_of_ne (Ne.symm heq) _ _).symm

section Runs

variable {root : String} {place : Place} {named : ObjectName → Prop} {before : FileTree}

/-- A store in a directory and one in memory that keep the same objects answer alike and keep
the same objects after any puts. -/
theorem mirrors_putAll (hbefore : ∀ other, other ≠ [] → before.entry? (place ++ other) = none)
    (hnamed : ∀ a, named a → a.Plain ∧ a.Fits root)
    (hclear : ∀ a b, named a → named b → a.Clear b) (puts : List (ObjectName × Body))
    (hputs : ∀ put ∈ puts, named put.1 ∧ ∀ source found, put.2 = .file source found →
      before.resolve source.toList ≠ place ++ put.1.place)
    {t : FileTree} {s : MemoryStore} (hcalm : s.failures = 0)
    (h : DirectoryStore.Mirrors root place named before s.object? t) :
    let directory := ObjectStore.putAll puts (DirectoryStore.mk root t)
    let memory := ObjectStore.putAll puts s
    directory.1.map Except.isOk = puts.map (fun put => put.2.content?.isSome) ∧
      memory.1.map Except.isOk = puts.map (fun put => put.2.content?.isSome) ∧
      (∀ name, memory.2.object? name = (lastPut name puts).or (s.object? name)) ∧
      DirectoryStore.Mirrors root place named before memory.2.object? directory.2.tree := by
  induction puts generalizing t s with
  | nil => exact ⟨rfl, rfl, fun _ => rfl, h⟩
  | cons put rest ih =>
    obtain ⟨name, body⟩ := put
    obtain ⟨⟨hname, hother⟩, hrest⟩ := List.forall_mem_cons.mp hputs
    obtain ⟨t', ht', hanswer, hmirrors⟩ := h.put hbefore hnamed hclear hname hother
    obtain ⟨hcalm', hanswer', hobjects⟩ := MemoryStore.put_of_calm hcalm name body
    rw [← hobjects] at hmirrors
    obtain ⟨houtcomes, houtcomes', hlast, hfinal⟩ := ih hrest hcalm' hmirrors
    simp only [ObjectStore.putAll, ObjectStore.put, ht', List.map_cons]
    refine ⟨by rw [hanswer, houtcomes], by rw [hanswer', houtcomes'], fun other => ?_, hfinal⟩
    rw [hlast, hobjects, or_lastPut_cons]

end Runs

/-- A store in a directory that can be made, and has nothing in it, does what one in memory
does.  Both take every body that can be read and no other.  Below the root the files are the
objects of the other store, which are what was put last under each name, and the path of each
object leads to it; outside of the root no file is touched.  Here no key is the directory of
another, and no file is put under its own path. -/
theorem directory_mirrors_memory {root : String} {tree made : FileTree} {place : Place}
    {puts : List (ObjectName × Body)}
    (hroot : tree.makeDirectories (tree.start root.toList) (Path.components root.toList) =
      (.ok place, made))
    (hempty : ∀ other, other ≠ [] → made.entry? (place ++ other) = none)
    (hplain : ∀ put ∈ puts, put.1.Plain) (hfits : ∀ put ∈ puts, put.1.Fits root)
    (hclear : ∀ a ∈ puts, ∀ b ∈ puts, a.1.Clear b.1)
    (hother : ∀ put ∈ puts, ∀ source found, put.2 = .file source found →
      tree.resolve source.toList ≠ place ++ put.1.place) :
    let directory := ObjectStore.putAll puts (DirectoryStore.mk root tree)
    let memory := ObjectStore.putAll puts ({} : MemoryStore)
    directory.1.map Except.isOk = puts.map (fun put => put.2.content?.isSome) ∧
      memory.1.map Except.isOk = puts.map (fun put => put.2.content?.isSome) ∧
      (∀ name, memory.2.object? name = lastPut name puts) ∧
      (∀ other, other ≠ [] → ∀ content,
        directory.2.tree.entry? (place ++ other) = some (.file content) ↔
          ∃ name, memory.2.object? name = some content ∧ other = name.place) ∧
      (∀ other, ¬place <+: other → ∀ content,
        directory.2.tree.entry? other = some (.file content) ↔
          tree.entry? other = some (.file content)) ∧
      ∀ name content, memory.2.object? name = some content →
        directory.2.tree.read (String.ofList (DirectoryStore.objectPath root name)) =
          .ok content := by
  intro directory memory
  let named (name : ObjectName) : Prop := ∃ put ∈ puts, put.1 = name
  have hstart := DirectoryStore.mirrors_start named hroot hempty
  have hbefore (other : Place) (hne : other ≠ []) : tree.entry? (place ++ other) = none := by
    obtain ⟨made', hroot', hmade'⟩ := hstart.root_made
    rw [hroot] at hroot'
    cases hroot'
    rw [← hmade' other hne, hempty other hne]
  have hnamed (a : ObjectName) (ha : named a) : a.Plain ∧ a.Fits root := by
    obtain ⟨put, hput, rfl⟩ := ha
    exact ⟨hplain put hput, hfits put hput⟩
  have hclear' (a b : ObjectName) (ha : named a) (hb : named b) : a.Clear b := by
    obtain ⟨put, hput, rfl⟩ := ha
    obtain ⟨put', hput', rfl⟩ := hb
    exact hclear put hput put' hput'
  obtain ⟨houtcomes, houtcomes', hlast, hfinal⟩ := mirrors_putAll hbefore hnamed hclear' puts
    (fun put hput => ⟨⟨put, hput, rfl⟩, hother put hput⟩) (s := {}) rfl hstart
  refine ⟨houtcomes, houtcomes', fun name => ?_, fun other hne content => ?_,
    fun other hout content => ?_, fun name content hobject => ?_⟩
  · rw [hlast]
    exact Option.or_none
  · rw [hfinal.file_iff, hbefore other hne]
    simp only [reduceCtorEq, false_or, List.append_cancel_left_eq]
    exact Iff.rfl
  · rw [hfinal.file_iff]
    refine or_iff_left ?_
    rintro ⟨name, -, rfl⟩
    exact hout (List.prefix_append place name.place)
  · have hentry := (hfinal.file_iff (place ++ name.place) content).mpr
      (Or.inr ⟨name, hobject, rfl⟩)
    refine FileTree.read_of_locate ?_ hentry
    rw [String.toList_ofList]
    exact hfinal.located name content hobject

theorem directory_mirrors_memory_four :
    let puts : List (ObjectName × Body) := [(⟨"b", "k/l"⟩, .bytes [1, 2]),
      (⟨"c", "k"⟩, .file "staged/x" (some [3])), (⟨"b", "k/l"⟩, .bytes [4]),
      (⟨"b", "m"⟩, .file "staged/y" none)]
    let directory := ObjectStore.putAll puts (DirectoryStore.mk "objects" {})
    let memory := ObjectStore.putAll puts ({} : MemoryStore)
    directory.1.map Except.isOk = [true, true, true, false] ∧
      memory.1.map Except.isOk = [true, true, true, false] ∧
      memory.2.object? ⟨"b", "k/l"⟩ = some [4] ∧
      directory.2.tree.entry? ["objects", "b", "k", "l"] = some (.file [4]) := by
  intro puts directory memory
  have hput {P : ObjectName × Body → Prop} (h₁ : P (⟨"b", "k/l"⟩, .bytes [1, 2]))
      (h₂ : P (⟨"c", "k"⟩, .file "staged/x" (some [3]))) (h₃ : P (⟨"b", "k/l"⟩, .bytes [4]))
      (h₄ : P (⟨"b", "m"⟩, .file "staged/y" none)) : ∀ put ∈ puts, P put := by
    simpa [puts] using ⟨h₁, h₂, h₃, h₄⟩
  have hfits (name : ObjectName)
      (hpath : FileTree.checkText (DirectoryStore.objectPath "objects" name) = .ok ())
      (hnames : ∀ part ∈ name.names, FileTree.isTooLong (String.ofList part) = false) :
      name.Fits "objects" := ⟨hpath, hnames⟩
  obtain ⟨houtcomes, houtcomes', hlast, hfiles, -, -⟩ := @directory_mirrors_memory
    "objects" {} (FileTree.put {} ["objects"] .directory) ["objects"] puts rfl
    (fun other hne => by
      cases other with
      | nil => exact absurd rfl hne
      | cons first rest => rfl)
    (hput (by decide) (by decide) (by decide) (by decide))
    (hput (hfits _ rfl (by decide)) (hfits _ rfl (by decide)) (hfits _ rfl (by decide))
      (hfits _ rfl (by decide)))
    (hput (hput (by decide) (by decide) (by decide) (by decide))
      (hput (by decide) (by decide) (by decide) (by decide))
      (hput (by decide) (by decide) (by decide) (by decide))
      (hput (by decide) (by decide) (by decide) (by decide)))
    (hput (by intro _ _ hfile; cases hfile) (by rintro _ _ ⟨⟩; decide)
      (by intro _ _ hfile; cases hfile) (by rintro _ _ ⟨⟩; decide))
  refine ⟨houtcomes, houtcomes', hlast ⟨"b", "k/l"⟩, ?_⟩
  exact (hfiles ["b", "k", "l"] (by decide) [4]).mpr ⟨⟨"b", "k/l"⟩, hlast ⟨"b", "k/l"⟩, rfl⟩

/-- A file that is put under its own path is emptied before it is read, and the directory then
has no bytes where the store in memory has those of the file. -/
theorem directory_empties_own_file :
    let first : List (ObjectName × Body) := [(⟨"b", "k"⟩, .bytes [120])]
    let puts := first ++ [(⟨"b", "k"⟩, .file "objects/b/k" (some [120]))]
    let directory := ObjectStore.putAll puts (DirectoryStore.mk "objects" {})
    let memory := ObjectStore.putAll puts ({} : MemoryStore)
    (∀ put ∈ puts, put.1.Plain) ∧ (∀ a ∈ puts, ∀ b ∈ puts, a.1.Clear b.1) ∧
      (ObjectStore.putAll first (DirectoryStore.mk "objects" {})).2.tree.read "objects/b/k" =
        .ok [120] ∧
      directory.1.map Except.isOk = [true, true] ∧ memory.1.map Except.isOk = [true, true] ∧
      memory.2.object? ⟨"b", "k"⟩ = some [120] ∧
      directory.2.tree.entry? ["objects", "b", "k"] = some (.file []) := by
  intro first puts directory memory
  exact ⟨by decide, by decide, rfl, rfl, rfl, rfl, rfl⟩

end RecordArchive
