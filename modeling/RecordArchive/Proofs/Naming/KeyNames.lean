import RecordArchive.Codec
import RecordArchive.Proofs.Naming.KeyParts
import RecordArchive.Proofs.Store.Descent

/-!
# Keys as paths

A key is a relative path: the rendered directories, and a file name that stands for a file and
nothing else.  A directory whose template has a token is rendered to such a name too, whatever
the time, and one without a token is what it was, so that directories lead downwards as they are
rendered if they do as they are written: `exists_descend?_rendered`.
-/

namespace RecordArchive.Naming

open RecordArchive.Path (IsName)
open Text (segments)

variable {cs body : List Char} {t : Template}

/-! ## Rendered directories -/

/-- Something is rendered for a field, which is no point. -/
theorem Pattern.exists_sign_of_parse {pattern : Pattern} (h : Pattern.parse body = .ok pattern)
    (now : Instant) : ∃ c ∈ pattern.render now, IsSign c := by
  obtain ⟨more, -, ⟨piece, hmem, hrun⟩, hrender⟩ := exists_cut_of_parse h
  cases piece with
  | quoted text => cases hrun
  | plain c => cases hrun
  | run letter count field =>
    have hsigns := field.signs_render now
    obtain ⟨c, hc⟩ := List.exists_mem_of_ne_nil _ hsigns.nonempty
    refine ⟨c, ?_, hsigns.isSign c hc⟩
    rw [hrender]
    exact List.mem_flatMap.mpr ⟨_, hmem, hc⟩

theorem isName_of_mem {text : List Char} {c : Char} (hc : c ∈ text) (hpoint : c ≠ '.')
    (hslash : '/' ∉ text) : IsName text := by
  have hne {points : List Char} (h : points.all (· = '.') = true) : text ≠ points := by
    rintro rfl
    exact hpoint (of_decide_eq_true (List.all_eq_true.mp h c hc))
  exact ⟨hne rfl, hslash, hne rfl, hne rfl⟩

/-- A template is rendered to what it was, or it was a name and is rendered to one. -/
theorem render_cases (h : readTemplate cs = .ok t) (hslash : '/' ∉ cs) (now : Instant) :
    t.render now = cs ∨ IsName cs ∧ IsName (t.render now) := by
  have hrendered := slash_notMem_render h hslash now
  rcases parse_cases (readTemplate_eq_ok_iff.mp h) with ⟨-, rfl⟩ |
    ⟨before, body, after, pattern, hone, hpattern, rfl⟩
  · exact Or.inl rfl
  · obtain ⟨c, hc, hsign⟩ := Pattern.exists_sign_of_parse hpattern now
    have hpoint : c ≠ '.' := by
      rintro rfl
      exact hsign.elim (by decide) (by decide)
    have hwhole : c ∈ Template.render ⟨cs, some ⟨before, pattern, after⟩⟩ now :=
      List.mem_append_left _ (List.mem_append_right _ hc)
    have hopening : '{' ∈ cs := by
      rw [hone.eq]
      simp
    exact Or.inr ⟨isName_of_mem hopening (by decide) hslash, isName_of_mem hwhole hpoint hrendered⟩

open FileTree (follow? descend? follow length_follow)

/-- Whether a name leads out of a directory depends on how deep it starts, and so does how deep it
leads. -/
theorem exists_follow?_rendered {text rendered : List Char} {inner inner' next : Place}
    (h : rendered = text ∨ IsName text ∧ IsName rendered)
    (hdepth : inner'.length = inner.length) (hfollow : follow? inner text = some next) :
    ∃ next', follow? inner' rendered = some next' ∧ next'.length = next.length := by
  unfold follow? at hfollow ⊢
  by_cases hout : text = Path.up ∧ inner = []
  · rw [if_pos hout] at hfollow
    cases hfollow
  rw [if_neg hout] at hfollow
  obtain rfl := Option.some.inj hfollow
  have hstays : ¬(rendered = Path.up ∧ inner' = []) := by
    rintro ⟨hup, hnil⟩
    rw [hnil, List.length_nil] at hdepth
    have hempty := List.length_eq_zero_iff.mp hdepth.symm
    rcases h with hsame | ⟨-, hname⟩
    · exact hout ⟨hsame.symm.trans hup, hempty⟩
    · exact hname.ne_up hup
  refine ⟨follow inner' rendered, if_neg hstays, ?_⟩
  rcases h with rfl | ⟨htext, hname⟩
  · rw [length_follow, length_follow, hdepth]
  · rw [FileTree.follow_of_isName htext, FileTree.follow_of_isName hname, List.length_append,
      List.length_append, hdepth]
    rfl

/-- Directories that lead downwards as they are written do so as they are rendered. -/
theorem exists_descend?_rendered {texts : List (List Char)} {directories : List Template}
    (h : List.Forall₂ (fun text directory => readTemplate text = .ok directory) texts directories)
    (htexts : ∀ text ∈ texts, '/' ∉ text) (now : Instant) {inner inner' next : Place}
    (hdepth : inner'.length = inner.length) (hdescent : descend? inner texts = some next) :
    ∃ next', descend? inner' (directories.map fun directory => directory.render now) =
      some next' := by
  induction h generalizing inner inner' with
  | nil => exact ⟨inner', rfl⟩
  | cons hread _ ih =>
    obtain ⟨hslash, hrest⟩ := List.forall_mem_cons.mp htexts
    rw [FileTree.descend?_cons] at hdescent
    obtain ⟨middle, hfirst, hdescent⟩ := Option.bind_eq_some_iff.mp hdescent
    obtain ⟨middle', hfirst', hdepth'⟩ :=
      exists_follow?_rendered (render_cases hread hslash now) hdepth hfirst
    obtain ⟨next', hnext⟩ := ih hrest hdepth' hdescent
    refine ⟨next', ?_⟩
    rw [List.map_cons, FileTree.descend?_cons, hfirst']
    exact hnext

/-! ## Keys -/

theorem extension_cases (codec : Codec) :
    extensionFor (some codec.name) = "ndjson" ∨ extensionFor (some codec.name) = "log" := by
  cases codec with
  | ndjson => exact Or.inl (by decide)
  | raw field =>
    refine Or.inr ?_
    show extensionFor (some "log") = "log"
    decide

namespace KeyNamer

variable {settings : KeySettings} {codec : Codec} {namer : KeyNamer}

theorem isName_fileName (h : ofSettings settings (some codec.name) = .ok namer) (now : Instant)
    (id : Uuid) : IsName (namer.fileName now id) := by
  obtain ⟨directories, name, -, hslash, -, hname, rfl⟩ := make_eq_ok_iff.mp h
  have hrendered := slash_notMem_render hname hslash now
  have hsuffix := slash_notMem_suffix now id
  have hextension : '/' ∉ (extensionFor (some codec.name)).toList ∧
      2 ≤ (extensionFor (some codec.name)).toList.length := by
    rcases extension_cases codec with heq | heq <;> rw [heq] <;> decide
  have hne {other : List Char} (hother : other.length ≤ 2) :
      fileName ⟨directories, name, extensionFor (some codec.name), settings.uniqueSuffix⟩ now id ≠
        other := by
    rintro rfl
    simp only [fileName, List.length_append, List.length_cons] at hother
    omega
  refine ⟨hne (Nat.zero_le _), ?_, hne (by decide), hne (by decide)⟩
  rw [fileName]
  cases settings.uniqueSuffix <;> simp [hrendered, hsuffix, hextension.1]

/-- A key is cut at its slashes into the rendered directories and the file name. -/
theorem segments_key (h : ofSettings settings (some codec.name) = .ok namer) (now : Instant)
    (id : Uuid) : segments '/' (namer.key now id).toList =
      namer.directories.map (fun directory => directory.render now) ++ [namer.fileName now id] := by
  have hfile := isName_fileName h now id
  obtain ⟨directories, name, hdirectories, -, -, -, rfl⟩ := make_eq_ok_iff.mp h
  have hparts := rendered_of_read hdirectories (fun _ htext => of_mem_directoryTexts htext) now
  rw [← Text.segments_flatMap (fun part hpart => (hparts part hpart).2) hfile.slash_notMem,
    List.flatMap_map, key, String.toList_ofList]
  rfl

theorem isAbsolute_key (h : ofSettings settings (some codec.name) = .ok namer) (now : Instant)
    (id : Uuid) : Path.isAbsolute (namer.key now id).toList = false := by
  have hfile := isName_fileName h now id
  have hsegments := segments_key h now id
  obtain ⟨directories, name, hdirectories, -, -, -, rfl⟩ := make_eq_ok_iff.mp h
  have hparts := rendered_of_read hdirectories (fun _ htext => of_mem_directoryTexts htext) now
  cases hkey : (KeyNamer.key ⟨directories, name, extensionFor (some codec.name),
      settings.uniqueSuffix⟩ now id).toList with
  | nil => rfl
  | cons c rest =>
    rw [Path.isAbsolute_cons, beq_eq_false_iff_ne]
    rintro rfl
    have hnil : [] ∈ segments '/' ('/' :: rest) := Text.nil_mem_segments_cons rest
    rw [← hkey, hsegments, List.mem_append, List.mem_singleton] at hnil
    rcases hnil with hmem | heq
    · exact (hparts [] hmem).1 rfl
    · exact hfile.ne_nil heq.symm

end KeyNamer

end RecordArchive.Naming
