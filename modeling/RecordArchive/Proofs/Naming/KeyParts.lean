import RecordArchive.Proofs.Naming.Rendering

/-!
# The parts of a key

What is rendered for a token has no slash, so a key is cut at its slashes where its path was, and
nowhere else.  The main statement is `key_structure`: the parts of a key are the rendered
directories and the file name, and none of them is empty.
-/

namespace RecordArchive.Naming

section Templates

variable {cs : List Char} {t : Template} {now : Instant} {c : Char}

/-- A reserved character of a rendered template was in the template. -/
theorem mem_of_mem_render (h : readTemplate cs = .ok t) (hc : c ∈ t.render now)
    (hreserved : c ∈ reserved) : c ∈ cs := by
  rcases parse_cases (readTemplate_eq_ok_iff.mp h) with ⟨-, rfl⟩ |
    ⟨before, body, after, pattern, hone, hpattern, rfl⟩
  · exact hc
  · rw [hone.eq]
    simp only [Template.render, List.mem_append] at hc
    rcases hc with (hc | hc) | hc
    · exact List.mem_append_left _ hc
    · exact absurd hreserved (Pattern.notMem_reserved_of_mem hpattern hc)
    · simp [hc]

theorem render_ne_nil_of_read (h : readTemplate cs = .ok t) (hne : cs ≠ []) (now : Instant) :
    t.render now ≠ [] := by
  rcases parse_cases (readTemplate_eq_ok_iff.mp h) with ⟨-, rfl⟩ |
    ⟨before, body, after, pattern, -, hpattern, rfl⟩
  · exact hne
  · have hpart := Pattern.render_ne_nil hpattern now
    simp [Template.render, hpart]

theorem slash_notMem_render (h : readTemplate cs = .ok t) (hslash : '/' ∉ cs) (now : Instant) :
    '/' ∉ t.render now :=
  fun hmem => hslash (mem_of_mem_render h hmem (by simp [reserved]))

end Templates

namespace KeyNamer

open Text (segments)

theorem of_mem_directoryTexts {path : String} {text : List Char}
    (h : text ∈ directoryTexts path) : text ≠ [] ∧ '/' ∉ text := by
  obtain ⟨hmem, hne⟩ := List.mem_filter.mp h
  exact ⟨by simpa using hne, Text.notMem_of_mem_segments hmem⟩

/-- What the directories of a key have of the texts that they were read from. -/
theorem rendered_of_read {texts : List (List Char)} {directories : List Template}
    (h : List.Forall₂ (fun text directory => readTemplate text = .ok directory) texts directories)
    (htexts : ∀ text ∈ texts, text ≠ [] ∧ '/' ∉ text) (now : Instant) :
    ∀ part ∈ directories.map (fun directory => directory.render now), part ≠ [] ∧ '/' ∉ part := by
  induction h with
  | nil => exact List.forall_mem_nil _
  | cons hread _ ih =>
    rw [List.forall_mem_cons] at htexts
    obtain ⟨⟨hne, hslash⟩, hmore⟩ := htexts
    rw [List.map_cons, List.forall_mem_cons]
    exact ⟨⟨render_ne_nil_of_read hread hne now, slash_notMem_render hread hslash now⟩, ih hmore⟩

theorem slash_notMem_suffix (now : Instant) (id : Uuid) : '/' ∉ suffix now id :=
  fun hmem => (isSign_of_mem_suffix now id '/' hmem).notMem_reserved (by simp [reserved])

/-- A key is cut at its slashes into the rendered directories and the file name, with or without
a suffix, of which none is empty.  So it has as many slashes as there are directories, none of
them in front and no two in a row.  What is rendered for a token is some text without reserved
characters.  A slash that adds an empty part to a path changes neither whether a namer is made
nor which. -/
theorem key_structure :
    (∀ pathPrefix namePattern codec unique namer,
      make pathPrefix namePattern codec unique = .ok namer →
      '/' ∉ (extensionFor codec).toList → ∀ now id,
      let key := (namer.key now id).toList
      let texts := (segments '/' (pathPrefix.getD "").toList).filter (! ·.isEmpty)
      (∃ directories name,
        List.Forall₂ (fun text directory => readTemplate text = .ok directory) texts directories ∧
        readTemplate namePattern.toList = .ok name ∧
        segments '/' key = directories.map (fun directory => directory.render now) ++
          [name.render now ++ (if unique then suffix now id else []) ++
            '.' :: (extensionFor codec).toList]) ∧
      [] ∉ segments '/' key ∧
      key.head? ≠ some '/' ∧ ¬ ['/', '/'] <:+: key ∧ key.count '/' = texts.length) ∧
    (∀ body pattern, Pattern.parse body = .ok pattern → ∀ now,
      pattern.render now ≠ [] ∧ ∀ c ∈ pattern.render now, c ∉ reserved) ∧
    (∀ before after,
      before = [] ∨ before.getLast? = some '/' ∨ after = [] ∨ after.head? = some '/' →
      ∀ namePattern codec unique,
        make (some (String.ofList (before ++ '/' :: after))) namePattern codec unique =
          make (some (String.ofList (before ++ after))) namePattern codec unique) := by
  refine ⟨fun pathPrefix namePattern codec unique namer h hextension now id => ?_,
    fun body pattern h now => ⟨Pattern.render_ne_nil h now,
      fun c hc => Pattern.notMem_reserved_of_mem h hc⟩, fun before after h _ _ _ => ?_⟩
  · intro key texts
    obtain ⟨directories, name, hdirectories, hslash, -, hname, rfl⟩ := make_eq_ok_iff.mp h
    have hparts := rendered_of_read hdirectories (fun _ htext => of_mem_directoryTexts htext) now
    have hfile : '/' ∉ name.render now ++ (if unique then suffix now id else []) ++
        '.' :: (extensionFor codec).toList := by
      have hrendered := slash_notMem_render hname hslash now
      have hsuffix := slash_notMem_suffix now id
      cases unique <;> simp [hrendered, hsuffix, hextension]
    have hcut : segments '/' key = directories.map (fun directory => directory.render now) ++
        [name.render now ++ (if unique then suffix now id else []) ++
          '.' :: (extensionFor codec).toList] := by
      rw [← Text.segments_flatMap (fun part hpart => (hparts part hpart).2) hfile,
        List.flatMap_map]
      simp only [key, KeyNamer.key, String.toList_ofList]
      rfl
    have hnonempty : [] ∉ segments '/' key := by
      rw [hcut, List.mem_append, List.mem_singleton]
      rintro (hmem | hnil)
      · exact (hparts [] hmem).1 rfl
      · simp at hnil
    obtain ⟨hhead, hdouble⟩ := Text.of_nil_notMem_segments hnonempty
    have hcount := Text.length_segments '/' key
    rw [hcut, List.length_append, List.length_map, ← hdirectories.length_eq] at hcount
    exact ⟨⟨directories, name, hdirectories, hname, hcut⟩, hnonempty, hhead, hdouble,
      (Nat.succ.inj hcount).symm⟩
  · simp only [make, Option.getD_some, directoryTexts_insert h]

end KeyNamer

end RecordArchive.Naming
