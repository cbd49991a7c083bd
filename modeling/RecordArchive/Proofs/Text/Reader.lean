import RecordArchive.Text.Reader

/-!
# What readers yield

A reader yields values with a property if all that it reads has it, whatever text it is
given.  Each way to put readers together keeps such properties.
-/

namespace RecordArchive.Text.Reader

variable {α β : Type} {r s : Reader α} {P Q : α → Prop}

def Yields (r : Reader α) (P : α → Prop) : Prop := ∀ cs a rest, r cs = some (a, rest) → P a

theorem yields_trivial (r : Reader α) : r.Yields fun _ => True := fun _ _ _ _ => trivial

theorem yields_pure {a : α} (h : P a) : (pure a : Reader α).Yields P := by
  intro cs b rest hread
  obtain ⟨rfl, -⟩ := Prod.mk.inj (Option.some.inj hread)
  exact h

theorem yields_failure : (failure : Reader α).Yields P := fun _ _ _ hread => nomatch hread

theorem yields_bind {R : β → Prop} {f : α → Reader β} (h : r.Yields P)
    (hf : ∀ a, P a → (f a).Yields R) : (r >>= f).Yields R := by
  intro cs b rest hread
  obtain ⟨⟨a, between⟩, hfirst, hsecond⟩ := Option.bind_eq_some_iff.mp hread
  exact hf a (h cs a between hfirst) between b rest hsecond

/-- What was read before does not matter. -/
theorem yields_after {R : β → Prop} {f : α → Reader β} (hf : ∀ a, (f a).Yields R) :
    (r >>= f).Yields R :=
  yields_bind (yields_trivial r) fun a _ => hf a

theorem yields_lift {found : Option α} (h : ∀ a, found = some a → P a) :
    (liftM found : Reader α).Yields P := by
  intro cs a rest hread
  obtain ⟨b, hfound, hpure⟩ := Option.bind_eq_some_iff.mp hread
  obtain ⟨rfl, -⟩ := Prod.mk.inj (Option.some.inj hpure)
  exact h _ hfound

theorem yields_foldlM {f : α → β → Reader α} {items : List β} {start : α} (hstart : P start)
    (hstep : ∀ item ∈ items, ∀ a, P a → (f a item).Yields P) :
    (items.foldlM f start).Yields P := by
  induction items generalizing start with
  | nil => exact yields_pure hstart
  | cons item rest ih =>
    obtain ⟨hitem, hrest⟩ := List.forall_mem_cons.mp hstep
    rw [List.foldlM_cons]
    exact yields_bind (hitem start hstart) fun _ hnext => ih hnext hrest

theorem yields_either (hr : r.Yields P) (hs : s.Yields P) : (either r s).Yields P := by
  intro cs a rest hread
  unfold either at hread
  cases hfirst : r cs with
  | none =>
    rw [hfirst] at hread
    exact hs cs a rest hread
  | some found =>
    rw [hfirst] at hread
    exact hr cs a rest (hfirst.trans hread)

theorem yields_optional (h : r.Yields P) : (optional r).Yields fun found => ∀ a ∈ found, P a := by
  intro cs found rest hread a ha
  unfold optional at hread
  cases hfirst : r cs with
  | none =>
    simp only [hfirst, Option.some.injEq, Prod.mk.injEq] at hread
    obtain ⟨rfl, -⟩ := hread
    cases ha
  | some read =>
    obtain ⟨b, between⟩ := read
    simp only [hfirst, Option.some.injEq, Prod.mk.injEq] at hread
    obtain ⟨rfl, rfl⟩ := hread
    obtain rfl := Option.some.inj ha
    exact h cs b between hfirst

theorem forall_mem_manyFrom (h : r.Yields P) {found : List α} (hfound : ∀ a ∈ found, P a)
    (cs : List Char) : ∀ a ∈ (manyFrom r found cs).1, P a := by
  induction found, cs using manyFrom.induct r with
  | case1 found cs hnone =>
    rw [manyFrom, hnone]
    exact fun a ha => hfound a (List.mem_reverse.mp ha)
  | case2 found cs a rest hread hshorter ih =>
    rw [manyFrom, hread]
    simp only [hshorter, if_true]
    exact ih (List.forall_mem_cons.mpr ⟨h cs a rest hread, hfound⟩)
  | case3 found cs a rest hread hshorter =>
    rw [manyFrom, hread]
    simp only [hshorter, if_false]
    exact fun a ha => hfound a (List.mem_reverse.mp ha)

theorem yields_many (h : r.Yields P) : (many r).Yields fun found => ∀ a ∈ found, P a := by
  intro cs found rest hread
  obtain ⟨rfl, -⟩ := Prod.mk.inj (Option.some.inj hread)
  exact forall_mem_manyFrom h (List.forall_mem_nil P) cs

theorem yields_separated (h : r.Yields P) (separator : Reader Unit) :
    (separated r separator).Yields fun found => ∀ a ∈ found, P a :=
  yields_bind h fun _ hfirst => yields_bind (yields_many (yields_after fun _ => h))
    fun _ hmore => yields_pure (List.forall_mem_cons.mpr ⟨hfirst, hmore⟩)

theorem whole_of_yields (h : r.Yields P) {cs : List Char} {a : α} (hread : whole r cs = some a) :
    P a := by
  unfold whole at hread
  cases hfirst : r cs with
  | none => simp [hfirst] at hread
  | some read =>
    obtain ⟨b, rest⟩ := read
    cases rest with
    | nil =>
      simp only [hfirst, Option.some.injEq] at hread
      exact hread ▸ h cs b [] hfirst
    | cons c rest => simp [hfirst] at hread

end RecordArchive.Text.Reader
