import RecordArchive.Record
import RecordArchive.Proofs.Dictionary
import RecordArchive.Proofs.Json.Lexing

/-!
# Reading a printed value

From the tokens of a plain value the reader makes that value, unless it opens too
many containers.  So a printed value is read again, `parse?_print`, and a printed
object is the record of its line, `ofLine_print`.
-/

namespace RecordArchive

namespace Json

/-- A value may begin. -/
def Expectation.Opens (next : Expectation) : Prop := next = .value ∨ next = .valueOrEnd

/-- The tokens of a value are read as that value, wherever one may begin. -/
def Reads (value : Json) : Prop :=
  ∀ (frames : List Frame) (next : Expectation), next.Opens →
    frames.length + value.depth ≤ greatestDepth →
    value.tokensOf.foldlM Reader.step ⟨frames, next⟩ = some ⟨frames, .commaOrEnd value⟩

section Containers

variable {outer : List Frame} {next : Expectation}

theorem reads_items {item : Json} {others : List Json} (h : ∀ i ∈ item :: others, Reads i)
    (reversed : List Json) (hnext : next.Opens)
    (hdepth : outer.length + (itemsDepth (item :: others) + 1) ≤ greatestDepth) :
    (itemTokens (item :: others) ++ [Token.closeArray]).foldlM Reader.step
        ⟨.array reversed :: outer, next⟩ =
      some ⟨outer, .commaOrEnd (.array (reversed.reverse ++ item :: others))⟩ := by
  induction others generalizing item reversed next with
  | nil =>
    rw [itemsDepth] at hdepth
    have hitem := h item List.mem_cons_self (.array reversed :: outer) next hnext
      (by rw [List.length_cons]; omega)
    rw [itemTokens, List.foldlM_append, hitem]
    show some (Reader.mk outer (.commaOrEnd (.array (item :: reversed).reverse))) = _
    rw [List.reverse_cons]
  | cons second more ih =>
    -- The comma takes the item into the frame, and a value may begin again.
    rw [itemsDepth] at hdepth
    have hitem := h item List.mem_cons_self (.array reversed :: outer) next hnext
      (by rw [List.length_cons]; omega)
    have hmore := ih (fun i hmem => h i (List.mem_cons_of_mem item hmem)) (item :: reversed)
      (Or.inl rfl) (by omega)
    rw [List.reverse_cons, List.append_assoc, List.singleton_append] at hmore
    rw [itemTokens, List.append_assoc, List.foldlM_append, hitem]
    exact hmore

/-- The tokens of a field, up to the comma or brace after it. -/
theorem reads_field {value : Json} (h : Reads value) (name lastName : String)
    (kept last : List (String × Json)) (hnext : next = .nameOrEnd kept ∨ next = .name kept)
    (hdepth : outer.length + (value.depth + 1) ≤ greatestDepth) :
    ([Token.scalar (.text name), Token.colon] ++ value.tokensOf).foldlM Reader.step
        ⟨.object last lastName :: outer, next⟩ =
      some ⟨.object kept name :: outer, .commaOrEnd value⟩ := by
  have hvalue := h (.object kept name :: outer) .value (Or.inl rfl)
    (by rw [List.length_cons]; omega)
  have hname : Reader.step ⟨.object last lastName :: outer, next⟩ (.scalar (.text name)) =
      some ⟨.object kept name :: outer, .colon⟩ := by
    rcases hnext with rfl | rfl <;> rfl
  rw [List.cons_append, List.foldlM_cons, hname]
  exact hvalue

theorem reads_fields {field : String × Json} {others : List (String × Json)}
    (h : ∀ f ∈ field :: others, Reads f.2) {kept : List (String × Json)}
    (hsorted : (kept ++ field :: others).Pairwise fun a b => a.1 < b.1)
    (last : List (String × Json)) (lastName : String)
    (hnext : next = .nameOrEnd kept ∨ next = .name kept)
    (hdepth : outer.length + (fieldsDepth (field :: others) + 1) ≤ greatestDepth) :
    (fieldTokens (field :: others) ++ [Token.closeObject]).foldlM Reader.step
        ⟨.object last lastName :: outer, next⟩ =
      some ⟨outer, .commaOrEnd (.object (kept ++ field :: others))⟩ := by
  induction others generalizing field kept last lastName next with
  | nil =>
    obtain ⟨name, value⟩ := field
    rw [fieldsDepth] at hdepth
    have hvalue : value.Reads := h (name, value) List.mem_cons_self
    have hfield := reads_field hvalue name lastName kept last hnext
      (show outer.length + (value.depth + 1) ≤ greatestDepth by omega)
    rw [fieldTokens, List.foldlM_append, hfield, ← Dictionary.insert_last hsorted]
    rfl
  | cons second more ih =>
    obtain ⟨name, value⟩ := field
    rw [fieldsDepth] at hdepth
    have hvalue : value.Reads := h (name, value) List.mem_cons_self
    have hfield := reads_field hvalue name lastName kept last hnext
      (show outer.length + (value.depth + 1) ≤ greatestDepth by omega)
    have hkept : kept ++ (name, value) :: second :: more =
        Dictionary.insert name value kept ++ second :: more := by
      rw [Dictionary.insert_last hsorted, List.append_assoc, List.singleton_append]
    rw [hkept] at hsorted ⊢
    have hmore := ih (fun f hmem => h f (List.mem_cons_of_mem (name, value) hmem)) hsorted
      kept name (Or.inr rfl) (by omega)
    rw [fieldTokens, List.append_assoc, List.foldlM_append, hfield]
    exact hmore

end Containers

theorem reads_of_plain {value : Json} (h : value.Plain) : Reads value := by
  induction h with
  | null | boolean | integer | text =>
    intro frames next hnext hdepth
    rcases hnext with rfl | rfl <;> rfl
  | @array items _ ih =>
    intro frames next hnext hdepth
    rw [depth] at hdepth
    have hopen : Reader.step ⟨frames, next⟩ .openArray =
        some ⟨.array [] :: frames, .valueOrEnd⟩ := by
      have hroom : frames.length < greatestDepth := by omega
      rcases hnext with rfl | rfl <;> exact if_pos hroom
    rw [tokensOf, List.cons_append, List.foldlM_cons, hopen]
    cases items with
    | nil => rfl
    | cons item others => exact reads_items ih [] (Or.inr rfl) hdepth
  | @object fields hsorted _ ih =>
    intro frames next hnext hdepth
    rw [depth] at hdepth
    have hopen : Reader.step ⟨frames, next⟩ .openObject =
        some ⟨.object [] "" :: frames, .nameOrEnd []⟩ := by
      have hroom : frames.length < greatestDepth := by omega
      rcases hnext with rfl | rfl <;> exact if_pos hroom
    rw [tokensOf, List.cons_append, List.foldlM_cons, hopen]
    cases fields with
    | nil => rfl
    | cons field others => exact reads_fields ih hsorted [] "" (Or.inl rfl) hdepth

theorem parse?_print {value : Json} (h : value.Plain) (hdepth : value.depth ≤ greatestDepth) :
    parse? value.print = some value := by
  have hread := reads_of_plain h [] .value (Or.inl rfl) (by rw [List.length_nil]; omega)
  unfold parse? print
  rw [String.toList_ofList, tokens?_render h]
  show (value.tokensOf.foldlM Reader.step Reader.start).bind Reader.finish = some value
  rw [Reader.start, hread]
  rfl

end Json

theorem Record.ofLine_print {fields : List (String × Json)} (h : (Json.object fields).Plain)
    (hdepth : (Json.object fields).depth ≤ Json.greatestDepth) :
    ofLine (Json.object fields).print = .object fields := by
  rw [ofLine, Json.parse?_print h hdepth]

end RecordArchive
