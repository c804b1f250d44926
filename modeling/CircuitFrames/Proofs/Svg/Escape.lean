import CircuitFrames.Svg.Primitive
import Mathlib.Data.List.Infix

/-!
# What escaped markup says

Markup writes the characters that would be taken for markup as references to entities. A reader who
knows the entities gets an escaped text back, and no other markup in which whole references are all
that is special says the same (`eq_spelled_iff`). Escaping goes through a text once. To replace one
character after another comes to the same, as long as none that is still to be replaced stands in a
reference that has been written (`foldl_replaced`): so the ampersand, with which references start, has
to be the first.
-/

namespace CircuitFrames.Svg

/-! ### Reading markup -/

/-- A character that markup can refer to. -/
structure Entity where
  char : Char
  reference : List Char
deriving DecidableEq

/-- The entities of text content. -/
def textEntities : List Entity :=
  [⟨'&', "&amp;".toList⟩, ⟨'<', "&lt;".toList⟩, ⟨'>', "&gt;".toList⟩]

/-- The entities of attribute values. -/
def attributeEntities : List Entity :=
  [⟨'&', "&amp;".toList⟩, ⟨'"', "&quot;".toList⟩, ⟨'<', "&lt;".toList⟩]

/-- What markup says to a reader who knows some entities: a reference stands for its character, and
every other character for itself. -/
def decode (entities : List Entity) : List Char → List Char
  | [] => []
  | c :: cs =>
    match entities.find? (·.reference.isPrefixOf (c :: cs)) with
    | some e => e.char :: decode entities (cs.drop e.reference.tail.length)
    | none => c :: decode entities cs
termination_by cs => cs.length

/-- Every ampersand starts a reference to one of the entities. -/
def Referring (entities : List Entity) (written : List Char) : Prop :=
  ∀ rest, '&' :: rest <:+ written → ∃ e ∈ entities, e.reference <+: '&' :: rest

/-- How a character is written where some entities are known. -/
def spelled (entities : List Entity) (c : Char) : List Char :=
  match entities.find? (·.char = c) with
  | some e => e.reference
  | none => [c]

/-- A text with one character replaced by the reference to it. -/
def replaced (text : List Char) (e : Entity) : List Char :=
  text.flatMap fun c => if c = e.char then e.reference else [c]

/-- References can be told apart, from each other and from what stands for itself. -/
structure Legible (entities : List Entity) : Prop where
  /-- References start with an ampersand. -/
  opened : ∀ e ∈ entities, e.reference.head? = some '&'
  /-- So the ampersand itself needs one. -/
  ampersand : ∃ e ∈ entities, e.char = '&'
  /-- Behind its ampersand a reference holds none of the characters. -/
  inert : ∀ e ∈ entities, ∀ e' ∈ entities, e'.char ∉ e.reference.tail
  /-- No reference goes on into another. -/
  apart : ∀ e ∈ entities, ∀ e' ∈ entities, e.reference <+: e'.reference → e = e'
  /-- A character has one reference. -/
  unique : ∀ e ∈ entities, ∀ e' ∈ entities, e.char = e'.char → e = e'

theorem legible_text : Legible textEntities := by
  constructor <;> decide

theorem legible_attribute : Legible attributeEntities := by
  constructor <;> decide

variable {entities : List Entity} {e : Entity} {c : Char} {text written cs ds : List Char}

/-! ### How characters are spelled -/

theorem spelled_cons (e : Entity) (es : List Entity) (c : Char) :
    spelled (e :: es) c = if c = e.char then e.reference else spelled es c := by
  unfold spelled
  by_cases hc : c = e.char
  · rw [if_pos hc, List.find?_cons_of_pos (by simp [hc])]
  · rw [if_neg hc, List.find?_cons_of_neg (by simpa using Ne.symm hc)]

theorem spelled_of_forall_ne (h : ∀ e ∈ entities, e.char ≠ c) : spelled entities c = [c] := by
  have hfind : entities.find? (·.char = c) = none := by
    rw [List.find?_eq_none]
    intro e he
    simpa using h e he
  rw [spelled, hfind]

namespace Legible

theorem reference_eq (h : Legible entities) (he : e ∈ entities) :
    e.reference = '&' :: e.reference.tail := by
  obtain ⟨tail, htail⟩ := List.head?_eq_some_iff.mp (h.opened e he)
  rw [htail, List.tail_cons]

theorem spelled_char (h : Legible entities) (he : e ∈ entities) :
    spelled entities e.char = e.reference := by
  unfold spelled
  cases hfind : entities.find? (·.char = e.char) with
  | none => exact absurd (List.find?_eq_none.mp hfind e he) (by simp)
  | some e' =>
    have hchar : e'.char = e.char := by simpa using List.find?_some hfind
    rw [h.unique e' (List.mem_of_find?_eq_some hfind) e he hchar]

theorem spelled_cases (h : Legible entities) (c : Char) :
    (∃ e ∈ entities, e.char = c ∧ spelled entities c = e.reference) ∨
      (∀ e ∈ entities, e.char ≠ c) ∧ spelled entities c = [c] := by
  by_cases hc : ∃ e ∈ entities, e.char = c
  · obtain ⟨e, he, rfl⟩ := hc
    exact .inl ⟨e, he, rfl, h.spelled_char he⟩
  · push Not at hc
    exact .inr ⟨hc, spelled_of_forall_ne hc⟩

theorem ne_ampersand (h : Legible entities) (hc : ∀ e ∈ entities, e.char ≠ c) : c ≠ '&' := by
  rintro rfl
  obtain ⟨e, he, hchar⟩ := h.ampersand
  exact hc e he hchar

theorem ampersand_notMem_tail (h : Legible entities) (he : e ∈ entities) :
    '&' ∉ e.reference.tail := by
  obtain ⟨e', he', hchar⟩ := h.ampersand
  exact hchar ▸ h.inert e he e' he'

/-! ### What a reader gets -/

theorem find?_reference (h : Legible entities) (he : e ∈ entities) (cs : List Char) :
    entities.find? (·.reference.isPrefixOf (e.reference ++ cs)) = some e := by
  cases hfind : entities.find? (·.reference.isPrefixOf (e.reference ++ cs)) with
  | none => exact absurd (List.find?_eq_none.mp hfind e he) (by simp)
  | some e' =>
    have he' := List.mem_of_find?_eq_some hfind
    have hprefix : e'.reference <+: e.reference ++ cs := by simpa using List.find?_some hfind
    rcases List.prefix_or_prefix_of_prefix hprefix (List.prefix_append e.reference cs) with hle | hle
    · rw [h.apart e' he' e he hle]
    · rw [h.apart e he e' he' hle]

theorem decode_reference (h : Legible entities) (he : e ∈ entities) (cs : List Char) :
    decode entities (e.reference ++ cs) = e.char :: decode entities cs := by
  have hcons : e.reference ++ cs = '&' :: (e.reference.tail ++ cs) := by
    rw [← List.cons_append, ← h.reference_eq he]
  have hfind := h.find?_reference he cs
  rw [hcons] at hfind ⊢
  rw [decode, hfind]
  dsimp only
  rw [List.drop_left]

theorem decode_cons (h : Legible entities) (hc : c ≠ '&') (cs : List Char) :
    decode entities (c :: cs) = c :: decode entities cs := by
  have hfind : entities.find? (·.reference.isPrefixOf (c :: cs)) = none := by
    rw [List.find?_eq_none]
    intro e he hprefix
    rw [h.reference_eq he, List.isPrefixOf_iff_prefix, List.cons_prefix_cons] at hprefix
    exact hc hprefix.1.symm
  rw [decode, hfind]

theorem decode_spelled (h : Legible entities) (text : List Char) :
    decode entities (text.flatMap (spelled entities)) = text := by
  induction text with
  | nil => rw [List.flatMap_nil, decode]
  | cons c cs ih =>
    rw [List.flatMap_cons]
    rcases h.spelled_cases c with ⟨e, he, rfl, hspelled⟩ | ⟨hc, hspelled⟩
    · rw [hspelled, h.decode_reference he, ih]
    · rw [hspelled, List.singleton_append, h.decode_cons (h.ne_ampersand hc), ih]

end Legible

/-- What looks like a reference in a text is not taken for one. -/
example : decode textEntities "&amp;lt; &quot;".toList = "&lt; &quot;".toList := by
  cbv

/-! ### What is special in markup -/

theorem referring_nil : Referring entities [] := by
  intro rest h
  cases List.suffix_nil.mp h

theorem referring_cons :
    Referring entities (c :: cs) ↔
      (c = '&' → ∃ e ∈ entities, e.reference <+: c :: cs) ∧ Referring entities cs := by
  constructor
  · intro h
    constructor
    · rintro rfl
      exact h cs List.suffix_rfl
    · exact fun rest hrest => h rest (hrest.trans (List.suffix_cons c cs))
  · rintro ⟨hhead, htail⟩ rest hrest
    rcases List.suffix_cons_iff.mp hrest with heq | hrest
    · obtain ⟨rfl, rfl⟩ := List.cons.inj heq
      exact hhead rfl
    · exact htail rest hrest

theorem Referring.append_left (hcs : '&' ∉ cs) (hds : Referring entities ds) :
    Referring entities (cs ++ ds) := by
  induction cs with
  | nil => exact hds
  | cons c cs ih =>
    rw [List.mem_cons, not_or] at hcs
    exact referring_cons.mpr ⟨fun hc => absurd hc.symm hcs.1, ih hcs.2⟩

theorem Referring.of_suffix (h : Referring entities written) (hcs : cs <:+ written) :
    Referring entities cs :=
  fun rest hrest => h rest (hrest.trans hcs)

namespace Legible

theorem referring_spelled (h : Legible entities) (text : List Char) :
    Referring entities (text.flatMap (spelled entities)) := by
  induction text with
  | nil => exact referring_nil
  | cons c cs ih =>
    rw [List.flatMap_cons]
    rcases h.spelled_cases c with ⟨e, he, -, hspelled⟩ | ⟨hc, hspelled⟩
    · have hprefix : e.reference <+: e.reference ++ cs.flatMap (spelled entities) :=
        List.prefix_append ..
      rw [hspelled]
      rw [h.reference_eq he, List.cons_append] at hprefix ⊢
      refine referring_cons.mpr ⟨fun _ => ⟨e, he, ?_⟩, ih.append_left (h.ampersand_notMem_tail he)⟩
      rwa [h.reference_eq he]
    · rw [hspelled]
      exact ih.append_left (by simpa using (h.ne_ampersand hc).symm)

theorem eq_ampersand_of_mem_spelled (h : Legible entities) (he : e ∈ entities)
    (hmem : e.char ∈ text.flatMap (spelled entities)) : e.char = '&' := by
  obtain ⟨c, -, hc⟩ := List.mem_flatMap.mp hmem
  rcases h.spelled_cases c with ⟨e', he', -, hspelled⟩ | ⟨hne, hspelled⟩
  · rw [hspelled, h.reference_eq he', List.mem_cons] at hc
    exact hc.resolve_right (h.inert e' he' e he)
  · rw [hspelled, List.mem_singleton] at hc
    exact absurd hc (hne e he)

theorem spelled_decode (h : Legible entities) (href : Referring entities written)
    (hbare : ∀ e ∈ entities, e.char ∈ written → e.char = '&') :
    (decode entities written).flatMap (spelled entities) = written := by
  -- What is left to read is a suffix, in which no more is special than in the whole.
  fun_induction decode entities written with
  | case1 => rfl
  | case2 c cs e hfind ih =>
    have he := List.mem_of_find?_eq_some hfind
    obtain ⟨rest, hrest⟩ : e.reference <+: c :: cs := by simpa using List.find?_some hfind
    have hcs : cs.drop e.reference.tail.length = rest := by
      rw [h.reference_eq he, List.cons_append] at hrest
      rw [← (List.cons.inj hrest).2, List.drop_left]
    rw [hcs] at ih
    have hsuffix : rest <:+ c :: cs := ⟨_, hrest⟩
    rw [List.flatMap_cons, hcs, h.spelled_char he, ← hrest,
      ih (href.of_suffix hsuffix) fun e he hmem => hbare e he (hsuffix.mem hmem)]
  | case3 c cs hfind ih =>
    obtain ⟨hhead, htail⟩ := referring_cons.mp href
    have hc : c ≠ '&' := by
      intro hc
      obtain ⟨e, he, hprefix⟩ := hhead hc
      exact List.find?_eq_none.mp hfind e he (by simpa using hprefix)
    have hne : ∀ e ∈ entities, e.char ≠ c := by
      rintro e he rfl
      exact hc (hbare e he List.mem_cons_self)
    rw [List.flatMap_cons, spelled_of_forall_ne hne, List.singleton_append,
      ih htail fun e he hmem => hbare e he (List.mem_cons_of_mem _ hmem)]

/-- **The escaped text is the one markup that says the text**, among all in which whole references are
all that is special. -/
theorem eq_spelled_iff (h : Legible entities) :
    written = text.flatMap (spelled entities) ↔
      (∀ e ∈ entities, e.char ∈ written → e.char = '&') ∧ Referring entities written ∧
        decode entities written = text := by
  constructor
  · rintro rfl
    exact ⟨fun e he => h.eq_ampersand_of_mem_spelled he, h.referring_spelled text,
      h.decode_spelled text⟩
  · rintro ⟨hbare, href, rfl⟩
    exact (h.spelled_decode href hbare).symm

end Legible

/-! ### One character after another -/

/-- Replacements do not come in each other's way if no character stands in a reference that has been
written before. -/
theorem foldl_replaced (h : entities.Pairwise fun e e' => e'.char ∉ e.reference) (text : List Char) :
    entities.foldl replaced text = text.flatMap (spelled entities) := by
  induction entities generalizing text with
  | nil => exact (List.flatMap_singleton' text).symm
  | cons e es ih =>
    obtain ⟨hhead, htail⟩ := List.pairwise_cons.mp h
    -- The later replacements spell piece by piece, and leave a written reference as it is.
    rw [List.foldl_cons, ih htail, replaced, List.flatMap_assoc]
    refine List.flatMap_congr fun c _ => ?_
    by_cases hc : c = e.char
    · have hkept : e.reference.flatMap (spelled es) = e.reference := by
        refine (List.flatMap_congr fun d hd => ?_).trans (List.flatMap_singleton' e.reference)
        exact spelled_of_forall_ne fun e' he' hchar => hhead e' he' (hchar ▸ hd)
      rw [if_pos hc, hkept, spelled_cons, if_pos hc]
    · rw [if_neg hc, List.flatMap_singleton, spelled_cons, if_neg hc]

/-- An ampersand that is replaced too late is one that a reference starts with. -/
example : [⟨'<', "&lt;".toList⟩, ⟨'&', "&amp;".toList⟩].foldl replaced ['<'] = "&amp;lt;".toList := by
  decide

/-! ### Text content and attribute values -/

theorem textEntity_eq (c : Char) : textEntity c = spelled textEntities c := by
  rw [textEntities, spelled_cons, spelled_cons, spelled_cons]
  rfl

theorem toList_escapeText (text : String) :
    (escapeText text).toList = text.toList.flatMap (spelled textEntities) := by
  rw [escapeText, String.toList_ofList, funext textEntity_eq]

theorem attributeEntity_eq (c : Char) : attributeEntity c = spelled attributeEntities c := by
  rw [attributeEntities, spelled_cons, spelled_cons, spelled_cons]
  rfl

theorem toList_escapeAttribute (text : String) :
    (escapeAttribute text).toList = text.toList.flatMap (spelled attributeEntities) := by
  rw [escapeAttribute, String.toList_ofList, funext attributeEntity_eq]

theorem eq_escapeText_iff (text : String) (written : List Char) :
    written = (escapeText text).toList ↔
      '<' ∉ written ∧ '>' ∉ written ∧ Referring textEntities written ∧
        decode textEntities written = text.toList := by
  have hbare : (∀ e ∈ textEntities, e.char ∈ written → e.char = '&') ↔
      '<' ∉ written ∧ '>' ∉ written := by
    simp [textEntities]
  rw [toList_escapeText, legible_text.eq_spelled_iff, hbare, and_assoc]

theorem eq_escapeAttribute_iff (text : String) (written : List Char) :
    written = (escapeAttribute text).toList ↔
      '"' ∉ written ∧ '<' ∉ written ∧ Referring attributeEntities written ∧
        decode attributeEntities written = text.toList := by
  have hbare : (∀ e ∈ attributeEntities, e.char ∈ written → e.char = '&') ↔
      '"' ∉ written ∧ '<' ∉ written := by
    simp [attributeEntities]
  rw [toList_escapeAttribute, legible_attribute.eq_spelled_iff, hbare, and_assoc]

end CircuitFrames.Svg
