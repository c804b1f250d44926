import CircuitFrames.Diagram.Page
import CircuitFrames.Proofs.Svg.Escape
import CircuitFrames.Proofs.Text.Emitted

/-!
# The link on a page

A reader finds the links of a page by their opening, `<a href="`, and reads each address up to the next
quote. No part of a page opens a link but the line that is meant to (`opensNoLink`), and an escaped
address neither ends early nor opens another one, so a page has the link of its diagram and no other
(`hrefs_page`).
-/

namespace CircuitFrames

open Svg

namespace Page

/-- How a link opens, up to its address. -/
def linkOpening : List Char := "<a href=\"".toList

/-- The addresses of the links on a page as they are written: what stands up to the next quote behind
every opening. -/
def hrefs : List Char → List (List Char)
  | [] => []
  | c :: cs =>
    if linkOpening <+: c :: cs then
      ((c :: cs).drop linkOpening.length).takeWhile (· != '"') :: hrefs cs
    else hrefs cs

/-- No link opens in a text, whatever stands behind it: something else than an `a` follows on every
opening angle. -/
def opensNoLink : List Char → Bool
  | [] => true
  | c :: cs => (c != '<' || cs.head?.any (· != 'a')) && opensNoLink cs

variable {xs ys value : List Char}

/-! ### Parts without links -/

theorem opensNoLink_of_notMem (h : '<' ∉ xs) : opensNoLink xs = true := by
  induction xs with
  | nil => rfl
  | cons c cs ih =>
    rw [List.mem_cons, not_or] at h
    simp [opensNoLink, Ne.symm h.1, ih h.2]

theorem opensNoLink_append (hxs : opensNoLink xs = true) (hys : opensNoLink ys = true) :
    opensNoLink (xs ++ ys) = true := by
  induction xs with
  | nil => exact hys
  | cons c cs ih =>
    simp only [opensNoLink, List.cons_append, Bool.and_eq_true, Bool.or_eq_true] at hxs ⊢
    refine ⟨hxs.1.imp_right fun hnext => ?_, ih hxs.2⟩
    cases cs with
    | nil => cases hnext
    | cons d ds => exact hnext

/-- In this form a literal is checked as the list of its characters, without going through octets. -/
theorem opensNoLink_ofList (h : opensNoLink xs = true) :
    opensNoLink (String.ofList xs).toList = true := by
  rwa [String.toList_ofList]

theorem hrefs_append (h : opensNoLink xs = true) (ys : List Char) : hrefs (xs ++ ys) = hrefs ys := by
  induction xs with
  | nil => rfl
  | cons c cs ih =>
    simp only [opensNoLink, Bool.and_eq_true, Bool.or_eq_true] at h
    have hopening : ¬ linkOpening <+: c :: (cs ++ ys) := by
      intro hprefix
      obtain ⟨rfl, hnext⟩ := List.cons_prefix_cons.mp hprefix
      have hangle := h.1.resolve_left (by decide)
      cases cs with
      | nil => cases hangle
      | cons d ds =>
        obtain ⟨rfl, -⟩ := List.cons_prefix_cons.mp hnext
        cases hangle
    rw [List.cons_append, hrefs, if_neg hopening, ih h.2]

theorem angle_notMem_base64 (bytes : List UInt8) : '<' ∉ Text.base64Chars bytes := by
  have hdigit (n : Nat) : '<' ≠ Text.base64Digit n := by
    by_cases hn : n < 63
    · revert n
      decide
    · have hslash : Text.base64Digit n = if n = 62 then '+' else '/' := by
        rw [Text.base64Digit, if_neg (by omega), if_neg (by omega), if_neg (by omega)]
      rw [hslash]
      split <;> decide
  fun_induction Text.base64Chars bytes <;> simp [*]

theorem angle_notMem_toString (n : Nat) : '<' ∉ (toString n).toList := by
  rw [Text.toList_toString]
  intro h
  exact absurd (Numeral.isDigit_of_mem_toDigits h) (by decide)

theorem opensNoLink_image (index : Nat) (f : Frame) : opensNoLink (image index f).toList = true := by
  unfold image
  simp only [String.toList_append]
  refine opensNoLink_append (opensNoLink_append (opensNoLink_append (opensNoLink_append
    ?_ ?_) ?_) ?_) ?_
  · exact opensNoLink_ofList (by decide)
  · exact opensNoLink_of_notMem (angle_notMem_toString index)
  · exact opensNoLink_ofList (by decide)
  · exact opensNoLink_ofList (opensNoLink_of_notMem (angle_notMem_base64 _))
  · exact opensNoLink_ofList (by decide)

theorem opensNoLink_intercalate {sep : List Char} {parts : List (List Char)}
    (hsep : opensNoLink sep = true) (hparts : ∀ part ∈ parts, opensNoLink part = true) :
    opensNoLink (sep.intercalate parts) = true := by
  induction parts with
  | nil => rfl
  | cons part parts ih =>
    obtain ⟨hpart, hparts⟩ := List.forall_mem_cons.mp hparts
    cases parts with
    | nil => simpa using hpart
    | cons next parts =>
      rw [List.intercalate_cons_cons]
      exact opensNoLink_append (opensNoLink_append hpart hsep) (ih hparts)

theorem opensNoLink_images (frames : List Frame) :
    opensNoLink ("\n".intercalate (frames.mapIdx image)).toList = true := by
  rw [String.toList_intercalate]
  refine opensNoLink_intercalate (by decide) fun part hpart => ?_
  obtain ⟨text, htext, rfl⟩ := List.mem_map.mp hpart
  obtain ⟨index, hindex, rfl⟩ := List.mem_mapIdx.mp htext
  exact opensNoLink_image index _

theorem opensNoLink_panel (config : Config) : opensNoLink (panel config).toList = true := by
  unfold panel
  simp only [String.toList_append]
  refine opensNoLink_append (opensNoLink_append (opensNoLink_append (opensNoLink_append
    ?_ ?_) ?_) ?_) ?_
  · exact opensNoLink_ofList (by decide)
  · exact opensNoLink_of_notMem (angle_notMem_toString _)
  · exact opensNoLink_ofList (by decide)
  · exact opensNoLink_of_notMem (angle_notMem_toString _)
  · exact opensNoLink_ofList (by decide)

set_option maxRecDepth 20000 in
theorem opensNoLink_controls : opensNoLink controls.toList = true := by
  unfold controls
  exact opensNoLink_ofList (by decide)

set_option maxRecDepth 20000 in
theorem opensNoLink_script : opensNoLink script.toList = true := by
  unfold script
  exact opensNoLink_ofList (by decide)

/-! ### The link -/

theorem hrefs_link {closing : List Char} (hquote : '"' ∉ value) (hangle : '<' ∉ value)
    (hhead : closing.head? = some '"') (hclosing : opensNoLink closing = true) (rest : List Char) :
    hrefs (linkOpening ++ value ++ closing ++ rest) = value :: hrefs rest := by
  have hvalue : (value ++ (closing ++ rest)).takeWhile (· != '"') = value := by
    obtain ⟨tail, rfl⟩ := List.head?_eq_some_iff.mp hhead
    refine Numeral.takeWhile_append_of_head (fun c hc => ?_) ?_
    · rw [bne_iff_ne]
      rintro rfl
      exact hquote hc
    · rintro c ⟨⟩
      rfl
  have hopening : linkOpening = '<' :: linkOpening.tail := by decide
  have hname : opensNoLink linkOpening.tail = true := by decide
  have hread : hrefs (linkOpening ++ (value ++ (closing ++ rest))) =
      value :: hrefs (linkOpening.tail ++ (value ++ (closing ++ rest))) := by
    rw [hopening, List.cons_append, hrefs, ← List.cons_append, ← hopening,
      if_pos (List.prefix_append ..), List.drop_left, hvalue]
  rw [List.append_assoc, List.append_assoc, hread, hrefs_append hname,
    hrefs_append (opensNoLink_of_notMem hangle), hrefs_append hclosing]

theorem hrefs_linkLine (link : String) (rest : List Char) :
    hrefs ((linkLine link).toList ++ rest) = (escapeAttribute link).toList :: hrefs rest := by
  obtain ⟨hquote, hangle, -⟩ := (eq_escapeAttribute_iff link _).mp rfl
  unfold linkLine
  rw [String.toList_append, String.toList_append]
  exact hrefs_link hquote hangle (by decide) (opensNoLink_ofList (by decide)) rest

/-- A page has the link of its diagram, if there is one, and no other. -/
theorem hrefs_page (d : Diagram) (config : Config) :
    hrefs (d.page config).toList =
      (d.editorLink.map fun link => (escapeAttribute link).toList).toList := by
  have hrest : hrefs ((panel config).toList ++ (("\n".intercalate (d.frames.mapIdx image)).toList
      ++ ("\n</div>\n".toList ++ script.toList))) = [] := by
    have hclosing : opensNoLink "\n</div>\n".toList = true := opensNoLink_ofList (by decide)
    have hscript := hrefs_append opensNoLink_script []
    rw [List.append_nil] at hscript
    rw [hrefs_append (opensNoLink_panel config), hrefs_append (opensNoLink_images d.frames),
      hrefs_append hclosing, hscript, hrefs]
  unfold Diagram.page
  simp only [String.toList_append, List.append_assoc]
  rw [hrefs_append opensNoLink_controls]
  cases d.editorLink with
  | none => rw [Option.map_none, Option.getD_none, String.toList_empty, List.nil_append, hrest,
      Option.map_none, Option.toList_none]
  | some link => rw [Option.map_some, Option.getD_some, hrefs_linkLine, hrest, Option.map_some,
      Option.toList_some]

end Page

/-- **Escaping is lossless and safe.** An escaped text is what comes of replacing ampersands first and
then both angles. It holds no angles and no ampersands but those that start a reference, a reader gets
the text back from it, and it is the only markup of which this is true. A page with a link has no
other link, whatever the names of operations and the base address that went into it, and the address
that is read off the page is in the same way the only one without quotes and opening angles that says
the link. -/
theorem escaping_reads_back (text link : String) (frames : List Frame) (config : Config) :
    ((escapeText text).toList = textEntities.foldl replaced text.toList ∧
      ∀ written, written = (escapeText text).toList ↔
        '<' ∉ written ∧ '>' ∉ written ∧ Referring textEntities written ∧
          decode textEntities written = text.toList) ∧
    ∃ value, Page.hrefs (Diagram.page ⟨frames, some link⟩ config).toList = [value] ∧
      value = attributeEntities.foldl replaced link.toList ∧
      ∀ written, written = value ↔
        '"' ∉ written ∧ '<' ∉ written ∧ Referring attributeEntities written ∧
          decode attributeEntities written = link.toList := by
  refine ⟨⟨?_, eq_escapeText_iff text⟩, (escapeAttribute link).toList, ?_, ?_,
    eq_escapeAttribute_iff link⟩
  · rw [toList_escapeText, foldl_replaced (by decide)]
  · exact Page.hrefs_page ⟨frames, some link⟩ config
  · rw [toList_escapeAttribute, foldl_replaced (by decide)]

end CircuitFrames
