import CircuitFrames.Proofs.Diagram.Glyphs

/-!
# Drawing behind other detectors

The number of a detector stands in the labels of its measurements and nowhere else. So what is drawn
behind more detectors is what is drawn without them, with other numbers in those labels
(`Renumbered`): this holds of a layer (`Redrawn`), and of its frame when all is done
(`Redrawn.framed`).
-/

namespace CircuitFrames

open Svg (Primitive)

/-! ### Labels of detectors -/

/-- The text that labels a measurement of a detector. -/
def detectorText (x y : Float) (k : Nat) : Primitive :=
  .text x y ("D" ++ toString k) "black" 16 .start .hanging

/-- A primitive behind some more detectors: a detector label has a number that is so much larger, any
other primitive is the same. -/
inductive Renumbered (s : Nat) : Primitive → Primitive → Prop
  | detector (x y : Float) (k : Nat) : Renumbered s (detectorText x y k) (detectorText x y (k + s))
  | other {p : Primitive} (h : ∀ x y k, p ≠ detectorText x y k) : Renumbered s p p

variable {s : Nat}

theorem renumbered_of_not_hangs {ps : List Primitive} (h : ∀ p ∈ ps, hangs p = false) :
    List.Forall₂ (Renumbered s) ps ps := by
  apply List.forall₂_same.mpr
  intro p hp
  apply Renumbered.other
  rintro x y k rfl
  cases h _ hp

theorem renumbered_of_unmarked {ps : List Primitive} (h : ∀ p ∈ ps, Unmarked p) :
    List.Forall₂ (Renumbered s) ps ps :=
  renumbered_of_not_hangs fun p hp => (h p hp).aligned

/-- The labels of one operation behind some more detectors. -/
def Relabelled (s : Nat) (look look' : Walk.LabelStyle) : Prop :=
  ∀ p slot, List.Forall₂ (Renumbered s) (Walk.label look p slot) (Walk.label look' p slot)

theorem relabelled_detector (k : Nat) :
    Relabelled s ⟨"D" ++ toString k, "black", false⟩ ⟨"D" ++ toString (k + s), "black", false⟩ :=
  fun _ _ => .cons (.detector _ _ k) .nil

theorem relabelled_observable (content : String) :
    Relabelled s ⟨content, "blue", false⟩ ⟨content, "blue", false⟩ := by
  intro p slot
  refine .cons (.other ?_) .nil
  intro x y k h
  have hcolor : "blue" = "black" := (Primitive.text.inj h).2.2.2.1
  exact absurd hcolor (by decide)

/-! ### Layers drawn again -/

/-- A layer drawn again, behind a number of measurements and detectors. -/
structure Redrawn (measured detected : Nat) (l l' : Layer) : Prop where
  coords : l'.coords = l.coords
  used : l'.used = l.used
  primitives : List.Forall₂ (Renumbered detected) l.primitives.toList l'.primitives.toList
  places : ∀ i, l'.measurementPosition? (measured + i) = l.measurementPosition? i

namespace Redrawn

variable {m d : Nat} {l l' : Layer}

theorem position (h : Redrawn m d l l') (q : Qubit) : l'.position q = l.position q :=
  congrArg (·.position q) h.coords

theorem touch (h : Redrawn m d l l') (q : Qubit) : Redrawn m d (l.touch q) (l'.touch q) := by
  refine { h with used := ?_ }
  show l'.used.insert (l'.position q) = l.used.insert (l.position q)
  rw [h.used, h.position]

theorem draw (h : Redrawn m d l l') {ps ps' : List Primitive}
    (hps : List.Forall₂ (Renumbered d) ps ps') : Redrawn m d (l.draw ps) (l'.draw ps') := by
  refine { h with primitives := ?_ }
  rw [Frame.toList_draw, Frame.toList_draw]
  exact List.rel_append h.primitives hps

theorem recordMeasurement (h : Redrawn m d l l') (i : Nat) (p : Point) :
    Redrawn m d (l.recordMeasurement i p) (l'.recordMeasurement (m + i) p) := by
  refine { h with places := ?_ }
  intro j
  show (l'.measurements.insert (m + i) p)[m + j]? = (l.measurements.insert i p)[j]?
  rw [Std.ExtTreeMap.getElem?_insert, Std.ExtTreeMap.getElem?_insert]
  by_cases hij : i = j
  · subst hij
    simp
  · rw [if_neg (by rw [Nat.compare_eq_eq]; omega), if_neg (by rw [Nat.compare_eq_eq]; omega)]
    exact h.places j

theorem successor (h : Redrawn m d l l') : Redrawn m d l.successor l'.successor := by
  refine ⟨h.coords, rfl, .nil, fun i => ?_⟩
  show (∅ : Std.ExtTreeMap Nat Point)[m + i]? = (∅ : Std.ExtTreeMap Nat Point)[i]?
  simp

theorem foldl_touch (h : Redrawn m d l l') (factors : List (Qubit × Pauli)) :
    Redrawn m d (factors.foldl (fun l (q, _) => l.touch q) l)
      (factors.foldl (fun l (q, _) => l.touch q) l') := by
  induction factors generalizing l l' with
  | nil => exact h
  | cons f factors ih => exact ih (h.touch f.1)

theorem isEmpty (h : Redrawn m d l l') : l'.isEmpty = l.isEmpty := by
  have hlength := h.primitives.length_eq
  rw [Array.length_toList, Array.length_toList] at hlength
  unfold Layer.isEmpty Array.isEmpty
  rw [hlength]

/-! ### Frames -/

theorem not_hangs_padding (used positions : PointSet) :
    ∀ p ∈ Frame.padding used positions, hangs p = false :=
  Frame.forall_mem_padding (fun _ => rfl) (fun _ _ => rfl) (fun _ _ => rfl) used positions

theorem not_hangs_glyphsOn (coords : CoordinateMap) (marks : List Mark) (notes : NoteSet) (i : Nat) :
    ∀ p ∈ Frame.glyphsOn coords marks notes i, hangs p = false :=
  Frame.forall_mem_glyphsOn (fun _ _ => rfl) (fun _ _ => rfl) i

theorem framed (h : Redrawn m d l l') (positions : PointSet) (points : List Point)
    {glyphs : List Primitive} (hglyphs : ∀ p ∈ glyphs, hangs p = false) :
    (Frame.framed positions points glyphs l').bounds =
        (Frame.framed positions points glyphs l).bounds ∧
      List.Forall₂ (Renumbered d) (Frame.framed positions points glyphs l).primitives
        (Frame.framed positions points glyphs l').primitives := by
  unfold Frame.framed
  dsimp only
  rw [h.used]
  refine ⟨rfl, ?_⟩
  apply List.rel_append
  · exact List.rel_append h.primitives (renumbered_of_not_hangs (not_hangs_padding _ _))
  · exact renumbered_of_not_hangs hglyphs

end Redrawn

end CircuitFrames
