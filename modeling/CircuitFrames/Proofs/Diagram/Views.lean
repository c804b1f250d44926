import CircuitFrames.Proofs.Diagram.Books
import CircuitFrames.Proofs.Diagram.Drawing

/-!
# Walks seen through a view

A view leaves out some primitives and replaces others. Nothing that a walk does looks at what is drawn
already, so a view that leaves the glyphs of gates as they are and takes the labels of one style to
those of another (`Sees`) takes the walk under the one style to the walk under the other (`Sees.of`).
-/

namespace CircuitFrames

open Svg (Primitive)

/-- The layer with its primitives seen through a view. -/
def Layer.through (f : Primitive → Option Primitive) (l : Layer) : Layer :=
  { l with primitives := l.primitives.filterMap f }

namespace Walk

/-- The walk with its layers seen through a view. -/
def through (f : Primitive → Option Primitive) (w : Walk) : Walk :=
  { w with closed := w.closed.map (Layer.through f), current := w.current.through f }

/-- A view that takes the drawings of one style to those of another. -/
structure Sees (f : Primitive → Option Primitive) (style style' : DetectorStyle) : Prop where
  unmarked : ∀ p, Unmarked p → f p = some p
  detector : ∀ w p slot,
    (label (detectorLabel style w) p slot).filterMap f = label (detectorLabel style' w) p slot
  observable : ∀ content p slot,
    (label ⟨"L" ++ content, "blue", false⟩ p slot).filterMap f =
      label ⟨"L" ++ content, "blue", false⟩ p slot

variable {f : Primitive → Option Primitive} {style style' : DetectorStyle}

/-! ### Layers -/

theorem draw_through (l : Layer) {ps ps' : List Primitive} (h : ps.filterMap f = ps') :
    (l.through f).draw ps' = (l.draw ps).through f := by
  have hprimitives : ((l.through f).draw ps').primitives = ((l.draw ps).through f).primitives := by
    apply Array.ext'
    rw [Frame.toList_draw]
    show (l.primitives.filterMap f).toList ++ ps' = ((l.draw ps).primitives.filterMap f).toList
    rw [Array.toList_filterMap, Array.toList_filterMap, Frame.toList_draw, List.filterMap_append, h]
  exact congrArg (fun primitives => { l with primitives := primitives }) hprimitives

theorem filterMap_unmarked (hf : ∀ p, Unmarked p → f p = some p) {ps : List Primitive}
    (hps : ∀ p ∈ ps, Unmarked p) : ps.filterMap f = ps := by
  induction ps with
  | nil => rfl
  | cons p ps ih =>
    obtain ⟨hp, hrest⟩ := List.forall_mem_cons.mp hps
    rw [List.filterMap_cons_some (hf p hp), ih hrest]

theorem draw_through_of_unmarked (hf : ∀ p, Unmarked p → f p = some p) (l : Layer)
    {ps : List Primitive} (hps : ∀ p ∈ ps, Unmarked p) :
    (l.through f).draw ps = (l.draw ps).through f :=
  draw_through l (filterMap_unmarked hf hps)

theorem onCurrent_through {g g' : Layer → Layer} (w : Walk)
    (h : g' (w.current.through f) = (g w.current).through f) :
    (w.through f).onCurrent g' = (w.onCurrent g).through f := by
  show { w.through f with current := g' (w.current.through f) } = _
  rw [h]
  rfl

theorem timeline_through (w : Walk) : (w.through f).timeline = w.timeline := rfl

theorem nextDetector_through (w : Walk) : (w.through f).nextDetector = w.nextDetector := rfl

theorem currentIndex_through (w : Walk) : (w.through f).currentIndex = w.currentIndex :=
  Array.size_map

theorem onLayer_through {g g' : Layer → Layer} (w : Walk) (i : Nat)
    (h : ∀ l : Layer, g' (l.through f) = (g l).through f) :
    (w.through f).onLayer i g' = (w.onLayer i g).through f := by
  unfold onLayer
  rw [currentIndex_through]
  split
  · exact onCurrent_through w (h _)
  · show { w.through f with closed := (w.closed.map (Layer.through f)).modify i g' } = _
    rw [← map_modify g' fun l => (h l).symm]
    rfl

/-! ### Gates and measurements -/

theorem measure_through (w : Walk) (q : Qubit) :
    (w.through f).measure q = (w.measure q).through f := by
  unfold measure
  rw [currentIndex_through]
  rfl

theorem drawBox_through (hf : ∀ p, Unmarked p → f p = some p) (w : Walk) (gate : SingleGate)
    (q : Qubit) : (w.through f).drawBox gate q = (w.drawBox gate q).through f := by
  unfold drawBox
  apply onCurrent_through
  exact draw_through_of_unmarked hf (w.current.touch q)
    (unmarked_box (label_boxStyle_ne gate) (fill_boxStyle_ne gate) _ _)

theorem drawPair_through (hf : ∀ p, Unmarked p → f p = some p) (w : Walk) (gate : PairGate)
    (action : PairAction) : (w.through f).drawPair gate action = (w.drawPair gate action).through f := by
  cases action with
  | edge a b =>
    unfold drawPair
    apply onCurrent_through
    exact draw_through_of_unmarked hf ((w.current.touch a).touch b) (unmarked_pair _ _ gate)
  | correction q =>
    unfold drawPair
    dsimp only
    rw [currentIndex_through]
    rfl
  | nothing => rfl

theorem foldl_touch_through (factors : List (Qubit × Pauli)) (l : Layer) :
    factors.foldl (fun l (q, _) => l.touch q) (l.through f) =
      (factors.foldl (fun l (q, _) => l.touch q) l).through f :=
  List.foldl_hom _ fun _ _ => rfl

theorem drawProduct_through (hf : ∀ p, Unmarked p → f p = some p) (w : Walk)
    (factors : List (Qubit × Pauli)) :
    (w.through f).drawProduct factors = (w.drawProduct factors).through f := by
  cases factors with
  | nil => rfl
  | cons g factors =>
    unfold drawProduct
    dsimp only
    rw [measure_through]
    apply onCurrent_through
    rw [foldl_touch_through]
    exact draw_through_of_unmarked hf _ (unmarked_product _ (productColor_ne _))

/-! ### Labels -/

theorem markLookback_through {look look' : LabelStyle}
    (hlook : ∀ p slot, (label look p slot).filterMap f = label look' p slot) (name : String) (w : Walk)
    (k : Int32) : markLookback look' name (w.through f) k = (markLookback look name w k).through f := by
  unfold markLookback
  rw [timeline_through]
  cases w.timeline.resolve? k.toInt with
  | none => rfl
  | some index =>
    dsimp only
    cases w.timeline.layerOf? index with
    | none => rfl
    | some owner =>
      refine onLayer_through { w with labels := w.labels.insert index (w.labels.getD index 0 + 1) }
        owner fun l => ?_
      have hmeasured : (l.through f).measurementPosition? index = l.measurementPosition? index := rfl
      rw [hmeasured]
      cases l.measurementPosition? index with
      | none => rfl
      | some p => exact draw_through l (hlook p _)

theorem markedUpTo_through (h : Sees f style style') (w : Walk) (o : Operation) (ks : List Int32) :
    markedUpTo style' (w.through f) o ks = (markedUpTo style w o ks).through f := by
  have hlook : ∀ p slot, (label (lookOf style w o) p slot).filterMap f =
      label (lookOf style' (w.through f) o) p slot := by
    intro p slot
    unfold lookOf
    split
    · exact h.detector w p slot
    · exact h.observable _ p slot
  have hopened : opened (w.through f) o = (opened w o).through f := by
    unfold opened
    split <;> rfl
  unfold markedUpTo
  rw [hopened]
  exact List.foldl_hom _ fun w k => markLookback_through hlook o.name w k

/-! ### Steps and runs -/

theorem unseen_through (hf : ∀ p, Unmarked p → f p = some p) : Unseen (through f) where
  declare w g qs := by
    refine onCurrent_through w ?_
    rw [foldl_declare, foldl_declare]
    rfl
  measure := measure_through
  drawBox := drawBox_through hf
  drawPair := drawPair_through hf
  drawProduct := drawProduct_through hf
  advance w := by
    show { w.through f with closed := (w.closed.map (Layer.through f)).push (w.current.through f),
                            current := w.current.successor } = _
    rw [← Array.map_push]
    rfl
  noteNoise channel w q := by
    unfold noteNoise
    rw [currentIndex_through]
    rfl

theorem Sees.step (h : Sees f style style') (w : Walk) (o : Operation) :
    step style' (w.through f) o = (step style w o).map (through f) := by
  cases hmark : o.isMarking with
  | false =>
    exact (unseen_through h.unmarked).step_of_shift (fun _ => rfl) (fun _ _ => rfl) style style' w
      hmark
  | true => exact step_of_marking hmark (markedUpTo_through h w o)

theorem Sees.foldlM (h : Sees f style style') (ops : List Operation) (w : Walk) :
    ops.foldlM (Walk.step style') (w.through f) =
      (ops.foldlM (Walk.step style) w).map (through f) := by
  induction ops generalizing w with
  | nil => rfl
  | cons o ops ih =>
    rw [List.foldlM_cons, List.foldlM_cons, h.step]
    cases Walk.step style w o with
    | error e => rfl
    | ok w' => exact ih w'

/-- **The walk under the one style is seen as the walk under the other**, and fails as it does. -/
theorem Sees.of (h : Sees f style style') (c : Circuit) :
    Walk.of style' c = (Walk.of style c).map (through f) := by
  have hstart : start.through f = start := by
    unfold through start
    rw [Array.map_empty]
    rfl
  rw [Walk.of, Walk.of, Circuit.run_eq_foldlM, Circuit.run_eq_foldlM, ← h.foldlM, hstart]

end Walk

end CircuitFrames
