import CircuitFrames.Proofs.Diagram.Footprint

/-!
# What holds on every layer of a run

A layer is empty at first. From then on glyphs of operations come to it as long as it is open, and
labels of measurements at any time. So what holds of the empty list of primitives, and still holds with
further glyphs and labels behind, holds on every layer of a run (`forall_mem_layers_of_foldlM`).
-/

namespace CircuitFrames

open Svg (Primitive)

namespace Walk

/-- A property of lists of primitives that further glyphs and further labels keep. -/
structure Inductive (style : DetectorStyle) (Q : List Primitive → Prop) : Prop where
  blank : Q []
  glyphs : ∀ ps coords (o : Operation), Q ps → Q (ps ++ o.glyphs coords)
  label : ∀ ps w o p slot, Q ps → Q (ps ++ label (lookOf style w o) p slot)

variable {style : DetectorStyle} {Q : List Primitive → Prop} {w w' : Walk} {o : Operation}

/-- The property holds on every layer. -/
def Everywhere (Q : List Primitive → Prop) (w : Walk) : Prop :=
  ∀ l ∈ w.layers, Q l.primitives.toList

theorem everywhere_of_layers_eq (h : w'.layers = w.layers) (hw : w.Everywhere Q) :
    w'.Everywhere Q := by
  unfold Everywhere
  rw [h]
  exact hw

theorem everywhere_of_layers_modify {i : Nat} {f : Layer → Layer}
    (h : w'.layers = w.layers.modify i f)
    (hf : ∀ l : Layer, Q l.primitives.toList → Q (f l).primitives.toList) (hw : w.Everywhere Q) :
    w'.Everywhere Q := by
  unfold Everywhere
  rw [h]
  exact forall_mem_modify hf hw i

theorem everywhere_markedUpTo (hQ : Inductive style Q) (hw : w.Everywhere Q) (o : Operation)
    (ks : List Int32) : (markedUpTo style w o ks).Everywhere Q := by
  have hlabel (s : Walk) (owner index slot : Nat) (hs : s.Everywhere Q) :
      (s.onLayer owner (labelOn (lookOf style w o) index slot)).Everywhere Q := by
    refine everywhere_of_layers_modify (s.layers_onLayer owner _) (fun l hl => ?_) hs
    unfold labelOn
    split
    · exact hl
    · rw [Frame.toList_draw]
      exact hQ.label _ w o _ _ hl
  exact markedUpTo_relates (R := fun s t => s.Everywhere Q → t.Everywhere Q)
    (fun _ _ _ h h' => h' ∘ h) (fun _ _ _ _ => id) hlabel ks hw

theorem Stepped.everywhere (hQ : Inductive style Q) (h : Stepped style w o w')
    (hw : w.Everywhere Q) : w'.Everywhere Q := by
  have hgate (hgate : o.isGate = true) : w'.Everywhere Q := by
    have hinks := h.inks hgate
    intro l hl
    unfold layers at hl
    rw [hinks.closed] at hl
    rcases Array.mem_push.mp hl with hl | rfl
    · exact hw l (Array.mem_push_of_mem _ hl)
    · rw [hinks.current.primitives]
      exact hQ.glyphs _ _ o (hw w.current Array.mem_push_self)
  cases h with
  | singles kind | pairs kind | products kind => exact hgate (by rw [Operation.isGate, kind])
  | declared =>
    refine everywhere_of_layers_modify (w.layers_onCurrent _) (fun l hl => ?_) hw
    rw [foldl_declare]
    exact hl
  | shifted => exact hw
  | ticked =>
    intro l hl
    rcases Array.mem_push.mp hl with hl | rfl
    · exact hw l hl
    · exact hQ.blank
  | marking => exact everywhere_markedUpTo hQ hw o _
  | @noted channel qs =>
    have hlayers : (qs.foldl (noteNoise channel) w).layers = w.layers :=
      foldl_relates (R := fun s t : Walk => t.layers = s.layers) (f := noteNoise channel)
        (fun _ => rfl) (fun _ _ _ h h' => h'.trans h) (fun _ _ => rfl) qs w
    exact everywhere_of_layers_eq hlayers hw

/-- **What further glyphs and labels keep holds on every layer of a run.** -/
theorem forall_mem_layers_of_foldlM (hQ : Inductive style Q) {ops : List Operation}
    (h : ops.foldlM (step style) start = .ok w) : ∀ l ∈ w.layers, Q l.primitives.toList := by
  have hstart : start.Everywhere Q := by
    intro l hl
    obtain rfl := eq_empty_of_mem_layers_start hl
    exact hQ.blank
  exact foldlM_relates (R := fun s t : Walk => s.Everywhere Q → t.Everywhere Q) (fun _ => id)
    (fun _ _ _ h h' => h' ∘ h) (fun _ _ _ hstep => (stepped_of_step hstep).everywhere hQ) h hstart

/-! ### Font sizes -/

end Walk

/-- The font size of a text. -/
def fontSize? : Primitive → Option Nat
  | .text _ _ _ _ size _ _ => some size
  | _ => none

/-- The font sizes of labels and of the glyphs of gates and measurements. -/
def drawnSizes : List Nat :=
  [16, 18, 24, 32]

theorem labelSize_mem (label : String) : Glyph.labelSize label ∈ drawnSizes := by
  unfold Glyph.labelSize
  split <;> decide

/-- What a primitive has for a font size, if it has one, is one of those of a walk. -/
def Sized (p : Primitive) : Prop :=
  ∀ s, fontSize? p = some s → s ∈ drawnSizes

theorem Bare.sized {p : Primitive} (h : Bare p) : Sized p := by
  cases h <;> exact nofun

theorem sized_box (q : Point) (label fill color : String) :
    ∀ p ∈ Glyph.box q label fill color, Sized p := by
  intro p hp
  rcases List.mem_pair.mp hp with rfl | rfl
  · exact nofun
  · rintro s ⟨⟩
    exact labelSize_mem label

namespace Walk

theorem sized_label (look : LabelStyle) (p : Point) (slot : Nat) :
    ∀ q ∈ label look p slot, Sized q := by
  have htext (x y : Float) (content fill : String) :
      Sized ((Primitive.label x y content fill 16).aligned .start .hanging) := by
    rintro s ⟨⟩
    decide
  intro q hq
  unfold label at hq
  split at hq
  · rcases List.mem_pair.mp hq with rfl | rfl
    · exact nofun
    · exact htext _ _ _ _
  · obtain rfl := List.mem_singleton.mp hq
    exact htext _ _ _ _

theorem sized_of_foldlM {style : DetectorStyle} {ops : List Operation} {w : Walk}
    (h : ops.foldlM (step style) start = .ok w) {l : Layer} (hl : l ∈ w.layers) :
    ∀ p ∈ l.primitives.toList, Sized p := by
  refine forall_mem_layers_of_foldlM (Q := fun ps => ∀ p ∈ ps, Sized p) ⟨nofun, ?_, ?_⟩ h l hl
  · intro ps coords o hps
    exact List.forall_mem_append.mpr
      ⟨hps, Operation.forall_mem_glyphs (fun _ => Bare.sized) (fun _ _ q => sized_box q _ _) coords o⟩
  · intro ps w o p slot hps
    exact List.forall_mem_append.mpr ⟨hps, sized_label _ p slot⟩

end Walk

end CircuitFrames
