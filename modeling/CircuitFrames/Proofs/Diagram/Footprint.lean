import CircuitFrames.Proofs.Diagram.Drawing
import CircuitFrames.Proofs.Diagram.Lookback

/-!
# Where a run draws

The layers and positions at which the gates and measurements of a history are drawn make up its
footprint. The layers of a walk use just those positions (`Covers`), whatever else the walk writes on
them: a label stands at a measurement, which is in the footprint already. So a layer is empty exactly
if no position of the footprint lies on it.
-/

namespace CircuitFrames

open Svg (Primitive)

/-! ### Footprints -/

namespace History

/-- The sites at which one operation draws. -/
def drawnSites (past : History) (o : Operation) : List Site :=
  o.drawn.map fun q => ⟨past.ticks, past.plane.coords.position q⟩

/-- The sites at which a history draws. -/
def footprint (h : History) : List Site :=
  along drawnSites [] h

@[simp] theorem footprint_snoc (h : History) (o : Operation) :
    footprint (h ++ [o]) = footprint h ++ drawnSites h o :=
  along_snoc h o drawnSites

theorem drawnSites_of_drawn_eq_nil {h : History} {o : Operation} (hdrawn : o.drawn = []) :
    drawnSites h o = [] := by
  rw [drawnSites, hdrawn, List.map_nil]

theorem mem_drawnSites {h : History} {o : Operation} {i : Nat} {p : Point} :
    (⟨i, p⟩ : Site) ∈ drawnSites h o ↔ i = h.ticks ∧ ∃ q ∈ o.drawn, h.plane.coords.position q = p := by
  simp only [drawnSites, List.mem_map, Site.mk.injEq]
  constructor
  · rintro ⟨q, hq, rfl, rfl⟩
    exact ⟨rfl, q, hq, rfl⟩
  · rintro ⟨rfl, q, hq, rfl⟩
    exact ⟨q, hq, rfl, rfl⟩

end History

/-! ### Layers that are used where they are drawn on -/

namespace Layer

/-- A layer that is empty only if no position is used, and measured only at positions that are. -/
structure Sound (l : Layer) : Prop where
  empty : l.isEmpty = true ↔ ∀ p, p ∉ l.used
  measured : ∀ i p, l.measurementPosition? i = some p → p ∈ l.used

variable {l l' : Layer}

theorem isEmpty_eq_true_iff (l : Layer) : l.isEmpty = true ↔ l.primitives.toList = [] := by
  rw [isEmpty, Array.isEmpty_iff, Array.toList_eq_nil_iff]

theorem sound_under (coords : CoordinateMap) : (under coords).Sound where
  empty := iff_of_true rfl fun _ => Std.ExtTreeSet.not_mem_empty
  measured := by
    intro i p hp
    simp [under, measurementPosition?] at hp

theorem Sound.drawn (h : l.Sound) {qs : List Qubit} {ps : List Primitive} (hdrawn : l.Drawn qs ps l')
    (hps : ps = [] ↔ qs = []) : l'.Sound where
  empty := by
    have hempty := h.empty
    rw [isEmpty_eq_true_iff] at hempty ⊢
    rw [hdrawn.primitives, List.append_eq_nil_iff, hempty, hps]
    simp only [hdrawn.used, not_or, not_exists, not_and, forall_and]
    refine and_congr_right fun _ => ?_
    constructor
    · rintro rfl p q hq
      cases hq
    · intro hqs
      exact List.eq_nil_iff_forall_not_mem.mpr fun q hq => hqs _ q hq rfl
  measured := by
    intro i p hp
    rw [hdrawn.used]
    exact (hdrawn.measured i p hp).imp_left (h.measured i p)

theorem Sound.draw (h : l.Sound) {i : Nat} {p : Point} (hp : l.measurementPosition? i = some p)
    {ps : List Primitive} (hps : ps ≠ []) : (l.draw ps).Sound where
  empty := by
    rw [isEmpty_eq_true_iff, Frame.toList_draw, List.append_eq_nil_iff]
    refine iff_of_false (fun hnil => hps hnil.2) fun hnone => ?_
    exact hnone p (h.measured i p hp)
  measured := h.measured

end Layer

namespace Walk

/-- The positions that each layer uses, the open layer last. -/
def canvas (w : Walk) : Array PointSet :=
  w.layers.map Layer.used

/-- All layers are sound. -/
def Sound (w : Walk) : Prop :=
  ∀ l ∈ w.layers, l.Sound

/-- No other positions are used than before, and sound layers stay sound. -/
structure Calm (w w' : Walk) : Prop where
  canvas : w'.canvas = w.canvas
  sound : w.Sound → w'.Sound

variable {w w' w'' : Walk}

theorem Calm.refl (w : Walk) : Calm w w :=
  ⟨rfl, id⟩

theorem Calm.trans (h : Calm w w') (h' : Calm w' w'') : Calm w w'' :=
  ⟨h'.canvas.trans h.canvas, h'.sound ∘ h.sound⟩

theorem Calm.of_layers_eq (h : w'.layers = w.layers) : Calm w w' := by
  constructor
  · rw [Walk.canvas, h, Walk.canvas]
  · unfold Sound
    rw [h]
    exact id

theorem forall_mem_modify {P : Layer → Prop} {f : Layer → Layer} (hf : ∀ l, P l → P (f l))
    {layers : Array Layer} (h : ∀ l ∈ layers, P l) (i : Nat) : ∀ l ∈ layers.modify i f, P l := by
  intro l hl
  obtain ⟨j, hj⟩ := Array.getElem?_of_mem hl
  rw [Array.getElem?_modify] at hj
  split at hj
  · obtain ⟨l', hl', rfl⟩ := Option.map_eq_some_iff.mp hj
    exact hf l' (h l' (Array.mem_of_getElem? hl'))
  · exact h l (Array.mem_of_getElem? hj)

theorem Calm.of_layers_modify {i : Nat} {f : Layer → Layer} (h : w'.layers = w.layers.modify i f)
    (hused : ∀ l, (f l).used = l.used) (hsound : ∀ l : Layer, l.Sound → (f l).Sound) : Calm w w' := by
  constructor
  · rw [Walk.canvas, h, map_modify id hused, modify_id]
    rfl
  · intro hw
    unfold Sound
    rw [h]
    exact forall_mem_modify hsound hw i

theorem Calm.foldl {α : Type} {f : Walk → α → Walk} (hf : ∀ w a, Calm w (f w a)) (as : List α)
    (w : Walk) : Calm w (as.foldl f w) :=
  foldl_relates .refl (fun _ _ _ h h' => h.trans h') hf as w

theorem label_ne_nil (look : LabelStyle) (p : Point) (slot : Nat) : label look p slot ≠ [] := by
  unfold label
  cases look.highlighted <;> exact List.cons_ne_nil _ _

theorem calm_labelOn (look : LabelStyle) (w : Walk) (owner index slot : Nat) :
    Calm w (w.onLayer owner (labelOn look index slot)) := by
  refine .of_layers_modify (w.layers_onLayer owner _) (fun l => ?_) (fun l hl => ?_)
  · unfold labelOn
    split <;> rfl
  · unfold labelOn
    split
    next => exact hl
    next p hp => exact hl.draw hp (label_ne_nil _ _ _)

theorem calm_markedUpTo (style : DetectorStyle) (o : Operation) (ks : List Int32) (w : Walk) :
    Calm w (markedUpTo style w o ks) :=
  markedUpTo_relates (fun _ _ _ => .trans) (fun _ _ _ _ => .of_layers_eq rfl) (calm_labelOn _) ks

theorem calm_declare (g : GridPoint) (qs : List Qubit) (w : Walk) : Calm w (w.declare g qs) := by
  refine .of_layers_modify (w.layers_onCurrent _) (fun l => ?_) (fun l hl => ?_)
  · rw [foldl_declare]
  · rw [foldl_declare]
    exact ⟨hl.empty, hl.measured⟩

theorem Stepped.calm {style : DetectorStyle} {o : Operation} (h : Stepped style w o w')
    (hgate : o.isGate = false) (htick : o.isTick = false) : Calm w w' := by
  cases h with
  | declared => exact calm_declare _ _ w
  | shifted => exact .of_layers_eq rfl
  | marking => exact calm_markedUpTo style o _ w
  | noted => exact .foldl (f := noteNoise _) (fun _ _ => .of_layers_eq rfl) _ w
  | ticked kind => simp [Operation.isTick, kind] at htick
  | singles kind | pairs kind | products kind => simp [Operation.isGate, kind] at hgate

/-! ### Covering a footprint -/

/-- A walk that follows a history and uses the positions of its footprint, layer by layer. -/
structure Covers (past : History) (w : Walk) : Prop where
  follows : Follows past w
  sound : w.Sound
  footprint : ∀ i p, (⟨i, p⟩ : Site) ∈ past.footprint ↔ ∃ s, w.canvas[i]? = some s ∧ p ∈ s

theorem eq_empty_of_mem_layers_start {l : Layer} (hl : l ∈ start.layers) : l = .empty := by
  simpa [layers, start] using hl

theorem covers_start : Covers [] start where
  follows := follows_start
  sound := by
    intro l hl
    obtain rfl := eq_empty_of_mem_layers_start hl
    exact Layer.sound_under _
  footprint := by
    intro i p
    refine iff_of_false (by simp [History.footprint, History.along]) ?_
    rintro ⟨s, hs, hp⟩
    obtain ⟨l, hl, rfl⟩ := Option.map_eq_some_iff.mp (Array.getElem?_map.symm.trans hs)
    obtain rfl := eq_empty_of_mem_layers_start (Array.mem_of_getElem? hl)
    exact Std.ExtTreeSet.not_mem_empty hp

variable {past : History}

theorem Follows.currentIndex (h : Follows past w) : w.currentIndex = past.ticks := by
  have hsize := h.accounts.size
  rw [size_places] at hsize
  omega

theorem Covers.calm (h : Covers past w) {o : Operation} (hfollows : Follows (past ++ [o]) w')
    (hcalm : Calm w w') (hdrawn : o.drawn = []) : Covers (past ++ [o]) w' where
  follows := hfollows
  sound := hcalm.sound h.sound
  footprint := by
    rw [hcalm.canvas, History.footprint_snoc, History.drawnSites_of_drawn_eq_nil hdrawn,
      List.append_nil]
    exact h.footprint

theorem canvas_eq (w : Walk) : w.canvas = (w.closed.map Layer.used).push w.current.used := by
  rw [canvas, layers, Array.map_push]

theorem Covers.advance (h : Covers past w) {o : Operation} (hfollows : Follows (past ++ [o]) w.advance)
    (hdrawn : o.drawn = []) : Covers (past ++ [o]) w.advance where
  follows := hfollows
  sound := by
    intro l hl
    rcases Array.mem_push.mp hl with hl | rfl
    · exact h.sound l hl
    · exact Layer.sound_under _
  footprint := by
    intro i p
    rw [History.footprint_snoc, History.drawnSites_of_drawn_eq_nil hdrawn, List.append_nil,
      h.footprint]
    have hcanvas : w.advance.canvas = w.canvas.push ∅ := by
      show (w.layers.push w.current.successor).map Layer.used = _
      rw [Array.map_push]
      rfl
    rw [hcanvas, Array.getElem?_push]
    split
    next hi =>
      rw [hi, Array.getElem?_eq_none (Nat.le_refl _)]
      simp
    next => rfl

theorem Covers.inks (h : Covers past w) {o : Operation} (hfollows : Follows (past ++ [o]) w')
    {ps : List Primitive} (hinks : Inks o.drawn ps w w') (hps : ps = [] ↔ o.drawn = []) :
    Covers (past ++ [o]) w' where
  follows := hfollows
  sound := by
    intro l hl
    unfold layers at hl
    rw [hinks.closed] at hl
    rcases Array.mem_push.mp hl with hl | rfl
    · exact h.sound l (Array.mem_push_of_mem _ hl)
    · exact (h.sound w.current Array.mem_push_self).drawn hinks.current hps
  footprint := by
    intro i p
    have hcoords : w.current.coords = past.plane.coords := h.follows.accounts.coords
    have hticks : (w.closed.map Layer.used).size = past.ticks := by
      rw [Array.size_map]
      exact h.follows.currentIndex
    rw [History.footprint_snoc, List.mem_append, h.footprint, History.mem_drawnSites, canvas_eq,
      canvas_eq, hinks.closed, Array.getElem?_push, Array.getElem?_push, hticks]
    split
    next hi =>
      simp [hi, hinks.current.used, hcoords]
    next hi => simp [hi]

/-- **A step covers what its operation draws.** -/
theorem Covers.step (h : Covers past w) {style : DetectorStyle} {o : Operation}
    (hstep : Stepped style w o w') : Covers (past ++ [o]) w' := by
  have hfollows := h.follows.step hstep
  cases hgate : o.isGate with
  | true => exact h.inks hfollows (hstep.inks hgate) (hstep.glyphs_eq_nil_iff _)
  | false =>
    have hdrawn := (Operation.of_not_isGate hgate).1
    cases htick : o.isTick with
    | false => exact h.calm hfollows (hstep.calm hgate htick) hdrawn
    | true =>
      have hkind : o.kind = .tick := by simpa [Operation.isTick] using htick
      cases hstep with
      | ticked => exact h.advance hfollows hdrawn
      | declared kind | shifted kind | singles kind | pairs kind | products kind | noted kind =>
        rw [hkind] at kind
        cases kind
      | marking kind =>
        rw [hkind] at kind
        rcases kind with kind | kind <;> cases kind

/-- **A walk covers the footprint of its run.** -/
theorem covers_of_foldlM {style : DetectorStyle} {ops : List Operation}
    (h : ops.foldlM (Walk.step style) start = .ok w) : Covers ops w :=
  foldlM_keeps (P := Covers) (fun _ _ _ _ h hstep => h.step (stepped_of_step hstep)) covers_start h

/-! ### Layers of a walk that covers its run -/

theorem Covers.mem_used (h : Covers past w) {i : Nat} {l : Layer} (hl : w.layers[i]? = some l)
    (p : Point) : p ∈ l.used ↔ (⟨i, p⟩ : Site) ∈ past.footprint := by
  rw [h.footprint, canvas, Array.getElem?_map, hl]
  simp

theorem Covers.isEmpty_iff (h : Covers past w) {i : Nat} {l : Layer} (hl : w.layers[i]? = some l) :
    l.isEmpty = true ↔ ∀ p, (⟨i, p⟩ : Site) ∉ past.footprint := by
  rw [(h.sound l (Array.mem_of_getElem? hl)).empty]
  simp only [h.mem_used hl]

theorem Covers.layer_le (h : Covers past w) {s : Site} (hs : s ∈ past.footprint) :
    s.layer ≤ past.ticks := by
  obtain ⟨used, hused, -⟩ := (h.footprint s.layer s.position).mp hs
  have hlt := (Array.getElem?_eq_some_iff.mp hused).1
  rw [canvas, Array.size_map, size_layers, h.follows.currentIndex] at hlt
  omega

end Walk

end CircuitFrames
