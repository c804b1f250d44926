import CircuitFrames.Proofs.Circuit.Pairs
import CircuitFrames.Proofs.Diagram.Glyphs
import CircuitFrames.Proofs.Diagram.Step

/-!
# What an operation draws

Gates and measurements are all that draws glyphs. Which glyphs these are (`Operation.glyphs`) and at
which qubits they stand (`Operation.drawn`) follows from the targets and the coordinates in force, and
a step adds just them to the open layer (`Stepped.inks`). For a two-qubit gate this tells what becomes
of each of its pairs (`pairs_drawn_or_corrected_unless_stray`).
-/

namespace CircuitFrames

open Svg (Primitive)

namespace Operation

/-! ### Glyphs and their qubits -/

/-- The qubits at whose positions the operation draws. -/
def drawn (o : Operation) : List Qubit :=
  match o.kind with
  | .single _ => o.targets.filterMap Target.plain?
  | .pair _ => o.edges.flatMap fun e => [e.1, e.2]
  | .pauliProduct => o.targets.filterMap Target.touched?
  | _ => []

/-- The box of a gate on a qubit. -/
def boxGlyph (coords : CoordinateMap) (gate : SingleGate) (q : Qubit) : List Primitive :=
  Glyph.box (coords.position q) (Glyph.boxStyle gate).label (Glyph.boxStyle gate).fill
    (Glyph.boxStyle gate).textColor

/-- The edge of a gate between two qubits. -/
def edgeGlyph (coords : CoordinateMap) (gate : PairGate) (e : Qubit × Qubit) : List Primitive :=
  Glyph.pair (coords.position e.1) (coords.position e.2) gate

/-- The fan of a product. -/
def productGlyph (coords : CoordinateMap) (factors : List (Qubit × Pauli)) : List Primitive :=
  Glyph.product (factors.map fun f => (coords.position f.1, f.2)) (productColor factors)

/-- What the operation draws under some coordinates, from back to front. -/
def glyphs (coords : CoordinateMap) (o : Operation) : List Primitive :=
  match o.kind with
  | .single gate => (o.targets.filterMap Target.plain?).flatMap (boxGlyph coords gate)
  | .pair gate => o.edges.flatMap (edgeGlyph coords gate)
  | .pauliProduct => (o.products.toOption.getD []).flatMap (productGlyph coords)
  | _ => []

/-- Whether the operation is a gate or a measurement. -/
def isGate (o : Operation) : Bool :=
  match o.kind with
  | .single _ | .pair _ | .pauliProduct => true
  | _ => false

/-- Whether there is something to draw: a target, or for a two-qubit gate a pair without a record. -/
def draws (o : Operation) : Bool :=
  match o.kind with
  | .single _ | .pauliProduct => !o.targets.isEmpty
  | .pair _ => (Target.pairUp o.targets).any fun ab => !Target.refers ab
  | _ => false

variable {o : Operation}

theorem of_not_isGate (h : o.isGate = false) :
    o.drawn = [] ∧ (∀ coords, o.glyphs coords = []) ∧ o.draws = false := by
  unfold isGate at h
  unfold drawn glyphs draws
  cases hkind : o.kind <;> simp_all

/-- What holds of circles, of lines, and of boxes in other colours than that of highlights and with no
name of a detector holds of whatever an operation draws. -/
theorem forall_mem_glyphs {P : Primitive → Prop} (hbare : ∀ p, Bare p → P p)
    (hbox : ∀ {label fill : String}, label.toList.head? ≠ some 'D' → fill ≠ "#FF8000" →
      ∀ q color, ∀ p ∈ Glyph.box q label fill color, P p)
    (coords : CoordinateMap) (o : Operation) : ∀ p ∈ o.glyphs coords, P p := by
  intro p hp
  unfold glyphs at hp
  cases hkind : o.kind with
  | single gate =>
    rw [hkind] at hp
    obtain ⟨q, -, hp⟩ := List.mem_flatMap.mp hp
    exact hbox (label_boxStyle_ne gate) (fill_boxStyle_ne gate) _ _ p hp
  | pair gate =>
    rw [hkind] at hp
    obtain ⟨e, -, hp⟩ := List.mem_flatMap.mp hp
    exact hbare p (bare_pair _ _ _ p hp)
  | pauliProduct =>
    rw [hkind] at hp
    obtain ⟨factors, -, hp⟩ := List.mem_flatMap.mp hp
    exact forall_mem_product hbare hbox _ (productColor_ne factors) p hp
  | _ => simp [hkind] at hp

theorem unmarked_glyphs (coords : CoordinateMap) (o : Operation) :
    ∀ p ∈ o.glyphs coords, Unmarked p :=
  forall_mem_glyphs (fun _ => Bare.unmarked) unmarked_box coords o

end Operation

/-! ### Drawing on a layer -/

namespace Layer

/-- A layer on which something is drawn at some qubits, some of which may be measured. -/
structure Drawn (qs : List Qubit) (ps : List Primitive) (l l' : Layer) : Prop where
  coords : l'.coords = l.coords
  used : ∀ p, p ∈ l'.used ↔ p ∈ l.used ∨ ∃ q ∈ qs, l.coords.position q = p
  primitives : l'.primitives.toList = l.primitives.toList ++ ps
  measured : ∀ i p, l'.measurementPosition? i = some p →
    l.measurementPosition? i = some p ∨ ∃ q ∈ qs, l.coords.position q = p

variable {qs qs' : List Qubit} {ps ps' : List Primitive} {l l' l'' : Layer}

theorem Drawn.refl (l : Layer) : Drawn [] [] l l :=
  ⟨rfl, by simp, by simp, fun _ _ => .inl⟩

theorem Drawn.trans (h : Drawn qs ps l l') (h' : Drawn qs' ps' l' l'') :
    Drawn (qs ++ qs') (ps ++ ps') l l'' where
  coords := h'.coords.trans h.coords
  used := by
    intro p
    rw [h'.used, h.used, h.coords, or_assoc]
    simp only [List.mem_append, or_and_right, exists_or]
  primitives := by rw [h'.primitives, h.primitives, List.append_assoc]
  measured := by
    intro i p hp
    rcases h'.measured i p hp with hp | ⟨q, hq, rfl⟩
    · rcases h.measured i p hp with hp | ⟨q, hq, rfl⟩
      · exact .inl hp
      · exact .inr ⟨q, List.mem_append_left _ hq, rfl⟩
    · exact .inr ⟨q, List.mem_append_right _ hq, by rw [h.coords]⟩

theorem Drawn.congr (h : Drawn qs ps l l') (hqs : ∀ q, q ∈ qs ↔ q ∈ qs') : Drawn qs' ps l l' :=
  ⟨h.coords, fun p => by simp only [h.used, hqs], h.primitives,
    fun i p hp => by simpa only [hqs] using h.measured i p hp⟩

theorem mem_used_touch (l : Layer) (q : Qubit) (p : Point) :
    p ∈ (l.touch q).used ↔ p ∈ l.used ∨ l.coords.position q = p := by
  show p ∈ l.used.insert (l.position q) ↔ _
  rw [Std.ExtTreeSet.mem_insert, Std.LawfulEqCmp.compare_eq_iff_eq, or_comm]
  rfl

theorem drawn_touch (l : Layer) (q : Qubit) : Drawn [q] [] l (l.touch q) where
  coords := rfl
  used := by simp [mem_used_touch]
  primitives := (List.append_nil _).symm
  measured _ _ := .inl

theorem drawn_draw (l : Layer) (ps : List Primitive) : Drawn [] ps l (l.draw ps) :=
  ⟨rfl, by simp [draw], Frame.toList_draw l ps, fun _ _ => .inl⟩

theorem drawn_measure (l : Layer) (i : Nat) (q : Qubit) :
    Drawn [q] [] l ((l.touch q).recordMeasurement i (l.position q)) where
  coords := rfl
  used := by
    intro p
    have h := l.mem_used_touch q p
    simp only [List.mem_singleton, exists_eq_left]
    exact h
  primitives := (List.append_nil _).symm
  measured := by
    intro j p hp
    replace hp : (l.measurements.insert i (l.position q))[j]? = some p := hp
    rw [Std.ExtTreeMap.getElem?_insert] at hp
    split at hp
    · exact .inr ⟨q, List.mem_singleton_self q, Option.some.inj hp⟩
    · exact .inl hp

theorem drawn_foldl_touch (factors : List (Qubit × Pauli)) (l : Layer) :
    Drawn (factors.map (·.1)) [] l (factors.foldl (fun l (q, _) => l.touch q) l) := by
  induction factors generalizing l with
  | nil => exact .refl l
  | cons f factors ih => exact (l.drawn_touch f.1).trans (ih (l.touch f.1))

end Layer

namespace Walk

/-- A walk whose open layer is drawn on at some qubits, with all other layers as they were. -/
structure Inks (qs : List Qubit) (ps : List Primitive) (w w' : Walk) : Prop where
  closed : w'.closed = w.closed
  current : w.current.Drawn qs ps w'.current

variable {qs qs' : List Qubit} {ps ps' : List Primitive} {w w' w'' : Walk}

theorem Inks.refl (w : Walk) : Inks [] [] w w :=
  ⟨rfl, .refl _⟩

theorem Inks.trans (h : Inks qs ps w w') (h' : Inks qs' ps' w' w'') :
    Inks (qs ++ qs') (ps ++ ps') w w'' :=
  ⟨h'.closed.trans h.closed, h.current.trans h'.current⟩

theorem Inks.congr (h : Inks qs ps w w') (hqs : ∀ q, q ∈ qs ↔ q ∈ qs') : Inks qs' ps w w' :=
  ⟨h.closed, h.current.congr hqs⟩

theorem Inks.foldl {α : Type} {f : Walk → α → Walk} {coords : CoordinateMap} {qs : α → List Qubit}
    {ps : α → List Primitive} {as : List α}
    (hf : ∀ a ∈ as, ∀ w : Walk, w.current.coords = coords → Inks (qs a) (ps a) w (f w a))
    (hw : w.current.coords = coords) : Inks (as.flatMap qs) (as.flatMap ps) w (as.foldl f w) := by
  induction as generalizing w with
  | nil => exact .refl w
  | cons a as ih =>
    obtain ⟨ha, has⟩ := List.forall_mem_cons.mp hf
    have hfirst := ha w hw
    exact hfirst.trans (ih has (hfirst.current.coords.trans hw))

theorem inks_measure (w : Walk) (q : Qubit) : Inks [q] [] w (w.measure q) :=
  ⟨rfl, w.current.drawn_measure _ q⟩

theorem inks_drawBox (w : Walk) (gate : SingleGate) (q : Qubit) :
    Inks [q] (Operation.boxGlyph w.current.coords gate q) w (w.drawBox gate q) :=
  ⟨rfl, (w.current.drawn_touch q).trans (Layer.drawn_draw _ _)⟩

theorem inks_drawSingles (w : Walk) (gate : SingleGate) (qs : List Qubit) :
    Inks qs (qs.flatMap (Operation.boxGlyph w.current.coords gate)) w (w.drawSingles gate qs) := by
  have hboxes : ∀ v : Walk, v.current.coords = w.current.coords →
      Inks qs (qs.flatMap (Operation.boxGlyph w.current.coords gate)) v
        (qs.foldl (·.drawBox gate ·) v) := by
    intro v hv
    have h : Inks (qs.flatMap fun q => [q]) _ v (qs.foldl (·.drawBox gate ·) v) :=
      .foldl (fun q _ v hv => hv ▸ v.inks_drawBox gate q) hv
    rwa [List.flatMap_singleton'] at h
  unfold drawSingles
  cases gate.isMeasurement with
  | false => exact hboxes w rfl
  | true =>
    -- all qubits are measured first, so each of them is used twice
    have hmeasured : Inks (qs.flatMap fun q => [q]) _ w (qs.foldl measure w) :=
      .foldl (fun q _ v _ => v.inks_measure q) (Eq.refl w.current.coords)
    have h := hmeasured.trans (hboxes _ hmeasured.current.coords)
    rw [List.flatMap_singleton', List.flatMap_eq_nil_iff.mpr fun _ _ => rfl, List.nil_append] at h
    exact h.congr (by simp)

theorem inks_drawPair (w : Walk) (gate : PairGate) (action : PairAction) :
    Inks (action.edge?.toList.flatMap fun e => [e.1, e.2])
      (action.edge?.toList.flatMap (Operation.edgeGlyph w.current.coords gate)) w
      (w.drawPair gate action) := by
  cases action with
  | edge a b =>
    have htouched := (w.current.drawn_touch a).trans ((w.current.touch a).drawn_touch b)
    have hdrawn := htouched.trans (Layer.drawn_draw _
      (Glyph.pair (w.current.position a) (w.current.position b) gate))
    refine ⟨rfl, ?_⟩
    show w.current.Drawn [a, b] (_ ++ []) _
    rw [List.append_nil]
    exact hdrawn
  | correction q => exact ⟨rfl, .refl _⟩
  | nothing => exact .refl w

theorem inks_drawProduct (w : Walk) {factors : List (Qubit × Pauli)} (hne : factors ≠ []) :
    Inks (factors.map (·.1)) (Operation.productGlyph w.current.coords factors) w
      (w.drawProduct factors) := by
  cases factors with
  | nil => exact absurd rfl hne
  | cons f factors =>
    have hmeasured := w.inks_measure f.1
    have htouched := Layer.drawn_foldl_touch (f :: factors) (w.measure f.1).current
    have hdrawn := hmeasured.current.trans (htouched.trans (Layer.drawn_draw _
      (Operation.productGlyph w.current.coords (f :: factors))))
    refine Inks.congr ⟨rfl, hdrawn⟩ ?_
    simp

/-- **A gate or a measurement draws its glyphs on the open layer**, and nothing else. -/
theorem Stepped.inks {style : DetectorStyle} {o : Operation} (h : Stepped style w o w')
    (hgate : o.isGate = true) : Inks o.drawn (o.glyphs w.current.coords) w w' := by
  unfold Operation.isGate at hgate
  unfold Operation.drawn Operation.glyphs
  cases h with
  | @singles gate qs kind read =>
    rw [kind]
    dsimp only
    rw [Operation.filterMap_of_map_eq_some (o.qubits_eq_ok.mp read)]
    exact w.inks_drawSingles gate qs
  | @pairs gate actions kind read =>
    have h : Inks _ _ w (actions.foldl (·.drawPair gate ·) w) :=
      .foldl (fun action _ v hv => hv ▸ v.inks_drawPair gate action) (Eq.refl w.current.coords)
    have hedges : actions.flatMap (fun action => action.edge?.toList) = o.edges := by
      rw [← (Operation.edges_of_pairs read).1, List.filterMap_eq_flatMap_toList]
    rw [kind, ← hedges]
    dsimp only
    rwa [List.flatMap_assoc, List.flatMap_assoc]
  | @products ps kind read =>
    have hne := o.ne_nil_of_products read
    have h : Inks _ _ w (ps.foldl drawProduct w) :=
      .foldl (fun factors hmem v hv => hv ▸ v.inks_drawProduct (hne factors hmem))
        (Eq.refl w.current.coords)
    rw [kind]
    dsimp only
    rw [o.touched_of_products read, read, List.map_flatten, ← List.flatMap_def]
    exact h
  | declared kind | shifted kind | ticked kind | noted kind => simp [kind] at hgate
  | marking kind => rcases kind with kind | kind <;> simp [kind] at hgate

/-! ### Whether anything is drawn -/

theorem flatMap_eq_nil_iff_of_ne_nil {α β : Type} {f : α → List β} {as : List α}
    (h : ∀ a ∈ as, f a ≠ []) : as.flatMap f = [] ↔ as = [] := by
  cases as with
  | nil => simp
  | cons a as => simp [h a List.mem_cons_self]

variable {style : DetectorStyle} {o : Operation}

theorem touched_eq_nil_iff {ps : List (List (Qubit × Pauli))} (read : o.products = .ok ps) :
    o.targets.filterMap Target.touched? = [] ↔ ps = [] := by
  have hqubits : ∀ factors ∈ ps, factors.map (·.1) ≠ [] := by
    intro factors hmem
    simpa using o.ne_nil_of_products read factors hmem
  rw [o.touched_of_products read, List.map_flatten, ← List.flatMap_def,
    flatMap_eq_nil_iff_of_ne_nil hqubits]

theorem Stepped.glyphs_eq_nil_iff (h : Stepped style w o w') (coords : CoordinateMap) :
    o.glyphs coords = [] ↔ o.drawn = [] := by
  have hquiet (hgate : o.isGate = false) : o.glyphs coords = [] ↔ o.drawn = [] := by
    obtain ⟨hdrawn, hglyphs, -⟩ := Operation.of_not_isGate hgate
    exact iff_of_true (hglyphs coords) hdrawn
  unfold Operation.glyphs Operation.drawn at *
  cases h with
  | singles kind read =>
    rw [kind]
    exact flatMap_eq_nil_iff_of_ne_nil fun _ _ => List.cons_ne_nil _ _
  | @pairs gate actions kind read =>
    rw [kind]
    have hedges : ∀ e ∈ o.edges, Operation.edgeGlyph coords gate e ≠ [] :=
      fun _ _ => List.cons_ne_nil _ _
    exact (flatMap_eq_nil_iff_of_ne_nil hedges).trans
      (flatMap_eq_nil_iff_of_ne_nil fun _ _ => List.cons_ne_nil _ _).symm
  | @products ps kind read =>
    have hfans : ∀ factors ∈ ps, Operation.productGlyph coords factors ≠ [] := by
      intro factors hmem
      exact product_ne_nil (by simpa using o.ne_nil_of_products read factors hmem) _
    rw [kind]
    dsimp only
    rw [touched_eq_nil_iff read, read]
    exact flatMap_eq_nil_iff_of_ne_nil hfans
  | declared kind | shifted kind | ticked kind | noted kind =>
    exact hquiet (by simp [Operation.isGate, kind])
  | marking kind => exact hquiet (by rcases kind with kind | kind <;> simp [Operation.isGate, kind])

theorem Stepped.draws_iff (h : Stepped style w o w') : o.draws = true ↔ o.drawn ≠ [] := by
  have hquiet (hgate : o.isGate = false) : o.draws = true ↔ o.drawn ≠ [] := by
    obtain ⟨hdrawn, -, hdraws⟩ := Operation.of_not_isGate hgate
    simp [hdrawn, hdraws]
  cases h with
  | @singles gate qs kind read =>
    have hts := o.qubits_eq_ok.mp read
    have hlength := Operation.length_of_map_eq_some hts
    unfold Operation.draws Operation.drawn
    rw [kind]
    dsimp only
    rw [Operation.filterMap_of_map_eq_some hts, Bool.not_eq_true', List.isEmpty_eq_false_iff,
      ← List.length_pos_iff, ← List.length_pos_iff, hlength]
  | @pairs gate actions kind read =>
    obtain ⟨-, htaken⟩ := o.exists_pairs_iff.mp ⟨actions, read⟩
    unfold Operation.draws Operation.drawn Operation.edges
    rw [kind]
    dsimp only
    rw [List.any_eq_true, Ne, List.flatMap_eq_nil_iff]
    simp only [List.mem_filterMap, reduceCtorEq, imp_false, not_forall, not_not, Bool.not_eq_true']
    constructor
    · rintro ⟨ab, hab, hrefers⟩
      obtain ⟨e, he⟩ : ∃ e, Target.edge? ab = some e := by
        simpa [hrefers, Option.isSome_iff_exists] using htaken ab hab
      exact ⟨e, ab, hab, he⟩
    · rintro ⟨e, ab, hab, he⟩
      refine ⟨ab, hab, ?_⟩
      by_contra hrefers
      rw [Target.edge?_of_refers (by simpa using hrefers)] at he
      cases he
  | @products ps kind read =>
    unfold Operation.draws Operation.drawn
    rw [kind]
    dsimp only
    rw [Ne, touched_eq_nil_iff read]
    obtain ⟨written, hts, rfl⟩ := o.products_eq_ok_iff.mp read
    cases written <;> simp [hts, Product.targets]
  | declared kind | shifted kind | ticked kind | noted kind =>
    exact hquiet (by simp [Operation.isGate, kind])
  | marking kind => exact hquiet (by rcases kind with kind | kind <;> simp [Operation.isGate, kind])

/-! ### The pairs of a two-qubit gate -/

theorem corrections_foldl_drawPair (gate : PairGate) (actions : List PairAction) (w : Walk) :
    (actions.foldl (·.drawPair gate ·) w).corrections.toList =
      w.corrections.toList ++
        (actions.filterMap PairAction.corrected?).map (⟨·, w.currentIndex, .correction⟩) := by
  induction actions generalizing w with
  | nil => simp
  | cons action actions ih =>
    rw [List.foldl_cons, ih]
    cases action <;>
      simp [List.filterMap_cons, PairAction.corrected?, drawPair, onCurrent, currentIndex]

theorem step_pair (style : DetectorStyle) (w : Walk) {gate : PairGate} (hkind : o.kind = .pair gate) :
    step style w o = (readable o.pairs).map (·.foldl (·.drawPair gate ·) w) := by
  unfold step
  rw [hkind]

theorem step_pair_eq_error {gate : PairGate} (hkind : o.kind = .pair gate) {e : WalkError}
    (h : step style w o = .error e) : ∃ i, e = .circuit (o.malformed i .qubit) := by
  rw [step_pair style w hkind] at h
  cases hpairs : o.pairs with
  | ok actions =>
    rw [hpairs] at h
    cases h
  | error fault =>
    rw [hpairs] at h
    cases h
    obtain ⟨i, rfl⟩ := o.pairs_eq_error hpairs
    exact ⟨i, rfl⟩

/-- **What becomes of the pairs of a two-qubit gate.** The gate is accepted if each pair consists of
two plain qubits or has a record in it, and refused for a target that is no plain qubit otherwise. A
pair of plain qubits is drawn as one edge, a line between the qubits with the glyph of the gate at either
end; a record beside a plain qubit is one correction of that qubit on the open layer; a record beside
anything else is passed over, so edges and corrections are half as many as the targets exactly if there is
no such pair. -/
theorem pairs_drawn_or_corrected_unless_stray (style : DetectorStyle) (w : Walk) {o : Operation} {gate : PairGate}
    (hkind : o.kind = .pair gate) :
    ((∃ w', step style w o = .ok w') ↔
        o.targets.length % 2 = 0 ∧ ∀ ab ∈ Target.pairUp o.targets,
          (Target.edge? ab).isSome = true ∨ Target.refers ab = true) ∧
      (∀ e, step style w o = .error e → ∃ i, e = .circuit (o.malformed i .qubit)) ∧
      ∀ w', step style w o = .ok w' →
        Inks o.drawn (o.edges.flatMap fun e =>
            let p := w.current.coords.position e.1
            let q := w.current.coords.position e.2
            .line p.x p.y q.x q.y "black" none ::
              (Glyph.endpoint p (Glyph.endpoints gate).1 ++ Glyph.endpoint q (Glyph.endpoints gate).2))
          w w' ∧
          w'.corrections.toList =
            w.corrections.toList ++ o.corrected.map (⟨·, w.currentIndex, .correction⟩) ∧
          (o.edges.length + o.corrected.length = o.targets.length / 2 ↔
            ∀ ab ∈ Target.pairUp o.targets, ¬Target.Stray ab) := by
  have hstep := step_pair style w hkind
  refine ⟨?_, fun e => step_pair_eq_error hkind, fun w' h => ?_⟩
  · rw [hstep, exists_readable_map, o.exists_pairs_iff]
  · have hinks := (stepped_of_step h).inks (by rw [Operation.isGate, hkind])
    rw [hstep] at h
    obtain ⟨actions, hactions, rfl⟩ := readable_map_eq_ok.mp h
    refine ⟨?_, ?_, ?_⟩
    · rw [Operation.glyphs, hkind] at hinks
      exact hinks
    · rw [corrections_foldl_drawPair, (Operation.edges_of_pairs hactions).2]
    · exact Operation.edges_add_corrected_iff (o.exists_pairs_iff.mp ⟨actions, hactions⟩).2

/-- An edge, from a disc to a plus in a circle, and two corrections. -/
theorem pairs_drawn_or_corrected_unless_stray_controlled :
    let o : Operation := ⟨"CX", .pair .cx,
      [.qubit 0 false, .qubit 1 false, .record (-1), .qubit 2 false, .qubit 3 false, .record (-2)], []⟩
    ∃ w', step ⟨fun _ => false, ∅⟩ start o = .ok w' ∧ o.edges = [(0, 1)] ∧ o.corrected = [2, 3] ∧
      w'.current.primitives.toList =
        [.line 0 0 32 0 "black" none, .circle 0 0 16 "black" none,
          .circle 32 0 16 "white" (some "black"), .line 16 0 48 0 "black" none,
          .line 32 (-16) 32 16 "black" none] ∧
      w'.corrections.toList = [⟨2, 0, .correction⟩, ⟨3, 0, .correction⟩] ∧
      o.edges.length + o.corrected.length = o.targets.length / 2 := by
  intro o
  have hedges : o.edges = [(0, 1)] := rfl
  have hcorrected : o.corrected = [2, 3] := rfl
  obtain ⟨haccepted, -, htaken⟩ :=
    pairs_drawn_or_corrected_unless_stray ⟨fun _ => false, ∅⟩ start (o := o) rfl
  obtain ⟨w', hw'⟩ := haccepted.mpr (by decide)
  obtain ⟨hinks, hcorrections, hcount⟩ := htaken w' hw'
  refine ⟨w', hw', hedges, hcorrected, ?_, ?_, hcount.mpr (by decide)⟩
  · exact hinks.current.primitives.trans (by decide +kernel)
  · rw [hcorrections, hcorrected]
    rfl

/-- A record beside a Pauli target is accepted, and neither drawn nor kept as a correction. -/
theorem stray_pair_passed_over :
    let o : Operation := ⟨"CX", .pair .cx, [.record (-1), .pauli .x 0 false], []⟩
    step ⟨fun _ => false, ∅⟩ start o = .ok start ∧
      o.edges.length + o.corrected.length ≠ o.targets.length / 2 := by
  exact ⟨rfl, by decide⟩

end Walk

end CircuitFrames
