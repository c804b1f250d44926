import CircuitFrames.Proofs.Diagram.Books
import CircuitFrames.Proofs.Diagram.Drawing
import CircuitFrames.Proofs.Diagram.InTurn

/-!
# What becomes of Pauli products

A measurement of Pauli products is accepted exactly if its targets are written as products, one behind
the other. Then each product is one measurement at its first factor and one fan over all of its factors
(`products_measured_and_fanned`): a line from each factor to their centre, and then a box for each. The
builder writes the products that it is given in just this way.
-/

namespace CircuitFrames

open Svg (Primitive)

/-! ### Fans -/

theorem Point.foldl_sums (points : List Point) (sx sy : Float) :
    points.foldl (fun (sx, sy) p => (sx + p.x, sy + p.y)) (sx, sy) =
      ((points.map (·.x)).foldl (· + ·) sx, (points.map (·.y)).foldl (· + ·) sy) := by
  induction points generalizing sx sy with
  | nil => rfl
  | cons p points ih => exact ih _ _

namespace Product

/-- The mean of some coordinates. -/
def mean (xs : List Float) : Float :=
  xs.foldl (· + ·) 0 / .ofNat xs.length + 0

variable (coords : CoordinateMap) (p : Product) (f : Qubit × Pauli)

/-- Whether all factors have one basis. -/
def plain : Bool :=
  p.others.all (·.basis == p.first.basis)

/-- The colour of the fan: that of the basis, or that of the product if there is more than one. -/
def color : String :=
  if p.plain then
    match p.first.basis with
    | .x => "#FF8080"
    | .y => "#80FF80"
    | .z => "#8080FF"
  else productColor p.factors

/-- The middle of the fan. -/
def centre : Float × Float :=
  (mean (p.factors.map fun f => (coords.position f.1).x),
    mean (p.factors.map fun f => (coords.position f.1).y))

/-- The line of a factor, from its place to the centre. -/
def line : Primitive :=
  .line (coords.position f.1).x (coords.position f.1).y (p.centre coords).1 (p.centre coords).2 p.color
    (some 8)

/-- Where the box of a factor stands, a tenth of the way to the centre. -/
def boxPlace : Float × Float :=
  ((coords.position f.1).x * (1 - 0.1) + (p.centre coords).1 * 0.1 + 0,
    (coords.position f.1).y * (1 - 0.1) + (p.centre coords).2 * 0.1 + 0)

/-- What is written in the boxes, and in which font size: the bases of the factors if there is more than
one, and nothing else. -/
def label (basis : Pauli) : String × Nat :=
  if p.plain then ("", 18)
  else
    match basis with
    | .x => ("PX", 24)
    | .y => ("PY", 24)
    | .z => ("PZ", 24)

/-- The box of a factor, with its text. -/
def box : List Primitive :=
  let (x, y) := p.boxPlace coords f
  [.rect (x - 16) (y - 16) 32 32 p.color,
    .text x y (p.label f.2).1 "black" (p.label f.2).2 .middle .central]

theorem sharedBasis?_factors (place : Qubit → Point) :
    Glyph.sharedBasis? (p.factors.map fun f => (place f.1, f.2)) =
      if p.plain then some p.first.basis else none := by
  have hall : ((p.others.map Factor.value).map fun f => (place f.1, f.2)).all
      (·.2 == p.first.basis) = p.plain := by
    simp [plain, Factor.value, List.all_map, Function.comp_def]
  rw [← hall]
  rfl

theorem centroid?_factors :
    Point.centroid? (p.factors.map fun f => coords.position f.1) =
      some ⟨.known (p.centre coords).1, .known (p.centre coords).2⟩ := by
  unfold Point.centroid? centre mean
  rw [if_neg (by simp [factors]), Point.foldl_sums]
  simp [Point.of, Function.comp_def]

/-- The glyph of a product is its fan: a line for each factor, and behind all lines a box for each. -/
theorem productGlyph_factors :
    Operation.productGlyph coords p.factors =
      p.factors.map (p.line coords) ++ p.factors.flatMap (p.box coords) := by
  unfold Operation.productGlyph Glyph.product
  have hplaces : (p.factors.map fun f => (coords.position f.1, f.2)).map (·.1) =
      p.factors.map fun f => coords.position f.1 := List.map_map
  rw [hplaces, centroid?_factors, sharedBasis?_factors]
  dsimp only
  rw [List.map_map, List.flatMap_map]
  have hcolor : (((if p.plain then some p.first.basis else none).map Glyph.basisColor).getD
      (productColor p.factors)) = p.color := by
    unfold color
    cases p.plain with
    | false => rfl
    | true => cases p.first.basis <;> rfl
  have hlabel (basis : Pauli) :
      (if (if p.plain then some p.first.basis else none).isSome then ""
        else "P" ++ basis.letter.toString) = (p.label basis).1 ∧
      Glyph.labelSize (p.label basis).1 = (p.label basis).2 := by
    unfold label
    cases p.plain with
    | false =>
      simp only [Bool.false_eq_true, if_false, Option.isSome_none]
      cases basis <;> decide
    | true => exact ⟨rfl, rfl⟩
  rw [hcolor]
  refine congrArg₂ (· ++ ·) rfl (List.flatMap_congr fun f _ => ?_)
  dsimp only
  rw [(hlabel f.2).1]
  unfold Glyph.box
  rw [(hlabel f.2).2]
  rfl

end Product

namespace Walk

variable {w w' w'' : Walk} {qs qs' : List Qubit}

/-- A walk with further measurements, one at each of some qubits, on the open layer. Besides them only
that layer may have changed, under the coordinates that it had. -/
structure Measures (qs : List Qubit) (w w' : Walk) : Prop where
  elsewhere : w' = { w with timeline := w'.timeline, current := w'.current }
  coords : w'.current.coords = w.current.coords
  owners : w'.timeline.owners.toList =
    w.timeline.owners.toList ++ List.replicate qs.length w.currentIndex
  places : ∀ k q, qs[k]? = some q →
    w'.current.measurementPosition? (w.timeline.length + k) = some (w.current.position q)
  kept : ∀ i, i < w.timeline.length ∨ w.timeline.length + qs.length ≤ i →
    w'.current.measurementPosition? i = w.current.measurementPosition? i

namespace Measures

theorem length_timeline (h : Measures qs w w') :
    w'.timeline.length = w.timeline.length + qs.length := by
  have hlength := congrArg List.length h.owners
  rwa [List.length_append, List.length_replicate] at hlength

theorem currentIndex (h : Measures qs w w') : w'.currentIndex = w.currentIndex :=
  congrArg (·.closed.size) h.elsewhere

theorem refl (w : Walk) : Measures [] w w where
  elsewhere := rfl
  coords := rfl
  owners := (List.append_nil _).symm
  places := nofun
  kept _ _ := rfl

theorem trans (h : Measures qs w w') (h' : Measures qs' w' w'') : Measures (qs ++ qs') w w'' where
  elsewhere := by
    rw [h'.elsewhere, h.elsewhere]
  coords := h'.coords.trans h.coords
  owners := by
    rw [h'.owners, h.owners, h.currentIndex, List.length_append, List.replicate_add,
      List.append_assoc]
  places := by
    intro k q hq
    have hlength := h.length_timeline
    by_cases hk : k < qs.length
    · rw [List.getElem?_append_left hk] at hq
      rw [h'.kept _ (.inl (by omega))]
      exact h.places k q hq
    · rw [List.getElem?_append_right (by omega)] at hq
      have hplace := h'.places (k - qs.length) q hq
      rw [Layer.position, h.coords, hlength] at hplace
      rwa [show w.timeline.length + qs.length + (k - qs.length) = w.timeline.length + k by omega]
        at hplace
  kept := by
    intro i hi
    have hlength := h.length_timeline
    rw [List.length_append] at hi
    rw [h'.kept i (by omega), h.kept i (by omega)]

end Measures

theorem measures_drawProduct (w : Walk) {factors : List (Qubit × Pauli)} {q : Qubit}
    (hfirst : factors.head?.map (·.1) = some q) : Measures [q] w (w.drawProduct factors) := by
  match factors with
  | f :: factors =>
    obtain rfl : f.1 = q := Option.some.inj hfirst
    have hdraws := (Draws.foldl_touch (f :: factors)).draw fun l =>
      Glyph.product ((f :: factors).map fun e => (l.position e.1, e.2)) (productColor (f :: factors))
    have hkept (i : Nat) : (w.drawProduct (f :: factors)).current.measurementPosition? i =
        (w.current.measurements.insert w.timeline.length (w.current.position f.1))[i]? :=
      congrArg (·[i]?) (hdraws.measurements (w.measure f.1).current)
    refine ⟨rfl, hdraws.coords (w.measure f.1).current, ?_, ?_, ?_⟩
    · exact Array.toList_push
    · intro k q hq
      obtain ⟨rfl, rfl⟩ : k = 0 ∧ f.1 = q := by
        cases k <;> simp_all
      rw [hkept, Nat.add_zero, Std.ExtTreeMap.getElem?_insert_self]
    · intro i hi
      rw [hkept, Std.ExtTreeMap.getElem?_insert, if_neg]
      · rfl
      · rw [Nat.compare_eq_eq]
        simp only [List.length_singleton] at hi
        omega

theorem drawn_products (w : Walk) (ps : List Product) :
    let w' := (ps.map Product.factors).foldl drawProduct w
    Measures (ps.map (·.first.qubit)) w w' ∧
      Inks (ps.flatMap fun p => p.factors.map (·.1))
        (ps.flatMap fun p => Operation.productGlyph w.current.coords p.factors) w w' := by
  dsimp only
  induction ps generalizing w with
  | nil => exact ⟨.refl w, .refl w⟩
  | cons p ps ih =>
    have hmeasured : Measures [p.first.qubit] w (w.drawProduct p.factors) :=
      w.measures_drawProduct rfl
    have hdrawn := w.inks_drawProduct (List.cons_ne_nil p.first.value (p.others.map Factor.value))
    obtain ⟨hmore, hfans⟩ := ih (w.drawProduct p.factors)
    rw [hmeasured.coords] at hfans
    exact ⟨hmeasured.trans hmore, hdrawn.trans hfans⟩

variable (style : DetectorStyle) (w : Walk) {o : Operation}

theorem stepInTurn_product (hkind : o.kind = .pauliProduct) :
    stepInTurn style w o = (readable o.products).map (·.foldl drawProduct w) := by
  rw [stepInTurn_eq_step]
  unfold step
  rw [hkind]

theorem exists_stepInTurn_product_iff (hkind : o.kind = .pauliProduct) :
    (∃ w', stepInTurn style w o = .ok w') ↔
      ∃ ps : List Product, o.targets = ps.flatMap Product.targets := by
  rw [stepInTurn_product style w hkind, exists_readable_map]
  simp only [o.products_eq_ok_iff]
  constructor
  · rintro ⟨read, ps, hts, -⟩
    exact ⟨ps, hts⟩
  · rintro ⟨ps, hts⟩
    exact ⟨_, ps, hts, rfl⟩

theorem stepInTurn_product_eq_error (hkind : o.kind = .pauliProduct) {e : WalkError}
    (h : stepInTurn style w o = .error e) :
    ∃ i ≤ o.targets.length, e = .circuit (o.malformed i .pauli) ∧
      o.targets[i]?.bind Target.factor? = none := by
  rw [stepInTurn_product style w hkind] at h
  cases hread : o.products with
  | ok read =>
    rw [hread] at h
    cases h
  | error fault =>
    rw [hread] at h
    cases h
    obtain ⟨i, hi, rfl, hnone⟩ := o.products_eq_error hread
    exact ⟨i, hi, rfl, hnone⟩

theorem exists_product_of_measureProducts (c : Circuit) {products : List (List (Pauli × Qubit))}
    (hproducts : ∀ p ∈ products, p ≠ []) :
    ∃ o : Operation, c.measureProducts products = .ok (c.push o) ∧ o.kind = .pauliProduct ∧
      o.chunksFrom 0 = .ok (products.map (·.map Prod.swap)) := by
  have hany : ¬products.any List.isEmpty = true := by
    intro h
    obtain ⟨p, hp, hempty⟩ := List.any_eq_true.mp h
    exact hproducts p hp (List.isEmpty_iff.mp hempty)
  refine ⟨_, if_neg hany, rfl, ?_⟩
  rw [Operation.chunksFrom_zero]
  exact Operation.products_of_productTargets _ hproducts rfl

/-- **Pauli products are recovered as they are written.** The loop that cuts the targets by positions
looks at none behind the last for a combiner, and at most at the one behind the last for a factor. It
accepts the targets if and only if they are products one behind the other, and otherwise names a
position where no factor stands and one has to. Accepted, each product becomes a measurement at its
first factor, on the open layer and behind all measurements before it, and a fan: a line from each of its
factors to their centre, in order, and then a box for each, in order. Nothing else changes. What the
builder makes of products that are not empty is read as just these products. -/
theorem products_measured_and_fanned :
    (∀ o : Operation, o.kind = .pauliProduct →
      ((∃ w', stepInTurn style w o = .ok w') ↔
          ∃ ps : List Product, o.targets = ps.flatMap Product.targets) ∧
        (∀ e, stepInTurn style w o = .error e →
          ∃ i ≤ o.targets.length, e = .circuit (o.malformed i .pauli) ∧
            o.targets[i]?.bind Target.factor? = none) ∧
        ∀ ps : List Product, o.targets = ps.flatMap Product.targets →
          ∃ w', stepInTurn style w o = .ok w' ∧ o.chunksFrom 0 = .ok (ps.map Product.factors) ∧
            Measures (ps.map (·.first.qubit)) w w' ∧
            Inks (ps.flatMap fun p => p.factors.map (·.1))
              (ps.flatMap fun p => p.factors.map (p.line w.current.coords) ++
                p.factors.flatMap (p.box w.current.coords)) w w') ∧
      ∀ (c : Circuit) (products : List (List (Pauli × Qubit))), (∀ p ∈ products, p ≠ []) →
        ∃ o : Operation, c.measureProducts products = .ok (c.push o) ∧ o.kind = .pauliProduct ∧
          o.chunksFrom 0 = .ok (products.map (·.map Prod.swap)) := by
  refine ⟨fun o hkind => ⟨exists_stepInTurn_product_iff style w hkind,
    fun e => stepInTurn_product_eq_error style w hkind, fun ps hts => ?_⟩,
    fun c products => exists_product_of_measureProducts c⟩
  have hread : o.products = .ok (ps.map Product.factors) := o.products_eq_ok_iff.mpr ⟨ps, hts, rfl⟩
  obtain ⟨hmeasured, hdrawn⟩ := w.drawn_products ps
  simp only [Product.productGlyph_factors] at hdrawn
  refine ⟨_, ?_, ?_, hmeasured, hdrawn⟩
  · rw [stepInTurn_product style w hkind, hread]
    rfl
  · rw [Operation.chunksFrom_zero, hread]

/-- Two products are read and built, the first one with two bases. No products end with a combiner. -/
theorem products_measured_and_fanned_two :
    let o : Operation := ⟨"MPP", .pauliProduct,
      [.pauli .x 0 false, .combiner, .pauli .z 10 true, .pauli .y 5 false], []⟩
    let cut : Operation := ⟨"MPP", .pauliProduct, [.pauli .x 0 false, .combiner], []⟩
    let style : DetectorStyle := ⟨fun _ => false, ∅⟩
    (∃ w', stepInTurn style start o = .ok w' ∧
        o.chunksFrom 0 = .ok [[(0, .x), (10, .z)], [(5, .y)]] ∧
        w'.timeline.owners.toList = [0, 0] ∧
        w'.current.measurementPosition? 1 = some ⟨.known 160, .known 0⟩ ∧
        w'.current.primitives.toList =
          [.line 0 0 160 0 "#81e9c6" (some 8), .line 320 0 160 0 "#81e9c6" (some 8),
            .rect 0 (-16) 32 32 "#81e9c6", .text 16 0 "PX" "black" 24 .middle .central,
            .rect 288 (-16) 32 32 "#81e9c6", .text 304 0 "PZ" "black" 24 .middle .central,
            .line 160 0 160 0 "#80FF80" (some 8),
            .rect 144 (-16) 32 32 "#80FF80", .text 160 0 "" "black" 18 .middle .central]) ∧
      (¬∃ ps : List Product, cut.targets = ps.flatMap Product.targets) ∧
      ∃ built : Operation, Circuit.nil.measureProducts [[(.x, 0), (.z, 10)], [(.y, 5)]] =
          .ok (Circuit.nil.push built) ∧
        built.chunksFrom 0 = .ok [[(0, .x), (10, .z)], [(5, .y)]] := by
  intro o cut style
  obtain ⟨hproducts, hbuilt⟩ := products_measured_and_fanned style start
  refine ⟨?_, ?_, ?_⟩
  · obtain ⟨w', hstep, hread, hmeasured, hdrawn⟩ := (hproducts o rfl).2.2
      [⟨⟨.x, 0, false⟩, [⟨.z, 10, true⟩]⟩, ⟨⟨.y, 5, false⟩, []⟩] rfl
    have howners := hmeasured.owners
    have hplace : w'.current.measurementPosition? 1 = some (start.current.position 5) :=
      hmeasured.places 1 5 rfl
    exact ⟨w', hstep, hread, howners, hplace.trans (by decide +kernel),
      hdrawn.current.primitives.trans (by decide +kernel)⟩
  · rw [← (hproducts cut rfl).1]
    rintro ⟨w', h⟩
    rw [stepInTurn_product style start rfl] at h
    cases h
  · obtain ⟨built, hpushed, -, hread⟩ := hbuilt .nil [[(.x, 0), (.z, 10)], [(.y, 5)]] (by decide)
    exact ⟨built, hpushed, hread⟩

end Walk

end CircuitFrames
