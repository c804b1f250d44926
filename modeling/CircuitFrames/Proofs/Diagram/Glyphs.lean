import CircuitFrames.Diagram.Glyph
import CircuitFrames.Proofs.Diagram.Finishing

/-!
# What glyphs are made of

Circles, lines and labelled boxes make up the glyphs of gates and measurements (`bare_pair`,
`forall_mem_product`). They have no text below its position, none that begins like the name of a
detector, none in the font size of labels, and no box in the colour of highlights. So a label and the
box behind it are told apart from all else that a walk draws (`Unmarked`).
-/

namespace CircuitFrames

open Svg (Primitive)

/-- Whether a primitive is a text below its position, as the labels of measurements are. -/
def hangs : Primitive → Bool
  | .text _ _ _ _ _ _ .hanging => true
  | _ => false

/-- Whether a primitive is the box behind a highlighted label. -/
def isHighlight : Primitive → Bool
  | .rect _ _ _ _ fill => fill == "#FF8000"
  | _ => false

/-- Whether a primitive is a text that begins like the name of a detector. -/
def namesDetector : Primitive → Bool
  | .text _ _ content _ _ _ _ => content.toList.head? == some 'D'
  | _ => false

/-- Whether a primitive is a text in the font size of the labels of measurements. -/
def isLabel : Primitive → Bool
  | .text _ _ _ _ size _ _ => size == 16
  | _ => false

/-- A primitive that is neither a label of a measurement nor the box behind one. -/
structure Unmarked (p : Primitive) : Prop where
  aligned : hangs p = false
  filled : isHighlight p = false
  named : namesDetector p = false
  sized : isLabel p = false

/-! ### Colours -/

theorem digitChar_ne (d : Nat) : Nat.digitChar d ≠ 'F' := by
  by_cases hd : d < 16
  · have hdigits : ∀ d : Fin 16, Nat.digitChar d ≠ 'F' := by decide
    exact hdigits ⟨d, hd⟩
  · have hstar : Nat.digitChar d = '*' := by
      unfold Nat.digitChar
      simp (disch := omega) only [if_neg]
    rw [hstar]
    decide

theorem not_mem_toDigits (n : Nat) : 'F' ∉ Nat.toDigits 16 n := by
  induction n using Nat.strongRecOn with
  | ind n ih =>
    by_cases hn : n < 16
    · rw [Nat.toDigits_of_lt_base hn, List.mem_singleton]
      exact (digitChar_ne n).symm
    · rw [Nat.toDigits_of_base_le (by decide) (by omega), List.mem_append, List.mem_singleton]
      rintro (h | h)
      · exact ih (n / 16) (by omega) h
      · exact digitChar_ne _ h.symm

theorem productColor_ne (factors : List (Qubit × Pauli)) : productColor factors ≠ "#FF8000" := by
  -- the colour of a product is written with small letters
  intro h
  have hletter : 'F' ∈ (productColor factors).toList := by
    rw [h]
    decide
  unfold productColor hexText at hletter
  rw [String.toList_append, List.mem_append] at hletter
  rcases hletter with hsign | hdigits
  · exact absurd hsign (by decide)
  · dsimp only at hdigits
    rw [String.toList_ofList, List.mem_append] at hdigits
    rcases hdigits with hzero | hdigit
    · exact absurd (List.eq_of_mem_replicate hzero) (by decide)
    · exact not_mem_toDigits _ hdigit

theorem basisColor_ne (basis : Pauli) : Glyph.basisColor basis ≠ "#FF8000" := by
  cases basis <;> decide

theorem fill_boxStyle_ne (gate : SingleGate) : (Glyph.boxStyle gate).fill ≠ "#FF8000" := by
  cases gate <;> decide

theorem label_boxStyle_ne (gate : SingleGate) :
    (Glyph.boxStyle gate).label.toList.head? ≠ some 'D' := by
  cases gate <;> decide

theorem labelSize_ne (label : String) : Glyph.labelSize label ≠ 16 := by
  unfold Glyph.labelSize
  split <;> decide

/-! ### Glyphs -/

/-- A line, or a circle that is not gray, as the markers of idle positions are. -/
inductive Bare : Primitive → Prop
  | circle (cx cy r : Float) {fill : String} (stroke : Option String) (hfill : fill ≠ "gray") :
    Bare (.circle cx cy r fill stroke)
  | line (x1 y1 x2 y2 : Float) (stroke : String) (width : Option Float) :
    Bare (.line x1 y1 x2 y2 stroke width)

theorem bare_endpoint (q : Point) (e : Glyph.Endpoint) : ∀ p ∈ Glyph.endpoint q e, Bare p := by
  intro p hp
  cases e <;>
    simp only [Glyph.endpoint, Glyph.cross, List.mem_cons, List.not_mem_nil, or_false] at hp <;>
    rcases hp with rfl | rfl | rfl | rfl <;> first | exact .circle _ _ _ _ (by decide) | exact .line ..

theorem bare_pair (a b : Point) (gate : PairGate) : ∀ p ∈ Glyph.pair a b gate, Bare p := by
  intro p hp
  rcases List.mem_cons.mp hp with rfl | hp
  · exact .line ..
  · rcases List.mem_append.mp hp with hp | hp
    · exact bare_endpoint _ _ p hp
    · exact bare_endpoint _ _ p hp

theorem forall_mem_product {P : Primitive → Prop} (hbare : ∀ p, Bare p → P p)
    (hbox : ∀ {label fill : String}, label.toList.head? ≠ some 'D' → fill ≠ "#FF8000" →
      ∀ q color, ∀ p ∈ Glyph.box q label fill color, P p)
    (factors : List (Point × Pauli)) {color : String} (hcolor : color ≠ "#FF8000") :
    ∀ p ∈ Glyph.product factors color, P p := by
  intro p hp
  unfold Glyph.product at hp
  cases hcentre : Point.centroid? (factors.map (·.1)) with
  | none =>
    rw [hcentre] at hp
    cases hp
  | some centre =>
    rw [hcentre] at hp
    have hfill : ((Glyph.sharedBasis? factors).map Glyph.basisColor).getD color ≠ "#FF8000" := by
      cases Glyph.sharedBasis? factors with
      | none => exact hcolor
      | some basis => exact basisColor_ne basis
    rcases List.mem_append.mp hp with hp | hp
    · obtain ⟨f, -, rfl⟩ := List.mem_map.mp hp
      exact hbare _ (.line ..)
    · obtain ⟨f, -, hp⟩ := List.mem_flatMap.mp hp
      refine hbox ?_ hfill _ _ p hp
      split
      · decide
      · cases f.2 <;> decide

theorem Bare.unmarked {p : Primitive} (h : Bare p) : Unmarked p := by
  cases h <;> exact ⟨rfl, rfl, rfl, rfl⟩

theorem unmarked_box {label fill : String} (hlabel : label.toList.head? ≠ some 'D')
    (hfill : fill ≠ "#FF8000") (q : Point) (color : String) :
    ∀ p ∈ Glyph.box q label fill color, Unmarked p := by
  intro p hp
  rcases List.mem_pair.mp hp with rfl | rfl
  · exact ⟨rfl, beq_eq_false_iff_ne.mpr hfill, rfl, rfl⟩
  · exact ⟨rfl, rfl, beq_eq_false_iff_ne.mpr hlabel, beq_eq_false_iff_ne.mpr (labelSize_ne _)⟩

theorem unmarked_pair (a b : Point) (gate : PairGate) : ∀ p ∈ Glyph.pair a b gate, Unmarked p :=
  fun p hp => (bare_pair a b gate p hp).unmarked

theorem unmarked_product (factors : List (Point × Pauli)) {color : String}
    (hcolor : color ≠ "#FF8000") : ∀ p ∈ Glyph.product factors color, Unmarked p :=
  forall_mem_product (fun _ => Bare.unmarked) unmarked_box factors hcolor

theorem product_ne_nil {factors : List (Point × Pauli)} (h : factors ≠ []) (color : String) :
    Glyph.product factors color ≠ [] := by
  cases factors with
  | nil => exact absurd rfl h
  | cons f factors =>
    unfold Glyph.product
    exact List.append_ne_nil_of_left_ne_nil (List.cons_ne_nil _ _) _

end CircuitFrames
