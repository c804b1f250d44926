import CircuitFrames.Proofs.Diagram.Step

/-!
# The books of a walk

Of all that a walk keeps, resolving a lookback needs the shift, the coordinates, the owners of the
measurements, the positions that each layer keeps, and the number of labels at each measurement:
the `books`. What draws leaves them as they are; a tick, a declaration, a measurement and a label
each change them in one way.

What is drawn stays: a step only adds primitives at the end of a layer (`Extends`).
-/

namespace CircuitFrames

open Svg (Primitive)

/-- What a walk keeps of its measurements. -/
@[ext]
structure Books where
  shift : PlaneShift
  /-- The coordinates of the open layer. -/
  coords : CoordinateMap
  owners : Array Nat
  /-- The positions of measurements that each layer keeps, the open layer last. -/
  places : Array (Std.ExtTreeMap Nat Point)
  labels : Std.ExtTreeMap Nat Nat

namespace Books

/-- The books after a tick. -/
def turn (b : Books) : Books :=
  { b with places := b.places.push ∅ }

/-- The books after a declaration. -/
def declare (b : Books) (g : GridPoint) (qs : List Qubit) : Books :=
  { b with coords := qs.foldl (·.declare · g) b.coords }

/-- The books after a measurement of a qubit. -/
def record (b : Books) (q : Qubit) : Books :=
  { b with
    owners := b.owners.push (b.places.size - 1)
    places := b.places.modify (b.places.size - 1)
      (·.insert b.owners.size (b.coords.position q)) }

/-- The books after one more label at a measurement. -/
def mark (b : Books) (index : Nat) : Books :=
  { b with labels := b.labels.insert index (b.labels.getD index 0 + 1) }

end Books

namespace Walk

/-- What a walk keeps of its measurements. -/
def books (w : Walk) : Books where
  shift := w.shift
  coords := w.current.coords
  owners := w.timeline.owners
  places := w.layers.map Layer.measurements
  labels := w.labels

variable (w : Walk)

/-! ### Layers -/

@[simp] theorem size_layers : w.layers.size = w.currentIndex + 1 :=
  Array.size_push _

@[simp] theorem size_places : w.books.places.size = w.currentIndex + 1 := by
  show (w.layers.map Layer.measurements).size = _
  rw [Array.size_map, size_layers]

theorem layers_onCurrent (f : Layer → Layer) :
    (w.onCurrent f).layers = w.layers.modify w.currentIndex f := by
  show w.closed.push (f w.current) = (w.closed.push w.current).modify w.closed.size f
  apply Array.ext_getElem?
  intro i
  rw [Array.getElem?_modify, Array.getElem?_push, Array.getElem?_push]
  by_cases hi : i = w.closed.size
  · rw [if_pos hi, if_pos hi.symm, if_pos hi, Option.map_some]
  · rw [if_neg hi, if_neg (Ne.symm hi), if_neg hi]

theorem layers_onLayer (index : Nat) (f : Layer → Layer) :
    (w.onLayer index f).layers = w.layers.modify index f := by
  unfold onLayer
  split
  next h =>
    rw [h]
    exact w.layers_onCurrent f
  next h =>
    show (w.closed.modify index f).push w.current = (w.closed.push w.current).modify index f
    apply Array.ext_getElem?
    intro i
    rw [Array.getElem?_modify, Array.getElem?_push, Array.getElem?_push, Array.size_modify,
      Array.getElem?_modify]
    by_cases hi : i = w.closed.size
    · rw [if_pos hi, if_pos hi, if_neg]
      rintro rfl
      exact h hi
    · rw [if_neg hi, if_neg hi]

theorem modify_congr {layers : Array Layer} {i : Nat} {l : Layer} {f g : Layer → Layer}
    (hl : layers[i]? = some l) (h : f l = g l) : layers.modify i f = layers.modify i g := by
  apply Array.ext_getElem?
  intro j
  rw [Array.getElem?_modify, Array.getElem?_modify]
  split
  next hij =>
    subst hij
    rw [hl, Option.map_some, Option.map_some, h]
  next => rfl

/-! ### What leaves the books as they are -/

/-- A change of a layer that draws and reserves only. -/
structure Draws (f : Layer → Layer) : Prop where
  coords : ∀ l, (f l).coords = l.coords
  measurements : ∀ l, (f l).measurements = l.measurements
  primitives : ∀ l, ∃ more, (f l).primitives = l.primitives ++ more

theorem Draws.id : Draws id :=
  ⟨fun _ => rfl, fun _ => rfl, fun _ => ⟨#[], Array.append_empty.symm⟩⟩

theorem Draws.touch {f : Layer → Layer} (hf : Draws f) (q : Qubit) : Draws fun l => (f l).touch q :=
  ⟨hf.coords, hf.measurements, hf.primitives⟩

theorem Draws.draw {f : Layer → Layer} (hf : Draws f) (ps : Layer → List Primitive) :
    Draws fun l => (f l).draw (ps l) := by
  refine ⟨hf.coords, hf.measurements, fun l => ?_⟩
  obtain ⟨more, hmore⟩ := hf.primitives l
  refine ⟨more ++ (ps l).toArray, ?_⟩
  show (f l).primitives ++ ps l = _
  rw [hmore]
  apply Array.ext'
  simp

theorem Draws.foldl_touch (factors : List (Qubit × Pauli)) :
    Draws fun l => factors.foldl (fun l (q, _) => l.touch q) l := by
  induction factors with
  | nil => exact .id
  | cons f factors ih =>
    exact ⟨fun l => ih.coords (l.touch f.1), fun l => ih.measurements (l.touch f.1),
      fun l => ih.primitives (l.touch f.1)⟩

theorem draws_labelOn (look : LabelStyle) (index slot : Nat) : Draws (labelOn look index slot) := by
  constructor <;> intro l <;> unfold labelOn
  · split <;> rfl
  · split <;> rfl
  · split
    · exact Draws.id.primitives l
    · exact (Draws.id.draw fun _ => _).primitives l

theorem map_modify {α β : Type} {g : α → β} {f : α → α} (f' : β → β) (h : ∀ a, g (f a) = f' (g a))
    (xs : Array α) (i : Nat) : (xs.modify i f).map g = (xs.map g).modify i f' := by
  apply Array.ext_getElem?
  intro j
  rw [Array.getElem?_map, Array.getElem?_modify, Array.getElem?_modify, Array.getElem?_map]
  split
  · rw [Option.map_map, Option.map_map]
    exact congrArg (Option.map · _) (funext h)
  · rfl

theorem modify_id {α : Type} (xs : Array α) (i : Nat) : xs.modify i id = xs := by
  apply Array.ext_getElem?
  intro j
  rw [Array.getElem?_modify, Option.map_id, id, ite_self]

theorem books_onLayer {f : Layer → Layer} (hf : Draws f) (index : Nat) :
    (w.onLayer index f).books = w.books := by
  have hplaces : (w.onLayer index f).layers.map Layer.measurements =
      w.layers.map Layer.measurements := by
    rw [layers_onLayer, map_modify id hf.measurements, modify_id]
  have hcoords : (w.onLayer index f).current.coords = w.current.coords := by
    unfold onLayer
    split
    · exact hf.coords _
    · rfl
  have hrest : (w.onLayer index f).shift = w.shift ∧ (w.onLayer index f).timeline = w.timeline ∧
      (w.onLayer index f).labels = w.labels := by
    unfold onLayer
    split <;> exact ⟨rfl, rfl, rfl⟩
  unfold books
  rw [hplaces, hcoords, hrest.1, hrest.2.1, hrest.2.2]

theorem onCurrent_eq_onLayer (f : Layer → Layer) :
    w.onCurrent f = w.onLayer w.currentIndex f := by
  rw [onLayer, if_pos rfl]

theorem books_onCurrent {f : Layer → Layer} (hf : Draws f) : (w.onCurrent f).books = w.books := by
  rw [onCurrent_eq_onLayer, books_onLayer w hf]

theorem books_foldl {α : Type} {f : Walk → α → Walk} (hf : ∀ w a, (f w a).books = w.books)
    (as : List α) : (as.foldl f w).books = w.books :=
  foldl_relates (R := fun s t : Walk => t.books = s.books) (fun _ => rfl) (fun _ _ _ h h' => h'.trans h) hf
    as w

theorem books_drawBox (gate : SingleGate) (q : Qubit) : (w.drawBox gate q).books = w.books :=
  w.books_onCurrent ((Draws.id.touch q).draw _)

theorem books_drawPair (gate : PairGate) (action : PairAction) :
    (w.drawPair gate action).books = w.books := by
  cases action with
  | edge a b =>
    exact w.books_onCurrent (((Draws.id.touch a).touch b).draw _)
  | correction q => rfl
  | nothing => rfl

theorem books_noteNoise (channel : NoiseChannel) (q : Qubit) :
    (noteNoise channel w q).books = w.books := rfl

/-! ### What changes the books -/

theorem books_advance : w.advance.books = w.books.turn := by
  show (⟨_, _, _, (w.layers.push w.current.successor).map Layer.measurements, _⟩ : Books) = _
  rw [Array.map_push]
  rfl

theorem foldl_declare (g : GridPoint) (qs : List Qubit) (l : Layer) :
    qs.foldl (·.declare · g) l = { l with coords := qs.foldl (·.declare · g) l.coords } := by
  induction qs generalizing l with
  | nil => rfl
  | cons q qs ih =>
    rw [List.foldl_cons, ih]
    rfl

theorem books_declare (g : GridPoint) (qs : List Qubit) :
    (w.declare g qs).books = w.books.declare g qs := by
  have hplaces : (w.declare g qs).layers.map Layer.measurements =
      w.layers.map Layer.measurements := by
    rw [declare, layers_onCurrent, map_modify id, modify_id]
    intro l
    rw [foldl_declare]
    rfl
  have hcoords : (w.declare g qs).current.coords = qs.foldl (·.declare · g) w.current.coords := by
    show (qs.foldl (·.declare · g) w.current).coords = _
    rw [foldl_declare]
  unfold books
  rw [hplaces, hcoords]
  rfl

theorem layers_measure (q : Qubit) :
    (w.measure q).layers = w.layers.modify w.currentIndex fun l =>
      (l.touch q).recordMeasurement w.timeline.length (w.current.position q) := by
  rw [← layers_onCurrent]
  rfl

theorem books_measure (q : Qubit) : (w.measure q).books = w.books.record q := by
  have hplaces : (w.measure q).books.places = (w.books.record q).places := by
    show (w.measure q).layers.map Layer.measurements =
      w.books.places.modify (w.books.places.size - 1)
        fun m => m.insert w.timeline.length (w.current.position q)
    rw [layers_measure, size_places]
    have hkept (l : Layer) :
        ((l.touch q).recordMeasurement w.timeline.length (w.current.position q)).measurements =
          l.measurements.insert w.timeline.length (w.current.position q) := rfl
    exact map_modify
      (fun m : Std.ExtTreeMap Nat Point => m.insert w.timeline.length (w.current.position q)) hkept _ _
  have howners : (w.measure q).books.owners = (w.books.record q).owners := by
    show _ = w.books.owners.push (w.books.places.size - 1)
    rw [size_places]
    rfl
  exact Books.ext rfl rfl howners hplaces rfl

theorem books_foldl_measure (qs : List Qubit) :
    (qs.foldl measure w).books = qs.foldl Books.record w.books := by
  induction qs generalizing w with
  | nil => rfl
  | cons q qs ih => rw [List.foldl_cons, List.foldl_cons, ih, books_measure]

theorem books_drawSingles (gate : SingleGate) (qs : List Qubit) :
    (w.drawSingles gate qs).books =
      (if gate.isMeasurement then qs else []).foldl Books.record w.books := by
  unfold drawSingles
  rw [books_foldl _ fun w q => w.books_drawBox gate q]
  cases gate.isMeasurement with
  | true => exact w.books_foldl_measure qs
  | false => rfl

theorem books_drawProduct {f : Qubit × Pauli} {factors : List (Qubit × Pauli)} :
    (w.drawProduct (f :: factors)).books = w.books.record f.1 := by
  rw [← books_measure]
  exact (w.measure f.1).books_onCurrent ((Draws.foldl_touch (f :: factors)).draw _)

theorem books_foldl_drawProduct (ps : List (List (Qubit × Pauli))) :
    (ps.foldl drawProduct w).books = (Operation.firsts ps).foldl Books.record w.books := by
  induction ps generalizing w with
  | nil => rfl
  | cons factors ps ih =>
    rw [List.foldl_cons, ih]
    cases factors with
    | nil => rfl
    | cons f factors =>
      rw [Operation.firsts_cons_cons, List.foldl_cons, books_drawProduct]

theorem books_markLookback (look : LabelStyle) (name : String) (k : Int32) :
    (markLookback look name w k).books =
      match w.timeline.resolve? k.toInt with
      | none => w.books
      | some index => w.books.mark index := by
  unfold markLookback
  cases w.timeline.resolve? k.toInt with
  | none => rfl
  | some index =>
    dsimp only
    cases w.timeline.layerOf? index with
    | none => rfl
    | some owner => exact books_onLayer _ (draws_labelOn look index _) owner

/-! ### What is drawn stays -/

/-- Every layer keeps its primitives, perhaps with more behind them. -/
def Extends (w w' : Walk) : Prop :=
  ∀ (i : Nat) (l : Layer), w.layers[i]? = some l →
    ∃ l' more, w'.layers[i]? = some l' ∧ l'.primitives = l.primitives ++ more

theorem Extends.refl : Extends w w :=
  fun _ l hl => ⟨l, #[], hl, Array.append_empty.symm⟩

variable {w}

theorem Extends.trans {w' w'' : Walk} (h : Extends w w') (h' : Extends w' w'') :
    Extends w w'' := by
  intro i l hl
  obtain ⟨l', more, hl', hmore⟩ := h i l hl
  obtain ⟨l'', most, hl'', hmost⟩ := h' i l' hl'
  exact ⟨l'', more ++ most, hl'', by rw [hmost, hmore, Array.append_assoc]⟩

theorem Extends.of_layers_eq {w' : Walk} (h : w'.layers = w.layers) : Extends w w' := by
  intro i l hl
  rw [← h] at hl
  exact ⟨l, #[], hl, Array.append_empty.symm⟩

theorem Extends.of_layers_modify {w' : Walk} {f : Layer → Layer} {index : Nat}
    (hf : ∀ l, ∃ more, (f l).primitives = l.primitives ++ more)
    (h : w'.layers = w.layers.modify index f) : Extends w w' := by
  intro i l hl
  rw [h, Array.getElem?_modify, hl]
  split
  · obtain ⟨more, hmore⟩ := hf l
    exact ⟨f l, more, rfl, hmore⟩
  · exact ⟨l, #[], rfl, Array.append_empty.symm⟩

theorem Extends.foldl {α : Type} {f : Walk → α → Walk} (hf : ∀ w a, Extends w (f w a))
    (as : List α) : Extends w (as.foldl f w) :=
  foldl_relates .refl (fun _ _ _ h h' => h.trans h') hf as w

variable (w)

theorem extends_advance : Extends w w.advance := by
  intro i l hl
  refine ⟨l, #[], ?_, Array.append_empty.symm⟩
  show (w.layers.push w.current.successor)[i]? = some l
  have hi : i < w.layers.size := (Array.getElem?_eq_some_iff.mp hl).1
  rw [Array.getElem?_push, if_neg (Nat.ne_of_lt hi), hl]

theorem extends_declare (g : GridPoint) (qs : List Qubit) : Extends w (w.declare g qs) := by
  refine .of_layers_modify (fun l => ⟨#[], ?_⟩) (w.layers_onCurrent _)
  rw [foldl_declare]
  exact Array.append_empty.symm

theorem extends_measure (q : Qubit) : Extends w (w.measure q) := by
  refine .of_layers_modify (fun l => ⟨#[], ?_⟩) (w.layers_measure q)
  exact Array.append_empty.symm

theorem extends_drawSingles (gate : SingleGate) (qs : List Qubit) :
    Extends w (w.drawSingles gate qs) := by
  have hbox (w : Walk) (q : Qubit) : Extends w (w.drawBox gate q) :=
    .of_layers_modify ((Draws.id.touch q).draw _).primitives (w.layers_onCurrent _)
  exact drawSingles_relates .refl (fun _ _ _ h h' => h.trans h') extends_measure hbox w qs

theorem extends_drawPair (gate : PairGate) (action : PairAction) :
    Extends w (w.drawPair gate action) := by
  cases action with
  | edge a b =>
    exact .of_layers_modify (((Draws.id.touch a).touch b).draw _).primitives (w.layers_onCurrent _)
  | correction q => exact .of_layers_eq rfl
  | nothing => exact .refl w

theorem extends_drawProduct (factors : List (Qubit × Pauli)) :
    Extends w (w.drawProduct factors) := by
  cases factors with
  | nil => exact .refl w
  | cons f factors =>
    exact (w.extends_measure f.1).trans <| .of_layers_modify
      ((Draws.foldl_touch (f :: factors)).draw _).primitives ((w.measure f.1).layers_onCurrent _)

theorem extends_labelOn (look : LabelStyle) (owner index slot : Nat) :
    Extends w (w.onLayer owner (labelOn look index slot)) :=
  .of_layers_modify (draws_labelOn look index slot).primitives (w.layers_onLayer owner _)

theorem extends_markLookback (look : LabelStyle) (name : String) (k : Int32) :
    Extends w (markLookback look name w k) :=
  markLookback_relates (fun _ _ _ h h' => h.trans h') (fun _ _ _ => .of_layers_eq rfl)
    (fun w owner => w.extends_labelOn look owner) name w k

theorem extends_markedUpTo (style : DetectorStyle) (o : Operation) (ks : List Int32) :
    Extends w (markedUpTo style w o ks) :=
  markedUpTo_relates (fun _ _ _ h h' => h.trans h') (fun _ _ _ _ => .of_layers_eq rfl)
    (fun w owner => w.extends_labelOn _ owner) ks

variable {w}

theorem Stepped.extends {style : DetectorStyle} {o : Operation} {w' : Walk}
    (h : Stepped style w o w') : Extends w w' := by
  cases h with
  | declared => exact w.extends_declare _ _
  | shifted => exact .of_layers_eq rfl
  | singles => exact w.extends_drawSingles _ _
  | pairs => exact .foldl (fun w action => w.extends_drawPair _ action) _
  | products => exact .foldl extends_drawProduct _
  | ticked => exact w.extends_advance
  | marking => exact w.extends_markedUpTo _ _ _
  | noted => exact .foldl (f := noteNoise _) (fun _ _ => .of_layers_eq rfl) _

theorem extends_of_foldlM {style : DetectorStyle} {ops : List Operation} {w' : Walk}
    (h : ops.foldlM (step style) w = .ok w') : Extends w w' :=
  foldlM_relates (R := Extends) .refl (fun _ _ _ h h' => h.trans h')
    (fun _ _ _ h => (stepped_of_step h).extends) h

end Walk

end CircuitFrames
