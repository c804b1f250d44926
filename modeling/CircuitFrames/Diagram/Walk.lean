import CircuitFrames.Circuit.Flatten
import CircuitFrames.Circuit.Shape
import CircuitFrames.Diagram.Glyph
import CircuitFrames.Diagram.Layer
import CircuitFrames.Diagram.Mark

/-!
# Walking a circuit

A walk follows the operations in the order in which they run and draws each on the layer that is
open at that time. `Walk.step` is one operation, `Walk.of` a whole circuit. Everything that one
operation hands on to the next is in the state: the layers, the measurement timeline, the shift, and
the number of the next detector.

A step first reads all targets of its operation in the shape that the kind of operation requires, so
whether it fails, and how, does not depend on the state.

The timeline has all measurements of a run in the order in which they happen, each with the layer that
owns it. Lookbacks count from the end of the timeline as it stands when they are resolved.
-/

namespace CircuitFrames

open Svg (Primitive)

/-! ## The timeline of measurements -/

/-- The layers that own the measurements so far, in order. -/
structure Timeline where
  owners : Array Nat
deriving DecidableEq, Repr

namespace Timeline

/-- No measurement. -/
def empty : Timeline := ⟨#[]⟩

/-- The number of measurements. -/
def length (t : Timeline) : Nat :=
  t.owners.size

/-- One more measurement, on a layer. Its index is the length before. -/
def push (t : Timeline) (layer : Nat) : Timeline :=
  ⟨t.owners.push layer⟩

/-- The index of the measurement at a lookback; none if the lookback is not negative or reaches
before the first measurement. -/
def resolve? (t : Timeline) (offset : Int) : Option Nat :=
  let index := t.length + offset
  if offset < 0 ∧ 0 ≤ index then some index.toNat else none

/-- The layer that owns a measurement. -/
def layerOf? (t : Timeline) (index : Nat) : Option Nat :=
  t.owners[index]?

end Timeline

/-! ## Walks -/

/-- Why a circuit cannot be drawn. -/
inductive WalkError
  /-- There is no glyph for the operation. -/
  | unsupported (name : String)
  /-- A target or an argument does not fit its operation. -/
  | circuit (error : CircuitError)
deriving DecidableEq

/-- How detectors are labelled. -/
structure DetectorStyle where
  /-- The detectors that are highlighted. -/
  highlighted : Nat → Bool
  /-- The coordinates to write behind the numbers of detectors, if any are to be written. -/
  coordinates : Std.ExtTreeMap Nat (List Float)

/-- The state of a walk. -/
structure Walk where
  /-- The layers that ticks have closed, the first one first. -/
  closed : Array Layer
  /-- The layer that is open. -/
  current : Layer
  timeline : Timeline
  shift : PlaneShift
  /-- The number of the next detector. -/
  nextDetector : Nat
  /-- How many labels stand at each measurement that has any. -/
  labels : Std.ExtTreeMap Nat Nat
  /-- The corrections so far, in order. -/
  corrections : Array Mark
  notes : NoteSet
  /-- What there is to report, in order. -/
  events : Array Event

namespace Walk

/-- The state before the first operation. -/
def start : Walk where
  closed := #[]
  current := .empty
  timeline := .empty
  shift := .zero
  nextDetector := 0
  labels := ∅
  corrections := #[]
  notes := ∅
  events := #[]

/-- The number of the open layer. -/
def currentIndex (w : Walk) : Nat :=
  w.closed.size

/-- All layers, the open one last. -/
def layers (w : Walk) : Array Layer :=
  w.closed.push w.current

/-- Changes the open layer. -/
def onCurrent (w : Walk) (f : Layer → Layer) : Walk :=
  { w with current := f w.current }

/-- Changes the layer with a number. -/
def onLayer (w : Walk) (index : Nat) (f : Layer → Layer) : Walk :=
  if index = w.currentIndex then w.onCurrent f
  else { w with closed := w.closed.modify index f }

/-! ## Ticks and declarations -/

/-- Closes the open layer and opens the next under the same coordinates. -/
def advance (w : Walk) : Walk :=
  { w with closed := w.closed.push w.current, current := w.current.successor }

/-- Places qubits on the open layer. -/
def declare (w : Walk) (g : GridPoint) (qubits : List Qubit) : Walk :=
  w.onCurrent fun l => qubits.foldl (·.declare · g) l

/-! ## Gates and measurements -/

/-- Puts a measurement of a qubit on the timeline and keeps its position. -/
def measure (w : Walk) (q : Qubit) : Walk :=
  let p := w.current.position q
  { w with
    timeline := w.timeline.push w.currentIndex
    current := (w.current.touch q).recordMeasurement w.timeline.length p }

/-- Draws the box of a gate on a qubit. -/
def drawBox (w : Walk) (gate : SingleGate) (q : Qubit) : Walk :=
  let style := Glyph.boxStyle gate
  w.onCurrent fun l =>
    (l.touch q).draw (Glyph.box (l.position q) style.label style.fill style.textColor)

/-- Draws a gate on single qubits; all measurements are recorded before the first box is drawn. -/
def drawSingles (w : Walk) (gate : SingleGate) (qubits : List Qubit) : Walk :=
  let w := if gate.isMeasurement then qubits.foldl measure w else w
  qubits.foldl (·.drawBox gate ·) w

/-- Draws the edge of a pair or notes its correction. -/
def drawPair (w : Walk) (gate : PairGate) : PairAction → Walk
  | .edge a b =>
    w.onCurrent fun l =>
      ((l.touch a).touch b).draw (Glyph.pair (l.position a) (l.position b) gate)
  | .correction q =>
    { w with corrections := w.corrections.push ⟨q, w.currentIndex, .correction⟩ }
  | .nothing => w

/-- Draws a measurement of a Pauli product, which is recorded at its first factor. -/
def drawProduct (w : Walk) : List (Qubit × Pauli) → Walk
  | [] => w
  | factors@((first, _) :: _) =>
    (w.measure first).onCurrent fun l =>
      (factors.foldl (fun l (q, _) => l.touch q) l).draw
        (Glyph.product (factors.map fun (q, p) => (l.position q, p)) (productColor factors))

/-! ## Labels -/

/-- How the labels of one operation look. -/
structure LabelStyle where
  content : String
  color : String
  highlighted : Bool
deriving DecidableEq, Repr

/-- The distance between labels stacked at one measurement. -/
def labelStep : Float := 15

/-- The primitives of a label at the position of a measurement, below `slot` others. -/
def label (style : LabelStyle) (p : Point) (slot : Nat) : List Primitive :=
  let stacked := Float.ofNat slot * labelStep
  let text :=
    (Primitive.label (p.x + Glyph.radius + 1) (p.y - Glyph.radius + stacked) style.content
      style.color 16).aligned .start .hanging
  if style.highlighted then
    [.square (p.x - Glyph.radius) (p.y - Glyph.radius) Glyph.diameter style.color, text]
  else [text]

/-- Labels the measurement at a lookback, on the layer that owns it. -/
def markLookback (style : LabelStyle) (operation : String) (w : Walk) (offset : Int32) : Walk :=
  match w.timeline.resolve? offset.toInt with
  | none =>
    { w with
      events := w.events.push (.danglingLookback operation offset.toInt w.timeline.length) }
  | some index =>
    let slot := w.labels.getD index 0
    let w := { w with labels := w.labels.insert index (slot + 1) }
    match w.timeline.layerOf? index with
    | none => w
    | some owner =>
      w.onLayer owner fun l =>
        match l.measurementPosition? index with
        | none => l
        | some p => l.draw (label style p slot)

/-- The label of the next detector. -/
def detectorLabel (style : DetectorStyle) (w : Walk) : LabelStyle :=
  let number := "D" ++ toString w.nextDetector
  let content :=
    match style.coordinates[w.nextDetector]? with
    | none => number
    | some coords => number ++ "(" ++ ",".intercalate (coords.map Numeral.plain) ++ ")"
  if style.highlighted w.nextDetector then ⟨content, "#FF8000", true⟩
  else ⟨content, "black", false⟩

/-- Labels the measurements of the next detector. -/
def markDetector (style : DetectorStyle) (operation : String) (w : Walk)
    (offsets : List Int32) : Walk :=
  let label := w.detectorLabel style
  offsets.foldl (markLookback label operation) { w with nextDetector := w.nextDetector + 1 }

/-- Labels the measurements of a logical observable. -/
def markObservable (index : Nat) (operation : String) (w : Walk) (offsets : List Int32) : Walk :=
  offsets.foldl (markLookback ⟨"L" ++ toString index, "blue", false⟩ operation) w

/-- Notes declared noise on a qubit of the open layer. -/
def noteNoise (channel : NoiseChannel) (w : Walk) (q : Qubit) : Walk :=
  { w with notes := w.notes.insert ⟨q, w.currentIndex, channel⟩ }

/-! ## The walk -/

/-- The result of reading targets, or why the circuit cannot be drawn. -/
def readable {α : Type} : Except CircuitError α → Except WalkError α
  | .ok a => .ok a
  | .error e => .error (.circuit e)

/-- One operation. -/
def step (style : DetectorStyle) (w : Walk) (op : Operation) : Except WalkError Walk :=
  match op.kind with
  | .qubitCoords =>
    match w.shift.moved? op.args with
    | none => .error (.circuit (.invalidArguments op.name .noCoordinates))
    | some g => (readable op.qubits).map (w.declare g)
  | .shiftCoords => .ok { w with shift := w.shift.accumulate op.args }
  | .single gate => (readable op.qubits).map (w.drawSingles gate)
  | .pair gate => (readable op.pairs).map (·.foldl (·.drawPair gate ·) w)
  | .pauliProduct => (readable op.products).map (·.foldl drawProduct w)
  | .tick => .ok w.advance
  | .detector => (readable op.lookbacks).map (w.markDetector style op.name)
  | .observableInclude =>
    match op.observableIndex with
    | .error e => .error (.circuit e)
    | .ok index => (readable op.lookbacks).map (markObservable index op.name w)
  | .noise channel => (readable op.touched).map (·.foldl (noteNoise channel) w)
  | .unsupported => .error (.unsupported op.name)

/-- The walk of a whole circuit. -/
def of (style : DetectorStyle) (c : Circuit) : Except WalkError Walk :=
  c.run (step style) start

end Walk

end CircuitFrames
