import CircuitFrames.Layout.Coordinates
import CircuitFrames.Svg.Primitive

/-!
# Layers

A layer is one time slice of the drawing: what is drawn on it, which positions that used, and where
each of its measurements stands. It keeps its own copy of the coordinates, so a later declaration
moves nothing that is drawn.
-/

namespace CircuitFrames

open Svg (Primitive)

/-- A time slice of the drawing. -/
structure Layer where
  coords : CoordinateMap
  /-- The primitives from back to front. -/
  primitives : Array Primitive
  /-- The positions that something on the layer uses. -/
  used : PointSet
  /-- The positions of measurements by their index in the run. -/
  measurements : Std.ExtTreeMap Nat Point

namespace Layer

/-- An empty layer under some coordinates. -/
def under (coords : CoordinateMap) : Layer :=
  ⟨coords, #[], ∅, ∅⟩

/-- The first layer, with no declaration in force. -/
def empty : Layer := under .empty

instance : Inhabited Layer := ⟨empty⟩

/-- The layer that follows: empty, under the same coordinates. -/
def successor (l : Layer) : Layer :=
  under l.coords

/-- Whether nothing is drawn on the layer. -/
def isEmpty (l : Layer) : Bool :=
  l.primitives.isEmpty

/-- Places a qubit for what is drawn from now on. -/
def declare (l : Layer) (q : Qubit) (g : GridPoint) : Layer :=
  { l with coords := l.coords.declare q g }

/-- The position of a qubit. -/
def position (l : Layer) (q : Qubit) : Point :=
  l.coords.position q

/-- Marks a position as used. -/
def reserve (l : Layer) (p : Point) : Layer :=
  { l with used := l.used.insert p }

/-- Marks the position of a qubit as used. -/
def touch (l : Layer) (q : Qubit) : Layer :=
  l.reserve (l.position q)

/-- Draws further primitives in front of the others. -/
def draw (l : Layer) (ps : List Primitive) : Layer :=
  { l with primitives := l.primitives ++ ps }

/-- Keeps the position of a measurement. -/
def recordMeasurement (l : Layer) (index : Nat) (p : Point) : Layer :=
  { l with measurements := l.measurements.insert index p }

/-- The position of a measurement of this layer. -/
def measurementPosition? (l : Layer) (index : Nat) : Option Point :=
  l.measurements[index]?

/-- The view box around the used positions. -/
def bounds? (l : Layer) : Option Bounds :=
  Bounds.around? l.used

/-! ## Idle positions and axes -/

/-- The radius of the marker at an idle position. -/
def idleRadius : Float := 5

/-- The marker at an idle position. -/
def idleMarker (p : Point) : Primitive :=
  (Primitive.disc p.x p.y idleRadius "gray").outlined

/-- A list without the elements that equal the one before them. -/
def dedup : List Float → List Float
  | [] => []
  | x :: rest =>
    match dedup rest with
    | [] => [x]
    | y :: ys => if x == y then x :: ys else x :: y :: ys

/-- The columns of a set of points, in ascending order. -/
def columns (points : PointSet) : List Float :=
  dedup (points.toList.map (·.x))

/-- The rows of a set of points, in ascending order. -/
def rows (points : PointSet) : List Float :=
  dedup (((points.toList.map (·.row)).mergeSort fun a b => a.rank ≤ b.rank).map (·.value))

/-- The label of a column, at the lower edge. -/
def columnLabel (b : Bounds) (x : Float) : Primitive :=
  (Primitive.label x (b.maxY - 5) (gridLabel x) "black" 24).aligned .middle .auto

/-- The label of a row, at the left edge. -/
def rowLabel (b : Bounds) (y : Float) : Primitive :=
  (Primitive.label (b.minX + 5) y (gridLabel y) "black" 24).aligned .start .middle

/-- Marks the positions that are used elsewhere in the run but not here, takes them as used, and
labels every column along the bottom and every row along the left. -/
def addIdles (l : Layer) (positions : PointSet) : Layer :=
  let idle := positions.toList.filter (! l.used.contains ·)
  let full := { l.draw (idle.map idleMarker) with used := l.used.insertMany positions.toList }
  match full.bounds? with
  | none => full
  | some b =>
    full.draw ((columns full.used).map (columnLabel b) ++ (rows full.used).map (rowLabel b))

end Layer

end CircuitFrames
