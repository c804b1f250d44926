import CircuitFrames.Diagram.Walk

/-!
# Frames

When a walk is over, the layers at its end on which nothing is drawn are discarded. The others become
frames: every position of the run is marked on each, the marks and notes are laid over them, and
each gets a view box. What falls on a discarded layer is reported instead.
-/

namespace CircuitFrames

open Svg (Primitive)

/-- A finished time slice. -/
structure Frame where
  primitives : List Primitive
  bounds : Bounds
deriving DecidableEq

/-- The frame as an SVG document of its own. -/
def Frame.svg (f : Frame) : String :=
  "<svg xmlns=\"http://www.w3.org/2000/svg\"" ++ Primitive.attr "viewBox" f.bounds.viewBox
    ++ ">\n" ++ String.join (f.primitives.map fun p => "    " ++ p.element ++ "\n") ++ "</svg>"

namespace Frame

/-- The layers without the empty ones at their end. -/
def shown (layers : Array Layer) : Array Layer :=
  layers.popWhile Layer.isEmpty

/-- The mark on a layer. -/
def markGlyph (coords : CoordinateMap) (m : Mark) : Primitive :=
  let p := coords.position m.qubit
  (Primitive.label p.x p.y m.kind.glyph.toString m.kind.color 64).aligned .middle .middle

/-- The note on a layer. -/
def noteGlyph (coords : CoordinateMap) (n : Note) : Primitive :=
  let p := coords.position n.qubit
  (Primitive.label (p.x - Glyph.radius) p.y n.channel.code "red" 12).aligned .finish .middle

/-- The layers under construction, and what there is to report about them. -/
structure Draft where
  layers : Array Layer
  events : Array Event

namespace Draft

/-- Draws a primitive on a layer, or reports that the layer is discarded. -/
def add (d : Draft) (index : Nat) (p : Primitive) (otherwise : Event) : Draft :=
  if index < d.layers.size then { d with layers := d.layers.modify index (·.draw [p]) }
  else { d with events := d.events.push otherwise }

/-- Lays a mark over its layer. -/
def addMark (coords : CoordinateMap) (d : Draft) (m : Mark) : Draft :=
  d.add m.layer (markGlyph coords m) (.markOnDiscardedLayer m)

/-- Puts a note on its layer. -/
def addNote (coords : CoordinateMap) (d : Draft) (n : Note) : Draft :=
  d.add n.layer (noteGlyph coords n) (.noteOnDiscardedLayer n)

end Draft

/-- The layers and qubits that have a mark or a note. -/
def annotated (marks : List Mark) (notes : NoteSet) : List (Nat × Qubit) :=
  marks.map (fun m => (m.layer, m.qubit)) ++ notes.toList.map fun n => (n.layer, n.qubit)

/-- Takes the annotated positions as used on their layers, so that a qubit without gates stays in
view. -/
def reserveAll (coords : CoordinateMap) (places : List (Nat × Qubit)) (layers : Array Layer) :
    Array Layer :=
  places.foldl (fun ls (index, q) => ls.modify index (·.reserve (coords.position q))) layers

/-- All positions of the run: those that a layer used, and the annotated ones on shown layers. -/
def allPositions (coords : CoordinateMap) (places : List (Nat × Qubit)) (layers : Array Layer)
    (shownCount : Nat) : PointSet :=
  let used := layers.foldl (fun s l => s.insertMany l.used.toList) (∅ : PointSet)
  used.insertMany
    ((places.filter (·.1 < shownCount)).map fun (_, q) => coords.position q)

/-- The frame of a finished layer. -/
def ofLayer (l : Layer) : Frame :=
  ⟨l.primitives.toList, l.bounds?.getD .origin⟩

/-- The frames of a finished walk under the given flips, and what there is to report about them. Marks
and notes stand where their qubit is in the end. -/
def ofWalk (w : Walk) (flips : List Mark) : List Frame × List Event :=
  let coords := w.current.coords
  let marks := flips ++ w.corrections.toList
  let places := annotated marks w.notes
  let kept := shown w.layers
  let positions := allPositions coords places w.layers kept.size
  let padded := (reserveAll coords places kept).map (·.addIdles positions)
  let marked := marks.foldl (Draft.addMark coords) ⟨padded, #[]⟩
  let noted := w.notes.toList.foldl (Draft.addNote coords) marked
  (noted.layers.toList.map ofLayer, noted.events.toList)

end Frame

end CircuitFrames
