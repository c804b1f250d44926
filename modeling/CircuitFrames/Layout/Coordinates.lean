import CircuitFrames.Circuit.Target
import CircuitFrames.Layout.Bounds
import Std.Data.ExtTreeMap

/-!
# Coordinates of qubits

Qubits stand on a grid. A declaration places a qubit under the shift in force; a qubit that was never
placed stands on the first row, in the column of its number.
-/

namespace CircuitFrames

/-- A position on the grid. -/
abbrev GridPoint := AxisPlace × AxisPlace

/-- The sum of all shifts so far, in the two dimensions of the plane. -/
structure PlaneShift where
  dx : AxisPlace
  dy : AxisPlace
deriving DecidableEq

namespace PlaneShift

/-- No shift. -/
def zero : PlaneShift := ⟨.known 0, .known 0⟩

/-- Adds further deltas. Those past the second dimension do not show in the plane. -/
def accumulate (s : PlaneShift) : List Float → PlaneShift
  | [] => s
  | [dx] => ⟨s.dx + .known dx, s.dy⟩
  | dx :: dy :: _ => ⟨s.dx + .known dx, s.dy + .known dy⟩

/-- The grid position that declared coordinates mean under the shift. A single coordinate stands on
the first row; no coordinates mean no position. -/
def moved? (s : PlaneShift) : List Float → Option GridPoint
  | [] => none
  | [x] => some (.known x + s.dx, .known 0 + s.dy)
  | x :: y :: _ => some (.known x + s.dx, .known y + s.dy)

end PlaneShift

/-- The declared grid positions of qubits. -/
structure CoordinateMap where
  declared : Std.ExtTreeMap Qubit GridPoint
deriving DecidableEq

namespace CoordinateMap

/-- No declaration. -/
def empty : CoordinateMap := ⟨∅⟩

instance : Inhabited CoordinateMap := ⟨empty⟩

/-- Places a qubit, wherever it stood before. -/
def declare (m : CoordinateMap) (q : Qubit) (g : GridPoint) : CoordinateMap :=
  ⟨m.declared.insert q g⟩

/-- The grid position of a qubit. -/
def grid (m : CoordinateMap) (q : Qubit) : GridPoint :=
  m.declared.getD q (.known q.toFloat, .known 0)

/-- The position of a qubit in the drawing. -/
def position (m : CoordinateMap) (q : Qubit) : Point :=
  let (x, y) := m.grid q
  ⟨x.scale pitch, y.scale pitch⟩

end CoordinateMap

/-- The grid value that labels a coordinate of the drawing on an axis. -/
def gridLabel (coordinate : Float) : String :=
  Numeral.plain (coordinate / pitch + 0)

end CircuitFrames
