import CircuitFrames.Circuit.Basic

/-!
# Flat circuits

`flattened` unrolls every block and folds the coordinate shifts into the declarations after them,
and `detectorCoordinates` lists the coordinates of the detectors under the shifts in force. Both
follow the operations in the order in which they run and keep one shift, of as many dimensions as
any shift so far has had.
-/

namespace CircuitFrames

/-- A shift in as many dimensions as it was ever given. -/
abbrev ShiftVector := List Float

namespace ShiftVector

/-- Adds further deltas, component by component; a missing component counts as zero. -/
def accumulate : ShiftVector → List Float → ShiftVector
  | shift, [] => shift
  | [], d :: deltas => (0 + d) :: accumulate [] deltas
  | s :: shift, d :: deltas => (s + d) :: accumulate shift deltas

/-- Coordinates moved by a shift: components that the shift lacks are moved by zero, components
that the coordinates lack are left out. -/
def move : ShiftVector → List Float → List Float
  | _, [] => []
  | [], c :: coords => (c + 0) :: move [] coords
  | s :: shift, c :: coords => (c + s) :: move shift coords

end ShiftVector

namespace Circuit

/-- The operations without shifts, each declaration moved by the shifts before it. -/
def foldShifts (shift : ShiftVector) : List Operation → List Operation
  | [] => []
  | o :: rest =>
    match o.kind with
    | .shiftCoords => foldShifts (shift.accumulate o.args) rest
    | .qubitCoords | .detector =>
      { o with args := shift.move o.args } :: foldShifts shift rest
    | _ => o :: foldShifts shift rest

/-- The circuit without blocks and without shifts that declares the same coordinates. -/
def flattened (c : Circuit) : Circuit :=
  ofOperations (foldShifts [] c.executed)

/-- The coordinates of the detectors among the operations, with their numbers from `next` on. -/
def numberedCoordinates (shift : ShiftVector) (next : Nat) :
    List Operation → List (Nat × List Float)
  | [] => []
  | o :: rest =>
    match o.kind with
    | .shiftCoords => numberedCoordinates (shift.accumulate o.args) next rest
    | .detector =>
      if o.args.isEmpty then numberedCoordinates shift (next + 1) rest
      else (next, shift.move o.args) :: numberedCoordinates shift (next + 1) rest
    | _ => numberedCoordinates shift next rest

/-- The declared coordinates of the detectors under the shifts in force, with the numbers of the
detectors, in ascending order. A detector without coordinates is not listed. -/
def detectorCoordinates (c : Circuit) : List (Nat × List Float) :=
  numberedCoordinates [] 0 c.executed

end Circuit

end CircuitFrames
