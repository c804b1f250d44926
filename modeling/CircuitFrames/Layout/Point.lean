import CircuitFrames.Numeral.Double
import Std.Data.ExtTreeSet

/-!
# Points of the drawing

Coordinates are added up, and opposite infinities have no sum. A coordinate that comes of them is
lost: it sorts in front of every number, while one that was not a number from the start sorts behind.
A point has a place on either axis.
-/

namespace CircuitFrames

/-! ## Places on an axis -/

/-- A place on an axis. -/
inductive AxisPlace where
  /-- The place of a number. -/
  | known (x : Float)
  /-- What comes of adding opposite infinities. -/
  | lost
deriving DecidableEq

namespace AxisPlace

/-- The coordinate, which is not a number at a lost place. -/
def value : AxisPlace → Float
  | known x => x
  | lost => 0 / 0

/-- The sum of two coordinates. It is lost if two numbers have no sum; a summand that is no number
already is the sum, the first one of two. -/
def add : AxisPlace → AxisPlace → AxisPlace
  | known a, known b =>
    if (a + b).isNaN ∧ ¬a.isNaN ∧ ¬b.isNaN then lost else known (a + b)
  | known a, lost => if a.isNaN then known a else lost
  | lost, _ => lost

instance : Add AxisPlace := ⟨add⟩

/-- The place with its distance to the origin multiplied, the origin itself without a sign. -/
def scale (factor : Float) : AxisPlace → AxisPlace
  | known x => known (x * factor + 0)
  | lost => lost

/-- The number of a place in the order of all places. Only a lost place has the number zero. -/
def rank : AxisPlace → UInt64
  | known x => Numeral.rank x
  | lost => 0

end AxisPlace

/-! ## Points -/

/-- A position in units of the drawing. -/
structure Point where
  column : AxisPlace
  row : AxisPlace
deriving DecidableEq

namespace Point

/-- The point at two coordinates, negative zeros made positive, so that one position is one
point. -/
def of (x y : Float) : Point :=
  ⟨.known (x + 0), .known (y + 0)⟩

/-- The first coordinate. -/
def x (p : Point) : Float :=
  p.column.value

/-- The second coordinate. -/
def y (p : Point) : Float :=
  p.row.value

/-- Points are ordered by their first coordinate, then by their second. -/
def order : Point → Point → Ordering :=
  compareLex (compareOn (·.column.rank)) (compareOn (·.row.rank))

instance : Std.TransCmp order :=
  inferInstanceAs (Std.TransCmp (compareLex _ _))

/-- The point that divides the way from `p` to `q` at the ratio `t`. -/
def lerp (p q : Point) (t : Float) : Point :=
  .of (p.x * (1 - t) + q.x * t) (p.y * (1 - t) + q.y * t)

/-- The mean of some points. -/
def centroid? (points : List Point) : Option Point :=
  if points.isEmpty then none
  else
    let count := Float.ofNat points.length
    let sum := points.foldl (fun (sx, sy) p => (sx + p.x, sy + p.y)) ((0 : Float), (0 : Float))
    some (.of (sum.1 / count) (sum.2 / count))

end Point

/-- A set of points. -/
abbrev PointSet := Std.ExtTreeSet Point Point.order

end CircuitFrames
