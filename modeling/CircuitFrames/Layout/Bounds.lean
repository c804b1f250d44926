import CircuitFrames.Layout.Point
import CircuitFrames.Numeral.Plain

/-!
# View boxes
-/

namespace CircuitFrames

/-- The distance between neighbouring grid positions, in units of the drawing. -/
def pitch : Float := 32

/-- A rectangle with sides along the axes. -/
structure Bounds where
  minX : Float
  minY : Float
  maxX : Float
  maxY : Float
deriving DecidableEq

namespace Bounds

/-- The rectangle that is the single point at the origin. -/
def origin : Bounds := ⟨0, 0, 0, 0⟩

/-- The smaller of two numbers; one that is not a number does not count. -/
def smaller (a b : Float) : Float :=
  if a.isNaN ∨ b < a then b else a

/-- The larger of two numbers; one that is not a number does not count. -/
def larger (a b : Float) : Float :=
  if a.isNaN ∨ a < b then b else a

/-- The smallest rectangle around a rectangle and a point. -/
def extend (b : Bounds) (p : Point) : Bounds :=
  ⟨smaller b.minX p.x, smaller b.minY p.y, larger b.maxX p.x, larger b.maxY p.y⟩

/-- The rectangle with one pitch more on every side. -/
def pad (b : Bounds) : Bounds :=
  ⟨b.minX - pitch, b.minY - pitch, b.maxX + pitch, b.maxY + pitch⟩

/-- The rectangle around a set of points with one pitch on every side; there is none around no
points. -/
def around? (points : PointSet) : Option Bounds :=
  match points.toList with
  | [] => none
  | first :: rest =>
    some ((first :: rest).foldl extend ⟨first.x, first.y, first.x, first.y⟩).pad

/-- The width. -/
def width (b : Bounds) : Float :=
  b.maxX - b.minX

/-- The height. -/
def height (b : Bounds) : Float :=
  b.maxY - b.minY

/-- The value of a view box attribute. -/
def viewBox (b : Bounds) : String :=
  " ".intercalate ([b.minX, b.minY, b.width, b.height].map Numeral.plain)

end Bounds

end CircuitFrames
