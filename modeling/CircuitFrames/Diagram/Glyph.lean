import CircuitFrames.Circuit.Gate
import CircuitFrames.Circuit.Target
import CircuitFrames.Layout.Point
import CircuitFrames.Svg.Primitive

/-!
# Glyphs

What gates look like: labelled boxes for single qubits, two endpoints and a line for pairs, a fan of
boxes for Pauli products. Each glyph is the list of its primitives, from back to front. A product of
more than one basis gets a light colour from a hash of its factors, so that equal products look alike
and different ones almost always differ.
-/

namespace CircuitFrames

open Svg (Primitive)

namespace Glyph

/-- The side of a box. -/
def diameter : Float := 32

/-- Half the side of a box, and the radius of an endpoint. -/
def radius : Float := 16

/-! ## Boxes -/

/-- How the box of a gate looks. -/
structure BoxStyle where
  label : String
  fill : String
  textColor : String
deriving DecidableEq, Repr

/-- The box of a single-qubit gate. -/
def boxStyle : SingleGate → BoxStyle
  | .i => ⟨"I", "white", "gray"⟩
  | .x => ⟨"X", "white", "black"⟩
  | .y => ⟨"Y", "white", "black"⟩
  | .z => ⟨"Z", "white", "black"⟩
  | .r => ⟨"R", "black", "white"⟩
  | .rx => ⟨"RX", "black", "white"⟩
  | .ry => ⟨"RY", "black", "white"⟩
  | .m => ⟨"M", "black", "white"⟩
  | .mx => ⟨"MX", "black", "white"⟩
  | .my => ⟨"MY", "black", "white"⟩
  | .mr => ⟨"MR", "black", "white"⟩
  | .mrx => ⟨"MRX", "black", "white"⟩
  | .mry => ⟨"MRY", "black", "white"⟩
  | .h => ⟨"H", "yellow", "black"⟩
  | .hyz => ⟨"Hyz", "yellow", "black"⟩
  | .hxy => ⟨"Hxy", "yellow", "black"⟩
  | .s => ⟨"S", "yellow", "black"⟩
  | .sqrtX => ⟨"√X", "yellow", "black"⟩
  | .sqrtY => ⟨"√Y", "yellow", "black"⟩
  | .sDag => ⟨"S⁻¹", "yellow", "black"⟩
  | .sqrtXDag => ⟨"√X⁻¹", "yellow", "black"⟩
  | .sqrtYDag => ⟨"√Y⁻¹", "yellow", "black"⟩
  | .cxyz => ⟨"Cxyz", "teal", "black"⟩
  | .czyx => ⟨"Czyx", "teal", "black"⟩

/-- The font size at which a label fits its box. -/
def labelSize (label : String) : Nat :=
  match label.length with
  | 1 => 32
  | 2 => 24
  | _ => 18

/-- A labelled box centred on a point. -/
def box (p : Point) (label fill textColor : String) : List Primitive :=
  [.square (p.x - radius) (p.y - radius) diameter fill,
    .label p.x p.y label textColor (labelSize label)]

/-! ## Pairs -/

/-- The glyph at one end of a two-qubit gate. -/
inductive Endpoint
  /-- A plus in a circle. -/
  | x
  /-- A circle with three spokes. -/
  | y
  /-- A filled disc. -/
  | z
  /-- A small diagonal cross. -/
  | swap
  /-- A disc with a large diagonal cross. -/
  | iswap
deriving DecidableEq, Repr

/-- The endpoints of the first and the second qubit of a pair. -/
def endpoints : PairGate → Endpoint × Endpoint
  | .cx => (.z, .x)
  | .cy => (.z, .y)
  | .cz => (.z, .z)
  | .xcx => (.x, .x)
  | .xcy => (.x, .y)
  | .xcz => (.x, .z)
  | .ycx => (.y, .x)
  | .ycy => (.y, .y)
  | .ycz => (.y, .z)
  | .iswap | .iswapDag => (.iswap, .iswap)
  | .swap => (.swap, .swap)

/-- One over the square root of two. -/
def halfDiagonal : Float := .ofBits 0x3fe6a09e667f3bcd

/-- A diagonal cross. -/
def cross (p : Point) (r : Float) : List Primitive :=
  [.thinLine (p.x - r) (p.y - r) (p.x + r) (p.y + r),
    .thinLine (p.x - r) (p.y + r) (p.x + r) (p.y - r)]

/-- An endpoint at a point. -/
def endpoint (p : Point) : Endpoint → List Primitive
  | .x =>
    [(Primitive.disc p.x p.y radius "white").outlined,
      .thinLine (p.x - radius) p.y (p.x + radius) p.y,
      .thinLine p.x (p.y - radius) p.x (p.y + radius)]
  | .y =>
    let s := radius * halfDiagonal
    [(Primitive.disc p.x p.y radius "white").outlined,
      .thinLine p.x p.y p.x (p.y + radius),
      .thinLine p.x p.y (p.x - s) (p.y - s),
      .thinLine p.x p.y (p.x + s) (p.y - s)]
  | .z => [.disc p.x p.y radius "black"]
  | .swap => cross p (radius / 3)
  | .iswap => .disc p.x p.y (radius / 2) "black" :: cross p radius

/-- A two-qubit gate: the line between its qubits, then both endpoints. -/
def pair (first second : Point) (gate : PairGate) : List Primitive :=
  let (one, other) := endpoints gate
  .thinLine first.x first.y second.x second.y :: (endpoint first one ++ endpoint second other)

/-! ## Products -/

/-- The colour kept for products of a single basis. -/
def basisColor : Pauli → String
  | .x => "#FF8080"
  | .y => "#80FF80"
  | .z => "#8080FF"

/-- The width of the lines of a product. -/
def productStroke : Float := 8

/-- How far the boxes of a product are drawn in towards its centre. -/
def productInset : Float := 0.1

/-- The basis that all factors of a product share. -/
def sharedBasis? : List (Point × Pauli) → Option Pauli
  | [] => none
  | (_, basis) :: rest => if rest.all (·.2 == basis) then some basis else none

/-- A measurement of a Pauli product: lines from its factors to their centre, then a box for each. A
product of a single basis has the colour of the basis and blank boxes, any other the given colour
and its bases as labels. -/
def product (factors : List (Point × Pauli)) (mixedColor : String) : List Primitive :=
  match Point.centroid? (factors.map (·.1)) with
  | none => []
  | some centre =>
    let shared := sharedBasis? factors
    let color := (shared.map basisColor).getD mixedColor
    let lines := factors.map fun (p, _) =>
      Primitive.thickLine p.x p.y centre.x centre.y color productStroke
    let boxes := factors.flatMap fun (p, basis) =>
      let label := if shared.isSome then "" else "P" ++ basis.letter.toString
      box (p.lerp centre productInset) label color "black"
    lines ++ boxes

end Glyph

/-! ## Colours of products -/

namespace ProductHash

/-- The multiplier of the hash. -/
def multiplier : UInt64 := 0xf1357aea2e62a9c5

/-- Takes one more number into the hash. -/
def add (h value : UInt64) : UInt64 :=
  (h + value) * multiplier

/-- The hash of the factors of a product: their number, then the qubit and the basis of each, and at
the end a rotation that moves the well-mixed high bits down. -/
def of (factors : List (Qubit × Pauli)) : UInt64 :=
  let start := add 0 (.ofNat factors.length)
  let h := factors.foldl
    (fun h (q, p) => add (add h (.ofNat q.toNat)) (.ofNat p.index)) start
  (h <<< 26) ||| (h >>> 38)

end ProductHash

/-- A digit string of some length in base sixteen. -/
def hexText (digits : Nat) (value : Nat) : String :=
  let shown := Nat.toDigits 16 value
  .ofList (List.replicate (digits - shown.length) '0' ++ shown)

/-- The colour of a product: seven bits of the hash for each of red, green and blue, in their light
half. -/
def productColor (factors : List (Qubit × Pauli)) : String :=
  "#" ++ hexText 6 (0x808080 ||| (ProductHash.of factors &&& 0x7f7f7f)).toNat

end CircuitFrames
