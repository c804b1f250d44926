/-!
# Doubles

`nearest num den` is the double closest to the rational `num / den`, the one with an even
significand when two are equally close. It is computed in exact natural-number arithmetic: the
exponent of the last binary place is found first, then the quotient is rounded once at that place.
Every number text of the library is read through this one rounding.

`rank` numbers the doubles from negative infinity upwards, negative zero just below positive zero
and the not-a-number last. Comparing ranks is a total order, which the comparison of doubles is
not.
-/

namespace CircuitFrames.Numeral

/-! ## Rounding a quotient -/

/-- The natural number closest to `num / den`; a half goes to the even neighbour. -/
def roundHalfEven (num den : Nat) : Nat :=
  let quotient := num / den
  let twice := 2 * (num % den)
  if twice < den then quotient
  else if den < twice then quotient + 1
  else if quotient % 2 = 0 then quotient
  else quotient + 1

/-- The exponent of the last binary place of the double nearest to `num / den`: the place that
leaves fifty-three significant ones, and never one below the last place of the subnormals. -/
def lastPlace (num den : Nat) : Int :=
  let place : Int := num.log2 - den.log2 - 53
  let top := place + 53
  let place :=
    if den * Nat.pow 2 top.toNat ≤ num * Nat.pow 2 (-top).toNat then place + 1 else place
  max place (-1074)

/-- The double `significand · 2 ^ place`, where `place` is the last place of the result. A value
past the largest finite double becomes infinite. -/
def assemble (significand : Nat) (place : Int) : Float :=
  if h : 0 < significand then .ofModel (.pack (.finite .positive significand place h)) else 0

/-- The double nearest to `num / den`, the one with an even significand of two equally near. -/
def nearest (num den : Nat) : Float :=
  if num = 0 then 0
  else
    let place := lastPlace num den
    let significand :=
      roundHalfEven (num * Nat.pow 2 (-place).toNat) (den * Nat.pow 2 place.toNat)
    if significand = Nat.pow 2 53 then assemble (Nat.pow 2 52) (place + 1)
    else assemble significand place

/-- Positive infinity. -/
def infinity : Float := .ofModel (.pack (.infinity .positive))

/-! ## Natural numbers and order -/

/-- The natural number that a double is, if it is one. Negative zero is zero. -/
def natural? (x : Float) : Option Nat :=
  match x.toModel.unpack with
  | .zero _ => some 0
  | .finite .positive m q _ =>
    let unit := Nat.pow 2 (-q).toNat
    if m % unit = 0 then some (m / unit * Nat.pow 2 q.toNat) else none
  | _ => none

/-- The place of a double in the total order of all doubles. The bits of a non-negative double grow
with it, those of a negative one fall. -/
def rank (x : Float) : UInt64 :=
  let bits := x.toBits
  if bits < 0x8000000000000000 then bits + 0x8000000000000000 else ~~~bits

end CircuitFrames.Numeral
