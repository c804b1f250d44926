import CircuitFrames.Json.Lexer
import CircuitFrames.Numeral.Plain

/-!
# Numbers in JSON

Integers are exact. Any other number is read with a significand of sixty-four bits and a power of
ten: `Scaled.toFloat?` rounds the significand first and then multiplies or divides by the power, so
the reading is near the number but not always the nearest double. `floatText` writes a double with
the fewest digits that read back.
-/

namespace CircuitFrames.Json

/-- The largest significand. -/
def maxSignificand : Nat := UInt64.size - 1

/-- The largest exponent that is taken digit by digit. -/
def maxExponent : Nat := 0x7fffffff

/-- The number `significand · 10 ^ exponent`. -/
structure Scaled where
  significand : Nat
  exponent : Int
deriving DecidableEq, Repr

namespace Scaled

/-- Appends a digit to the significand if it has room for it. It stays folded, so that nobody computes
with the limit by accident. -/
@[irreducible] def push? (significand : Nat) (digit : Char) : Option Nat :=
  let next := 10 * significand + (digit.toNat - '0'.toNat)
  if next ≤ maxSignificand then some next else none

/-- Appends the digits before the point. From the first that finds no room on, each only raises the
power of ten. -/
def pushWhole (significand : Nat) : List Char → Scaled
  | [] => ⟨significand, 0⟩
  | d :: ds =>
    match push? significand d with
    | some next => pushWhole next ds
    | none => ⟨significand, (d :: ds).length⟩

/-- Appends the digits after the point. From the first that finds no room on, they are dropped. -/
def pushFraction (s : Scaled) : List Char → Scaled
  | [] => s
  | d :: ds =>
    match push? s.significand d with
    | some next => pushFraction ⟨next, s.exponent - 1⟩ ds
    | none => s

/-- The divisor that brings a small number within reach of the powers of ten. -/
def greatDivisor : Float := Numeral.Decimal.toFloat ⟨1, 308⟩

/-- Divides or multiplies a double by a power of ten, in steps no larger than the largest power that
a double holds. A result past the largest double is refused. -/
def scale? (rounds : Nat) (value : Float) (exponent : Int) : Option Float :=
  if exponent.natAbs ≤ 308 then
    let power := Numeral.Decimal.toFloat ⟨1, exponent.natAbs⟩
    if 0 ≤ exponent then
      let scaled := value * power
      if scaled.isInf then none else some scaled
    else some (value / power)
  else if value == 0 then some value
  else if 0 ≤ exponent then none
  else
    match rounds with
    | 0 => some value
    | rounds + 1 => scale? rounds (value / greatDivisor) (exponent + 308)

/-- The double read off a scaled number. Two divisions bring any significand to zero, so a few
rounds are enough. -/
def toFloat? (s : Scaled) : Option Float :=
  scale? 8 (Numeral.Decimal.toFloat ⟨s.significand, 0⟩) s.exponent

end Scaled

namespace NumberText

/-- The number without its exponent and sign. -/
def scaled (n : NumberText) : Scaled :=
  (Scaled.pushWhole 0 n.whole).pushFraction (n.fraction.getD [])

/-- The double that a number text is read as; none if it is past the largest double. -/
def magnitude? (n : NumberText) : Option Float :=
  let s := n.scaled
  match n.exponent with
  | none => s.toFloat?
  | some (negative, digits) =>
    let power := Numeral.digitValue digits
    if power ≤ maxExponent then
      Scaled.toFloat?
        { s with exponent := if negative then s.exponent - power else s.exponent + power }
    else if s.significand = 0 ∨ negative then some 0
    else none

/-- The integer that a number text spells with digits alone, if it fits sixty-four bits. Negative
zero is no integer. -/
def integer? (n : NumberText) : Option Int :=
  match n.fraction, n.exponent with
  | none, none =>
    let value := Numeral.digitValue n.whole
    if n.negative then
      if 0 < value ∧ Int64.minValue.toInt ≤ -value then some (-value) else none
    else if value < UInt64.size then some value
    else none
  | _, _ => none

/-- The double that a number text stands for. -/
def float? (n : NumberText) : Option Float :=
  n.magnitude?.map fun x => if n.negative then -x else x

end NumberText

/-! ## Writing -/

/-- The text of a positive decimal: positional while the point stands within the first sixteen
digits or at most five places before them, with `.0` behind an integer; else with one digit before
the point and an exponent with its sign. -/
def decimalChars (d : Numeral.Decimal) : List Char :=
  let digits := d.digitChars
  let point : Int := digits.length + d.exponent
  if 0 ≤ d.exponent ∧ point ≤ 16 then d.chars ++ ['.', '0']
  else if -5 < point ∧ point ≤ 16 then d.chars
  else
    let mantissa :=
      match digits with
      | [] => []
      | [c] => [c]
      | c :: rest => c :: '.' :: rest
    mantissa ++ 'e' :: (if 0 < point then '+' :: (toString (point - 1)).toList
      else (toString (point - 1)).toList)

/-- The JSON text of a double; one that is not finite is `null`. -/
def floatText (x : Float) : String :=
  match x.toModel.unpack with
  | .notANumber | .infinity _ => "null"
  | .zero s => .ofList (Numeral.signChars s ++ ['0', '.', '0'])
  | .finite s m q _ =>
    .ofList (Numeral.signChars s ++ decimalChars (Numeral.shortest .even m q))

end CircuitFrames.Json
