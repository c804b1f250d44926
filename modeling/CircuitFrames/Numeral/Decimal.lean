import CircuitFrames.Numeral.Double

/-!
# Decimal numbers

A `Decimal` is a natural number of units at a power of ten. `Decimal.ofLexeme` reads one off the
digits of a number text, `Decimal.toFloat` rounds it to the nearest double, and `Decimal.chars`
writes it positionally, without an exponent.

`shortest tie m q` is the decimal with the fewest digits that `Decimal.toFloat` reads as the double
`m · 2 ^ q`. For each number of digits only the two multiples next to the value on that decimal
grid can be the nearest that reads back, so the search tries those two, one digit longer each time.
-/

namespace CircuitFrames.Numeral

/-- The non-negative rational `digits · 10 ^ exponent`. -/
structure Decimal where
  digits : Nat
  exponent : Int
deriving DecidableEq, Repr

namespace Decimal

/-- The decimal written with the digits `whole`, a point, the digits `fraction` and the power of
ten `exponent`. -/
def ofLexeme (whole fraction : List Char) (exponent : Int) : Decimal where
  digits := Nat.ofDigitChars 10 (whole ++ fraction) 0
  exponent := exponent - fraction.length

/-- The nearest double. The two early answers only spare the powers of ten: at ten to the four
hundredth and above every value is infinite, below its inverse every value is zero. -/
def toFloat (d : Decimal) : Float :=
  if d.digits = 0 then 0
  else if 400 < d.exponent then infinity
  else if d.exponent + d.digits.log2 + 1 < -400 then 0
  else nearest (d.digits * Nat.pow 10 d.exponent.toNat) (Nat.pow 10 (-d.exponent).toNat)

/-- The same number with no zero at the end of its digits. -/
def trim (d : Decimal) : Decimal :=
  if d.digits ≠ 0 ∧ d.digits % 10 = 0 then trim ⟨d.digits / 10, d.exponent + 1⟩ else d
termination_by d.digits
decreasing_by omega

/-- The decimal digits of the units. -/
def digitChars (d : Decimal) : List Char :=
  Nat.toDigits 10 d.digits

/-- The characters of the positional text: the digits with zeros behind them, or with a point
among them and as many zeros as it takes to reach the point. -/
def chars (d : Decimal) : List Char :=
  if 0 ≤ d.exponent then
    d.digitChars ++ List.replicate d.exponent.toNat '0'
  else
    let places := (-d.exponent).toNat
    let shown := d.digitChars.length
    if places < shown then
      d.digitChars.take (shown - places) ++ '.' :: d.digitChars.drop (shown - places)
    else
      '0' :: '.' :: (List.replicate (places - shown) '0' ++ d.digitChars)

end Decimal

/-! ## The shortest decimal that reads back -/

/-- Which of two decimals of the same length is taken when the value is exactly half-way. -/
inductive TieRule
  /-- The upper one. -/
  | up
  /-- The one whose last digit is even. -/
  | even
deriving DecidableEq, Repr

/-- How many digits of `num / den` stand before the decimal point: the `p` with
`10 ^ (p - 1) ≤ num / den < 10 ^ p`, which is negative when zeros follow the point. -/
def pointPosition (num den : Nat) : Int :=
  if den ≤ num then (Nat.toDigits 10 (num / den)).length
  else 1 - (Nat.toDigits 10 (den / num)).length

/-- Of the two multiples of `10 ^ exponent` next to `num / den`, the one that reads back as `value`;
of two that do, the nearer. -/
def onGrid? (tie : TieRule) (value : Float) (num den : Nat) (exponent : Int) : Option Decimal :=
  let num := num * Nat.pow 10 (-exponent).toNat
  let den := den * Nat.pow 10 exponent.toNat
  let lower : Decimal := ⟨num / den, exponent⟩
  let upper : Decimal := ⟨num / den + 1, exponent⟩
  let twice := 2 * (num % den)
  match decide (lower.toFloat = value), decide (upper.toFloat = value) with
  | false, false => none
  | true, false => some lower
  | false, true => some upper
  | true, true =>
    if twice < den then some lower
    else if den < twice then some upper
    else if tie = .even ∧ lower.digits % 2 = 0 then some lower
    else some upper

/-- Every binary fraction is a decimal: `m · 2 ^ q` itself, with all its digits. -/
def exactDecimal (m : Nat) (q : Int) : Decimal :=
  if 0 ≤ q then ⟨m * Nat.pow 2 q.toNat, 0⟩ else ⟨m * Nat.pow 5 (-q).toNat, q⟩

/-- The shortest decimal that reads back as the double `m · 2 ^ q`, without zeros at its end.
Seventeen digits always suffice; past them the exact value stands. -/
def shortest (tie : TieRule) (m : Nat) (q : Int) : Decimal :=
  let num := m * Nat.pow 2 q.toNat
  let den := Nat.pow 2 (-q).toNat
  let point := pointPosition num den
  let value := assemble m q
  let found := (List.range 17).findSome? fun (n : Nat) =>
    onGrid? tie value num den (point - 1 - n)
  (found.getD (exactDecimal m q)).trim

end CircuitFrames.Numeral
