import CircuitFrames.Numeral.Decimal

/-!
# Plain text of doubles

`plain` writes a double with the fewest digits that read back, always positionally: integers have
no point and no number has an exponent. `ofPlain?` reads such a text, and one with an exponent.
-/

namespace CircuitFrames.Numeral

open Float.Model (UnpackedFloat)

/-- The characters of a sign. -/
def signChars : UnpackedFloat.Sign → List Char
  | .positive => []
  | .negative => ['-']

/-- The characters of the plain text of a double. -/
def plainChars (x : Float) : List Char :=
  match x.toModel.unpack with
  | .notANumber => ['N', 'a', 'N']
  | .infinity s => signChars s ++ ['i', 'n', 'f']
  | .zero s => signChars s ++ ['0']
  | .finite s m q _ => signChars s ++ (shortest .up m q).chars

/-- The plain text of a double. -/
def plain (x : Float) : String :=
  .ofList (plainChars x)

/-- Splits off the longest run of decimal digits. -/
def spanDigits (cs : List Char) : List Char × List Char :=
  (cs.takeWhile Char.isDigit, cs.dropWhile Char.isDigit)

/-- The number that a digit string denotes. -/
def digitValue (ds : List Char) : Nat :=
  Nat.ofDigitChars 10 ds 0

/-- Splits off an exponent, `e` or `E`, an optional sign and at least one digit, and gives its
value. -/
def spanExponent? : List Char → Option (Int × List Char)
  | [] => none
  | e :: rest =>
    if e = 'e' ∨ e = 'E' then
      let (negative, rest) :=
        match rest with
        | '-' :: rest => (true, rest)
        | '+' :: rest => (false, rest)
        | rest => (false, rest)
      let (digits, rest) := spanDigits rest
      if digits.isEmpty then none
      else some (if negative then -(digitValue digits : Int) else digitValue digits, rest)
    else none

/-- Reads an unsigned number text: digits, an optional point with further digits, an optional
exponent, and at least one digit before the exponent. -/
def magnitude? (cs : List Char) : Option Float :=
  let (whole, rest) := spanDigits cs
  let (fraction, rest) :=
    match rest with
    | '.' :: rest => spanDigits rest
    | rest => ([], rest)
  if whole.isEmpty ∧ fraction.isEmpty then none
  else
    match rest with
    | [] => some (Decimal.ofLexeme whole fraction 0).toFloat
    | rest =>
      match spanExponent? rest with
      | some (exponent, []) => some (Decimal.ofLexeme whole fraction exponent).toFloat
      | _ => none

/-- Reads the plain text of a double, with an optional sign; the reading is the nearest double. -/
def ofPlain? (text : String) : Option Float :=
  match text.toList with
  | ['N', 'a', 'N'] => some (0 / 0)
  | ['i', 'n', 'f'] => some infinity
  | ['-', 'i', 'n', 'f'] => some (-infinity)
  | '-' :: cs => (magnitude? cs).map (- ·)
  | '+' :: cs => magnitude? cs
  | cs => magnitude? cs

end CircuitFrames.Numeral
