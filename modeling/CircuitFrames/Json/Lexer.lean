import CircuitFrames.Numeral.Plain

/-!
# JSON values and tokens

Values keep what a decoder may still have to refuse: the members of an object in order and with
repetitions, the digits of a number as they are written, and strings whose surrogate escapes do not
pair up, which stand for no text.
-/

namespace CircuitFrames.Json

/-- A number as it is written. The exponent, if there is one, is its sign and its digits. -/
structure NumberText where
  negative : Bool
  whole : List Char
  fraction : Option (List Char)
  exponent : Option (Bool × List Char)
deriving DecidableEq, Repr

/-- A JSON value. A string is none if it holds half of a surrogate pair. -/
inductive Value
  | null
  | bool (value : Bool)
  | number (text : NumberText)
  | string (text? : Option String)
  | array (items : List Value)
  | object (members : List (Option String × Value))

/-- A token of JSON text. -/
inductive Token
  | leftBrace
  | rightBrace
  | leftBracket
  | rightBracket
  | colon
  | comma
  | null
  | bool (value : Bool)
  | number (text : NumberText)
  | string (text? : Option String)
deriving DecidableEq, Repr

/-! ## Strings -/

/-- A part of a string: a character, or an escaped UTF-16 unit. -/
inductive Unit16
  | char (c : Char)
  | unit (value : Nat)

/-- The number of a hexadecimal digit of either case. -/
def hexDigit? (c : Char) : Option Nat :=
  if c.isDigit then some (c.toNat - '0'.toNat)
  else if 'a' ≤ c ∧ c ≤ 'f' then some (c.toNat - 'a'.toNat + 10)
  else if 'A' ≤ c ∧ c ≤ 'F' then some (c.toNat - 'A'.toNat + 10)
  else none

/-- The number of four hexadecimal digits. -/
def hex4? (a b c d : Char) : Option Nat := do
  let a ← hexDigit? a
  let b ← hexDigit? b
  let c ← hexDigit? c
  let d ← hexDigit? d
  return ((a * 16 + b) * 16 + c) * 16 + d

/-- The character of a one-letter escape. -/
def escaped? : Char → Option Char
  | '"' => some '"'
  | '\\' => some '\\'
  | '/' => some '/'
  | 'b' => some '\x08'
  | 'f' => some '\x0c'
  | 'n' => some '\n'
  | 'r' => some '\r'
  | 't' => some '\t'
  | _ => none

/-- The parts of a string up to its closing quote, and the text after it. Control characters have to
be escaped. -/
def stringParts? : List Char → Option (List Unit16 × List Char)
  | [] => none
  | '"' :: rest => some ([], rest)
  | '\\' :: 'u' :: a :: b :: c :: d :: rest => do
    let value ← hex4? a b c d
    let (parts, rest) ← stringParts? rest
    return (.unit value :: parts, rest)
  | '\\' :: e :: rest => do
    let c ← escaped? e
    let (parts, rest) ← stringParts? rest
    return (.char c :: parts, rest)
  | c :: rest =>
    if c.toNat < 0x20 ∨ c = '\\' then none
    else do
      let (parts, rest) ← stringParts? rest
      return (.char c :: parts, rest)

/-- The characters that the parts of a string stand for. Two surrogates, a high one and a low one
right behind it, stand for one character; alone they stand for none. -/
def joinParts? : List Unit16 → Option (List Char)
  | [] => some []
  | .char c :: rest => (joinParts? rest).map (c :: ·)
  | .unit high :: .unit low :: rest =>
    if 0xD800 ≤ high ∧ high < 0xDC00 then
      if 0xDC00 ≤ low ∧ low < 0xE000 then
        (joinParts? rest).map
          (Char.ofNat (0x10000 + (high - 0xD800) * 0x400 + (low - 0xDC00)) :: ·)
      else none
    else if 0xDC00 ≤ high ∧ high < 0xE000 then none
    else (joinParts? (.unit low :: rest)).map (Char.ofNat high :: ·)
  | .unit value :: rest =>
    if 0xD800 ≤ value ∧ value < 0xE000 then none
    else (joinParts? rest).map (Char.ofNat value :: ·)

/-! ## Numbers -/

/-- The whole part of a number: a lone zero, or digits that do not start with one. -/
def wholePart? : List Char → Option (List Char × List Char)
  | '0' :: rest => some (['0'], rest)
  | cs =>
    let (digits, rest) := Numeral.spanDigits cs
    if digits.isEmpty then none else some (digits, rest)

/-- The fraction of a number, if a point follows, with at least one digit. -/
def fractionPart? : List Char → Option (Option (List Char) × List Char)
  | '.' :: rest =>
    let (digits, rest) := Numeral.spanDigits rest
    if digits.isEmpty then none else some (some digits, rest)
  | cs => some (none, cs)

/-- The exponent of a number, if a letter `e` of either case follows, with at least one digit. -/
def exponentPart? : List Char → Option (Option (Bool × List Char) × List Char)
  | [] => some (none, [])
  | e :: rest =>
    if e = 'e' ∨ e = 'E' then
      let (negative, rest) :=
        match rest with
        | '-' :: rest => (true, rest)
        | '+' :: rest => (false, rest)
        | rest => (false, rest)
      let (digits, rest) := Numeral.spanDigits rest
      if digits.isEmpty then none else some (some (negative, digits), rest)
    else some (none, e :: rest)

/-- The number at the front of a text. -/
def number? (cs : List Char) : Option (NumberText × List Char) := do
  let (negative, cs) :=
    match cs with
    | '-' :: cs => (true, cs)
    | cs => (false, cs)
  let (whole, cs) ← wholePart? cs
  let (fraction, cs) ← fractionPart? cs
  let (exponent, cs) ← exponentPart? cs
  return (⟨negative, whole, fraction, exponent⟩, cs)

/-! ## Tokens -/

/-- The characters between tokens. -/
def isSpace (c : Char) : Bool :=
  c == ' ' || c == '\n' || c == '\t' || c == '\r'

/-- The token at the front of a text, and the text after it. -/
def token? : List Char → Option (Token × List Char)
  | '{' :: rest => some (.leftBrace, rest)
  | '}' :: rest => some (.rightBrace, rest)
  | '[' :: rest => some (.leftBracket, rest)
  | ']' :: rest => some (.rightBracket, rest)
  | ':' :: rest => some (.colon, rest)
  | ',' :: rest => some (.comma, rest)
  | 'n' :: 'u' :: 'l' :: 'l' :: rest => some (.null, rest)
  | 't' :: 'r' :: 'u' :: 'e' :: rest => some (.bool true, rest)
  | 'f' :: 'a' :: 'l' :: 's' :: 'e' :: rest => some (.bool false, rest)
  | '"' :: rest =>
    (stringParts? rest).map fun (parts, rest) =>
      (.string ((joinParts? parts).map String.ofList), rest)
  | cs => (number? cs).map fun (n, rest) => (.number n, rest)

/-- Cuts a text into tokens. Every token takes at least one character, so as many rounds as there
are characters are enough. -/
def scan : Nat → List Char → Option (List Token)
  | _, [] => some []
  | 0, _ => none
  | rounds + 1, c :: cs =>
    if isSpace c then scan rounds cs
    else do
      let (t, rest) ← token? (c :: cs)
      let ts ← scan rounds rest
      return t :: ts

/-- The tokens of a JSON text. -/
def tokenize? (source : String) : Option (List Token) :=
  let cs := source.toList
  scan cs.length cs

end CircuitFrames.Json
