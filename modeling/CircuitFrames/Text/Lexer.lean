import CircuitFrames.Text.Error
import CircuitFrames.Text.Octets

/-!
# Lexing circuit text

`scan` cuts circuit text into tokens, always the longest that the text allows. Spaces, tabs,
carriage returns and comments separate tokens and are dropped. The text is read as characters;
a fault is reported with the text that is left, from which `tokenize` computes its position in octets.
-/

namespace CircuitFrames.Text

/-- The characters that only separate tokens. -/
def isBlank (c : Char) : Bool :=
  c == ' ' || c == '\t' || c == '\r'

/-- The characters that a word may start with: ASCII letters and the underscore. -/
def startsWord (c : Char) : Bool :=
  c.isAlpha || c == '_'

/-- The characters that a word may go on with: ASCII letters, digits and the underscore. -/
def continuesWord (c : Char) : Bool :=
  c.isAlphanum || c == '_'

/-- The rest of a line. -/
def skipLine (cs : List Char) : List Char :=
  cs.dropWhile (· != '\n')

/-- The token of a run of digits; a number past sixty-four bits is none. -/
def integer? (digits : List Char) : Option Token :=
  let value := Numeral.digitValue digits
  if value < UInt64.size then some (.integer (.ofNat value)) else none

/-- The token of a number whose digits after the point are `fraction`, if an exponent or nothing
follows. -/
def decimalToken (whole fraction rest : List Char) : Token × List Char :=
  match Numeral.spanExponent? rest with
  | some (exponent, rest) =>
    (.decimal (Numeral.Decimal.ofLexeme whole fraction exponent).toFloat, rest)
  | none => (.decimal (Numeral.Decimal.ofLexeme whole fraction 0).toFloat, rest)

/-- The longest number at the front of a text that starts with a digit. -/
def number (cs : List Char) : Option Token × List Char :=
  let (whole, rest) := Numeral.spanDigits cs
  match rest with
  | '.' :: rest =>
    let (fraction, rest) := Numeral.spanDigits rest
    let (token, rest) := decimalToken whole fraction rest
    (some token, rest)
  | rest =>
    match Numeral.spanExponent? rest with
    | some (exponent, rest) =>
      (some (.decimal (Numeral.Decimal.ofLexeme whole [] exponent).toFloat), rest)
    | none => (integer? whole, rest)

/-- The longest token at the front of a text, which starts with `c`, and the text after it. Where no
token can be made, the text that stood in its place is dropped all the same: the whole of a number
that is too large, else one character. -/
def lexeme (c : Char) (cs : List Char) : Option Token × List Char :=
  if startsWord c then
    (some (.word (.ofList (c :: cs.takeWhile continuesWord))), cs.dropWhile continuesWord)
  else if c.isDigit then number (c :: cs)
  else (Token.ofChar? c, cs)

theorem spanExponent?_length {cs : List Char} {e : Int} {rest : List Char}
    (h : Numeral.spanExponent? cs = some (e, rest)) : rest.length < cs.length := by
  have drop (p : Char → Bool) (l : List Char) : (l.dropWhile p).length ≤ l.length :=
    (List.dropWhile_sublist p).length_le
  unfold Numeral.spanExponent? Numeral.spanDigits at h
  grind

theorem number_length {c : Char} {cs : List Char} (hc : c.isDigit) :
    (number (c :: cs)).2.length ≤ cs.length := by
  have drop (p : Char → Bool) (l : List Char) : (l.dropWhile p).length ≤ l.length :=
    (List.dropWhile_sublist p).length_le
  have first := drop Char.isDigit cs
  simp only [number, Numeral.spanDigits, List.dropWhile_cons, hc, if_true, decimalToken]
  split
  · next rest hr =>
    have second := drop Char.isDigit rest
    split
    · next h =>
      have := spanExponent?_length h
      grind
    · grind
  · split
    · next h => have := spanExponent?_length h; grind
    · exact first

theorem lexeme_length (c : Char) (cs : List Char) : (lexeme c cs).2.length ≤ cs.length := by
  unfold lexeme
  split
  · exact (List.dropWhile_sublist _).length_le
  · split
    · exact number_length ‹_›
    · exact Nat.le_refl _

/-- The text at which scanning stopped: what stood in the place of a token, and what follows it. -/
structure Unreadable where
  lexeme : List Char
  rest : List Char
deriving DecidableEq, Repr

/-- Cuts a text into tokens. -/
def scan : List Char → Except Unreadable (List Token)
  | [] => .ok []
  | c :: cs =>
    if isBlank c then scan cs
    else if c = '#' then scan (skipLine cs)
    else
      match h : lexeme c cs with
      | (some token, rest) =>
        match scan rest with
        | .ok tokens => .ok (token :: tokens)
        | .error e => .error e
      | (none, rest) => .error ⟨(c :: cs).take (cs.length + 1 - rest.length), rest⟩
termination_by cs => cs.length
decreasing_by
  · simp
  · have := (List.dropWhile_sublist (· != '\n') (l := cs)).length_le
    simp only [skipLine, List.length_cons]; omega
  · have := lexeme_length c cs
    simp_all only [List.length_cons]; omega

/-- The tokens of a text, or the position in octets at which none could be made. -/
def tokenize (source : String) : Except ParseError (List Token) :=
  let cs := source.toList
  match scan cs with
  | .ok tokens => .ok tokens
  | .error u =>
    .error (.unreadable (octets cs - octets (u.lexeme ++ u.rest)) (.ofList u.lexeme))

end CircuitFrames.Text
