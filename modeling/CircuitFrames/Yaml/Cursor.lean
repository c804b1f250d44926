import CircuitFrames.Text.Octets

/-!
# Places in a YAML text

A `Cursor` is a place in a text: what is left of it, and how many octets, lines and columns lie before.
A line ends at any of five line breaks; a carriage return and a line feed behind it are one.
-/

namespace CircuitFrames.Yaml

/-! ## Characters -/

/-- The blanks within a line. -/
def isBlank (c : Char) : Bool :=
  c == ' ' || c == '\t'

/-- The characters that end a line. -/
def isBreak (c : Char) : Bool :=
  c == '\n' || c == '\r' || c == '\u0085' || c == '\u2028' || c == '\u2029'

/-- Blanks and line breaks. -/
def isSpace (c : Char) : Bool :=
  isBlank c || isBreak c

/-- The characters that structure a collection in brackets. -/
def isFlowIndicator (c : Char) : Bool :=
  c == ',' || c == '[' || c == ']' || c == '{' || c == '}'

/-- The characters of names: ASCII letters, digits, the dash and the underscore. -/
def isWord (c : Char) : Bool :=
  c.isAlphanum || c == '-' || c == '_'

/-- The characters that may stand in a text: no control characters but tabs and line breaks. -/
def isPrintable (c : Char) : Bool :=
  c == '\t' || c == '\n' || c == '\r' || c == '\u0085'
    || ' ' ≤ c && c ≤ '~' || '\u00a0' ≤ c && c ≤ '\ufffd' || '\uffff' < c

/-- The mark that may stand at the start of a line to tell the encoding. -/
def byteOrderMark : Char := '\ufeff'

/-- Whether a blank, a line break or nothing comes next. -/
def endsWord (cs : List Char) : Bool :=
  cs.head?.all isSpace

/-- The line break at the front of a text: what it stands for in a scalar, and how many characters it
takes. The two rarest breaks stand for themselves, all others for a line feed. -/
def breakAt : List Char → List Char × Nat
  | '\r' :: '\n' :: _ => (['\n'], 2)
  | [] => ([], 0)
  | c :: _ =>
    if c == '\u2028' || c == '\u2029' then ([c], 1)
    else if isBreak c then (['\n'], 1)
    else ([], 0)

/-! ## Places -/

/-- A place in a text. -/
structure Cursor where
  /-- The text from here on. -/
  rest : List Char
  /-- How many characters that is. -/
  left : Nat
  /-- How many octets lie before. -/
  index : Nat
  /-- How many lines lie before. -/
  line : Nat
  /-- How many characters of the line lie before. -/
  column : Nat
deriving DecidableEq, Repr

namespace Cursor

/-- The start of a text. -/
def start (cs : List Char) : Cursor :=
  ⟨cs, cs.length, 0, 0, 0⟩

/-- The next character. -/
def head? (c : Cursor) : Option Char :=
  c.rest.head?

/-- The place a number of characters further on in the line. -/
def advance (c : Cursor) (count : Nat) : Cursor :=
  ⟨c.rest.drop count, c.left - count, c.index + Text.octets (c.rest.take count), c.line,
    c.column + count⟩

/-- The characters of a kind that come next. -/
def run (c : Cursor) (p : Char → Bool) : List Char :=
  c.rest.takeWhile p

/-- The place behind all characters of a kind that come next. -/
def skip (c : Cursor) (p : Char → Bool) : Cursor :=
  c.advance (c.run p).length

/-- Whether a line break comes next. -/
def atBreak (c : Cursor) : Bool :=
  c.head?.any isBreak

/-- The place behind a line break, if one comes next. -/
def nextLine (c : Cursor) : Cursor :=
  let taken := (breakAt c.rest).2
  if taken = 0 then c
  else ⟨c.rest.drop taken, c.left - taken, c.index + Text.octets (c.rest.take taken), c.line + 1, 0⟩

/-- What the next line break stands for in a scalar. -/
def breakText (c : Cursor) : List Char :=
  (breakAt c.rest).1

/-- The place behind blanks and a comment. -/
def skipComment (c : Cursor) : Cursor :=
  let c := c.skip isBlank
  if c.head? = some '#' then c.skip (!isBreak ·) else c

/-- Whether the rest of the line holds nothing. -/
def atLineEnd (c : Cursor) : Bool :=
  c.head?.all isBreak

/-- Whether a line that is a mark between documents comes next: three of a character, then a blank
or nothing. -/
def atMark (c : Cursor) (mark : Char) : Bool :=
  c.column == 0 && c.rest.take 3 == [mark, mark, mark] && endsWord (c.rest.drop 3)

/-- Whether a mark between documents comes next. -/
def atDocumentMark (c : Cursor) : Bool :=
  c.atMark '-' || c.atMark '.'

end Cursor

end CircuitFrames.Yaml
