import CircuitFrames.Numeral.Plain

/-!
# Tokens of circuit text

Line breaks are tokens, because they end an instruction. Names, Pauli targets such as `X5` and the
word `rec` are all words.
-/

namespace CircuitFrames.Text

/-- A token of circuit text. -/
inductive Token
  /-- A line break. -/
  | newline
  /-- A number with a point or an exponent. -/
  | decimal (value : Float)
  /-- A number of digits alone. -/
  | integer (value : UInt64)
  /-- A letter or underscore, then letters, digits and underscores. -/
  | word (text : String)
  | minus
  | star
  | bang
  | leftParen
  | rightParen
  | leftBracket
  | rightBracket
  | leftBrace
  | rightBrace
  | comma
deriving DecidableEq

namespace Token

/-- How an error message names the token. -/
def text : Token → String
  | newline => "newline"
  | decimal v => Numeral.plain v
  | integer n => toString n.toNat
  | word w => w
  | minus => "-"
  | star => "*"
  | bang => "!"
  | leftParen => "("
  | rightParen => ")"
  | leftBracket => "["
  | rightBracket => "]"
  | leftBrace => "\x7b"
  | rightBrace => "\x7d"
  | comma => ","

/-- The token that a character is by itself. -/
def ofChar? : Char → Option Token
  | '\n' => some newline
  | '-' => some minus
  | '*' => some star
  | '!' => some bang
  | '(' => some leftParen
  | ')' => some rightParen
  | '[' => some leftBracket
  | ']' => some rightBracket
  | '{' => some leftBrace
  | '}' => some rightBrace
  | ',' => some comma
  | _ => none

end Token

end CircuitFrames.Text
