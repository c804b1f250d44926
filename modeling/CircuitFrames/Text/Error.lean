import CircuitFrames.Circuit.Error
import CircuitFrames.Text.Token

/-!
# What can be wrong with circuit text
-/

namespace CircuitFrames.Text

/-- What the reader of circuit text was looking for. -/
inductive Wanted
  /-- One particular token. -/
  | token (token : Token)
  /-- The name at the start of an instruction. -/
  | instructionName
  /-- A number among the arguments. -/
  | number
  /-- A number without point and exponent. -/
  | integer
  /-- A target. -/
  | target
  /-- The end of a repeated block. -/
  | blockEnd
deriving DecidableEq

namespace Wanted

/-- The words for what was wanted where something else stands. -/
def text : Wanted → String
  | token t => t.text
  | instructionName => "instruction name"
  | number => "number"
  | integer => "integer"
  | target => "target"
  | blockEnd => "'\x7d'"

/-- The words for what was wanted where the text ends. -/
def atEnd : Wanted → String
  | token t => "expected " ++ t.text
  | wanted => wanted.text

end Wanted

/-- A fault of circuit text. -/
inductive ParseError
  /-- No token starts at a byte position; `lexeme` is the text that was given up. -/
  | unreadable (position : Nat) (lexeme : String)
  /-- Another token was wanted. -/
  | unexpectedToken (line : Nat) (wanted : Wanted) (found : Token)
  /-- The text ends too early. -/
  | unexpectedEnd (wanted : Wanted)
  /-- A block is closed that was never opened. -/
  | unmatchedBrace (line : Nat)
  /-- A target that no circuit can hold. -/
  | invalidTarget (line : Nat) (target : String)
  /-- The text asks for a circuit that cannot be built. -/
  | circuit (error : CircuitError)
deriving DecidableEq

/-- The wording of a fault. -/
def ParseError.message : ParseError → String
  | unreadable position lexeme =>
    "Lexer error at position " ++ toString position ++ ": Invalid token: '" ++ lexeme ++ "'"
  | unexpectedToken line wanted found =>
    "Unexpected token at line " ++ toString line ++ ": expected " ++ wanted.text ++ ", found "
      ++ found.text
  | unexpectedEnd wanted => "Unexpected end of input: " ++ wanted.atEnd
  | unmatchedBrace line => "Unmatched '\x7d' at line " ++ toString line
  | invalidTarget line target =>
    "Invalid target '" ++ target ++ "' at line " ++ toString line
  | circuit error => "Circuit error: " ++ error.message

end CircuitFrames.Text
