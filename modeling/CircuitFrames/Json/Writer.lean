import CircuitFrames.Json.Number

/-!
# Writing JSON

Compact text: no space between tokens, and in strings only what has to be escaped.
-/

namespace CircuitFrames.Json

/-- The characters that stand for one character of a string. -/
def escapeChar (c : Char) : List Char :=
  match c with
  | '"' => ['\\', '"']
  | '\\' => ['\\', '\\']
  | '\x08' => ['\\', 'b']
  | '\x0c' => ['\\', 'f']
  | '\n' => ['\\', 'n']
  | '\r' => ['\\', 'r']
  | '\t' => ['\\', 't']
  | c =>
    if c.toNat < 0x20 then
      ['\\', 'u', '0', '0', Nat.digitChar (c.toNat / 16), Nat.digitChar (c.toNat % 16)]
    else [c]

/-- The text of a string. -/
def stringText (s : String) : String :=
  .ofList ('"' :: (s.toList.flatMap escapeChar ++ ['"']))

/-- The text of a list of written values. -/
def arrayText (items : List String) : String :=
  "[" ++ ",".intercalate items ++ "]"

/-- The text of an object of written values. -/
def objectText (members : List (String × String)) : String :=
  "\x7b" ++ ",".intercalate (members.map fun (key, text) => stringText key ++ ":" ++ text) ++ "\x7d"

/-- The text of a truth value. -/
def boolText (b : Bool) : String :=
  if b then "true" else "false"

end CircuitFrames.Json
