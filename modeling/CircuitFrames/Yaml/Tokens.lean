import CircuitFrames.Yaml.Token

/-!
# The tokens of a YAML text

`tokens?` cuts a text into tokens. Outside brackets the structure follows from indentation: a
collection opens where a key or dash stands further in than the collection around it, and closes
where something stands further out. A key is known as such only by the colon behind it, so the
scanner keeps the last place where one may have started; the colon puts the token of the key in
front of it after the fact.
-/

namespace CircuitFrames.Yaml

/-- A place where a key may have started. -/
structure PossibleKey where
  /-- How many tokens are in front of it. -/
  position : Nat
  /-- Whether nothing but a key can stand there. -/
  required : Bool
  index : Nat
  line : Nat
  column : Nat
deriving DecidableEq, Repr

/-- How many octets may lie between the start of a key and its colon. -/
def keyLimit : Nat := 1024

/-- Whether a key that started at a place can still end here: on the same line, and not too far
off. -/
def PossibleKey.isAlive (k : PossibleKey) (c : Cursor) : Bool :=
  c.line ≤ k.line && c.index ≤ k.index + keyLimit

/-- The state of scanning. -/
structure Scanner where
  cursor : Cursor
  /-- The tokens so far. -/
  tokens : Array Token
  /-- The column of the innermost collection outside brackets, less than zero if there is none. -/
  indent : Int
  /-- The columns of the collections around it, the innermost first. -/
  outer : List Int
  /-- Where a key may have started between the innermost brackets. -/
  possibleKey : Option PossibleKey
  /-- The same for every pair of brackets around, the innermost first. -/
  outerKeys : List (Option PossibleKey)
  /-- Whether a key may start at the next token. -/
  keyAllowed : Bool
deriving DecidableEq, Repr

namespace Scanner

/-- The state at the start of a text. -/
def start (cs : List Char) : Scanner :=
  ⟨.start cs, #[], -1, [], none, [], true⟩

/-- Whether the scanner is between brackets. -/
def inFlow (s : Scanner) : Bool :=
  !s.outerKeys.isEmpty

/-- One more token. -/
def push (s : Scanner) (t : Token) : Scanner :=
  { s with tokens := s.tokens.push t }

/-- The state at another place. -/
def moveTo (s : Scanner) (c : Cursor) : Scanner :=
  { s with cursor := c }

/-- The state behind a number of characters. -/
def advance (s : Scanner) (count : Nat) : Scanner :=
  s.moveTo (s.cursor.advance count)

/-- The state in which a key may or may not start. -/
def allowKey (s : Scanner) (allowed : Bool) : Scanner :=
  { s with keyAllowed := allowed }

/-- A token put behind the first `position` tokens. -/
def insert (s : Scanner) (position : Nat) (t : Token) : Scanner :=
  { s with tokens := s.tokens.insertIdxIfInBounds position t }

/-! ## Between tokens -/

/-- Passes blanks, comments and line breaks. A tab is a blank where no key can start. A byte order
mark may start a line. -/
def skipSpace : Nat → Scanner → Scanner
  | 0, s => s
  | rounds + 1, s =>
    let c := s.cursor
    let c := if c.column = 0 ∧ c.head? = some byteOrderMark then c.advance 1 else c
    let c := c.skip fun d => d == ' ' || (s.inFlow || !s.keyAllowed) && d == '\t'
    let c := if c.head? = some '#' then c.skip (!isBreak ·) else c
    if c.atBreak then
      skipSpace rounds { s with cursor := c.nextLine, keyAllowed := s.keyAllowed || !s.inFlow }
    else s.moveTo c

/-- Gives up a key that cannot end here any more, which fails if there has to be one. -/
def expire? (c : Cursor) : Option PossibleKey → Option (Option PossibleKey)
  | none => some none
  | some k =>
    if k.isAlive c then some (some k)
    else if k.required then none
    else some none

/-- Gives up all keys that cannot end here any more. -/
def expireAll? (s : Scanner) : Option Scanner := do
  let key ← expire? s.cursor s.possibleKey
  let outer ← s.outerKeys.mapM (expire? s.cursor)
  some { s with possibleKey := key, outerKeys := outer }

/-- Closes the collections whose column lies behind the given one. -/
def closeBehind (column indent : Int) (outer : List Int) (tokens : Array Token) :
    Int × List Int × Array Token :=
  match outer with
  | [] => (indent, [], tokens)
  | next :: rest =>
    if column < indent then closeBehind column next rest (tokens.push .blockEnd)
    else (indent, next :: rest, tokens)

/-- Closes the collections that something at a column is outside of. -/
def unroll (s : Scanner) (column : Int) : Scanner :=
  if s.inFlow then s
  else
    let (indent, outer, tokens) := closeBehind column s.indent s.outer s.tokens
    { s with indent := indent, outer := outer, tokens := tokens }

/-- Opens a collection behind the first `position` tokens if its column lies further in than that of
the collection around it. -/
def roll (s : Scanner) (column position : Nat) (opening : Token) : Scanner :=
  if s.inFlow ∨ (column : Int) ≤ s.indent then s
  else { s.insert position opening with indent := column, outer := s.indent :: s.outer }

/-! ## Keys -/

/-- Gives up the possible key, which fails if there has to be one. -/
def dropKey? (s : Scanner) : Option Scanner :=
  match s.possibleKey with
  | some k => if k.required then none else some { s with possibleKey := none }
  | none => some s

/-- Keeps the next token as a possible key, if one may start here. -/
def saveKey? (s : Scanner) : Option Scanner :=
  if s.keyAllowed then do
    let s ← s.dropKey?
    let c := s.cursor
    let required := !s.inFlow && s.indent == (c.column : Int)
    some { s with possibleKey := some ⟨s.tokens.size, required, c.index, c.line, c.column⟩ }
  else some s

/-! ## Tokens -/

/-- A token of one character that may not be part of a key. -/
def structural? (s : Scanner) (t : Token) (keyAllowed : Bool) : Option Scanner := do
  let s ← s.dropKey?
  some (((s.push t).advance 1).allowKey keyAllowed)

/-- An opening bracket. -/
def openFlow? (s : Scanner) (t : Token) : Option Scanner := do
  let s ← s.saveKey?
  let s := { s with possibleKey := none, outerKeys := s.possibleKey :: s.outerKeys }
  some (((s.push t).advance 1).allowKey true)

/-- A closing bracket. -/
def closeFlow? (s : Scanner) (t : Token) : Option Scanner := do
  let s ← s.structural? t false
  match s.outerKeys with
  | [] => some s
  | key :: rest => some { s with possibleKey := key, outerKeys := rest }

/-- The dash before an item. -/
def blockEntry? (s : Scanner) : Option Scanner :=
  if s.inFlow then s.structural? .blockEntry true
  else if s.keyAllowed then
    (s.roll s.cursor.column s.tokens.size .blockSequenceStart).structural? .blockEntry true
  else none

/-- The question mark before a key. -/
def keyMark? (s : Scanner) : Option Scanner :=
  if s.inFlow then s.structural? .key false
  else if s.keyAllowed then
    (s.roll s.cursor.column s.tokens.size .blockMappingStart).structural? .key true
  else none

/-- The colon before a value. What stands before it becomes a key, if it may be one. -/
def valueMark? (s : Scanner) : Option Scanner :=
  let close (s : Scanner) (keyAllowed : Bool) : Scanner :=
    ((s.push .value).advance 1).allowKey keyAllowed
  match s.possibleKey with
  | some k =>
    let s := (s.insert k.position .key).roll k.column k.position .blockMappingStart
    some (close { s with possibleKey := none } false)
  | none =>
    if s.inFlow then some (close s false)
    else if s.keyAllowed then
      some (close (s.roll s.cursor.column s.tokens.size .blockMappingStart) true)
    else none

/-- A token that may start a key, of which no other key can be part. -/
def keyPart? (s : Scanner) (read : Cursor → Option (Token × Cursor)) : Option Scanner := do
  let s ← s.saveKey?
  let (t, next) ← read s.cursor
  some (((s.push t).moveTo next).allowKey false)

/-- A plain scalar. If a line ends behind it, a key may start there. -/
def plain? (s : Scanner) : Option Scanner := do
  let s ← s.saveKey?
  let scan ← Yaml.plain? s.inFlow (s.indent + 1).toNat s.cursor
  some (((s.push (.scalar .plain scan.text)).moveTo scan.next).allowKey scan.broken)

/-- A block scalar, behind which a key may start. -/
def block? (s : Scanner) (style : Style) : Option Scanner := do
  let s ← s.dropKey?
  let (text, next) ← Yaml.block? (style == .folded) s.indent s.cursor
  some (((s.push (.scalar style text)).moveTo next).allowKey true)

/-- A token that stands between documents and closes all collections outside brackets. -/
def documentMark? (s : Scanner) (read : Cursor → Option (Token × Cursor)) : Option Scanner := do
  let s ← (s.unroll (-1)).dropKey?
  let (t, next) ← read s.cursor
  some (((s.push t).moveTo next).allowKey false)

/-- Whether a plain scalar can start here: not with a blank or an indicator. A dash may start one
unless a blank follows, outside brackets a question mark or colon too. -/
def startsPlain (flow : Bool) : List Char → Bool
  | [] => false
  | '-' :: rest => !rest.head?.any isBlank
  | c :: rest =>
    if c == '?' || c == ':' then !flow && !endsWord rest
    else !isSpace c && !isFlowIndicator c && !"#&*!|>'\"%@\x60".toList.contains c

/-- The next token, which starts with `c`. -/
def token? (s : Scanner) (c : Char) (rest : List Char) : Option Scanner :=
  if s.cursor.column = 0 ∧ c = '%' then s.documentMark? directive?
  else if s.cursor.atMark '-' then s.documentMark? fun c => some (.documentStart, c.advance 3)
  else if s.cursor.atMark '.' then s.documentMark? fun c => some (.documentEnd, c.advance 3)
  else if c = '[' then s.openFlow? .flowSequenceStart
  else if c = '{' then s.openFlow? .flowMappingStart
  else if c = ']' then s.closeFlow? .flowSequenceEnd
  else if c = '}' then s.closeFlow? .flowMappingEnd
  else if c = ',' then s.structural? .flowEntry true
  else if c = '-' ∧ endsWord rest then s.blockEntry?
  else if c = '?' ∧ (s.inFlow ∨ endsWord rest) then s.keyMark?
  else if c = ':' ∧ (s.inFlow ∨ endsWord rest) then s.valueMark?
  else if c = '*' then
    s.keyPart? fun c => (name? c).map fun (name, next) => (.alias name, next)
  else if c = '&' then
    s.keyPart? fun c => (name? c).map fun (name, next) => (.anchor name, next)
  else if c = '!' then s.keyPart? (tag? s.inFlow)
  else if c = '|' ∧ !s.inFlow then s.block? .literal
  else if c = '>' ∧ !s.inFlow then s.block? .folded
  else if c = '\'' then
    s.keyPart? fun c => (quoted? '\'' c).map fun (text, next) => (.scalar .singleQuoted text, next)
  else if c = '"' then
    s.keyPart? fun c => (quoted? '"' c).map fun (text, next) => (.scalar .doubleQuoted text, next)
  else if startsPlain s.inFlow (c :: rest) then s.plain?
  else none

/-- The state right before the next token or the end. -/
def settle? (s : Scanner) : Option Scanner := do
  let s ← (s.skipSpace (s.cursor.left + 1)).expireAll?
  some (s.unroll s.cursor.column)

/-- The tokens of a text that ends here. -/
def close? (s : Scanner) : Option (List Token) := do
  let s ← (s.unroll (-1)).dropKey?
  some s.tokens.toList

/-- Scans up to the end of the text. Every token takes at least one character, so as many rounds as
there are characters are enough. -/
def finish? : Nat → Scanner → Option (List Token)
  | 0, s => do
    let s ← s.settle?
    if s.cursor.rest.isEmpty then s.close? else none
  | rounds + 1, s => do
    let s ← s.settle?
    match s.cursor.rest with
    | [] => s.close?
    | c :: rest => do
      let s ← s.token? c rest
      finish? rounds s

end Scanner

/-- The tokens of a text. -/
def tokens? (text : String) : Option (List Token) :=
  let cs := text.toList
  if cs.all isPrintable then (Scanner.start cs).finish? cs.length else none

end CircuitFrames.Yaml
