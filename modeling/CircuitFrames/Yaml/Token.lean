import CircuitFrames.Yaml.Scalar

/-!
# Tokens of a YAML text

Names of nodes, tags and directives are read here, each as one token. A tag is kept as its handle
and the octets behind it, an octet as the character of its number.
-/

namespace CircuitFrames.Yaml

/-- A token of a YAML text. -/
inductive Token
  /-- Says to which version of the format the text keeps. -/
  | versionDirective (major minor : Nat)
  /-- Says what the handle of a tag stands for. -/
  | tagDirective (handle expansion : List Char)
  | documentStart
  | documentEnd
  | blockSequenceStart
  | blockMappingStart
  | blockEnd
  | flowSequenceStart
  | flowSequenceEnd
  | flowMappingStart
  | flowMappingEnd
  /-- The dash before an item. -/
  | blockEntry
  /-- The comma behind an item or entry. -/
  | flowEntry
  /-- Stands before a key. -/
  | key
  /-- Stands before a value. -/
  | value
  /-- Stands for the node of a name. -/
  | alias (name : List Char)
  /-- Names the node behind it. -/
  | anchor (name : List Char)
  | tag (handle suffix : List Char)
  | scalar (style : Style) (text : List Char)
deriving DecidableEq, Repr

/-! ## Names of nodes -/

/-- The characters that may stand right behind the name of a node. -/
def endsName (cs : List Char) : Bool :=
  endsWord cs || cs.head?.any (['?', ':', ',', ']', '}', '%', '@', '\x60'].contains ·)

/-- The name of a node behind its indicator, and the place behind it. -/
def name? (c : Cursor) : Option (List Char × Cursor) :=
  let next := c.advance 1
  let name := next.run isWord
  let last := next.advance name.length
  if !name.isEmpty ∧ endsName last.rest then some (name, last) else none

/-! ## Tags -/

/-- The octet of an escape in a tag, and the text behind it. -/
def octet? : List Char → Option (Nat × List Char)
  | '%' :: a :: b :: rest => do
    let high ← digit? a
    let low ← digit? b
    some (16 * high + low, rest)
  | _ => none

/-- How many octets a character takes whose first octet is given. -/
def octetCount? (first : Nat) : Option Nat :=
  if first < 0x80 then some 1
  else if first / 0x20 = 6 then some 2
  else if first / 0x10 = 14 then some 3
  else if first / 0x08 = 30 then some 4
  else none

/-- A number of further octets of a character, and the text behind them. -/
def furtherOctets? : Nat → List Char → Option (List Char × List Char)
  | 0, cs => some ([], cs)
  | count + 1, cs => do
    let (octet, rest) ← octet? cs
    if octet / 0x40 = 2 then do
      let (more, rest) ← furtherOctets? count rest
      some (Char.ofNat octet :: more, rest)
    else none

/-- The octets of an escaped character, and the text behind them. -/
def escapedOctets? (cs : List Char) : Option (List Char × List Char) := do
  let (first, rest) ← octet? cs
  let count ← octetCount? first
  let (more, rest) ← furtherOctets? (count - 1) rest
  some (Char.ofNat first :: more, rest)

/-- The characters of a tag. Some structure collections too, and stand only in a tag that is written
out. -/
def isTagChar (writtenOut : Bool) (c : Char) : Bool :=
  isWord c || ";/?:@&=+$.!~*'()".toList.contains c || writtenOut && ",[]".toList.contains c

/-- The octets of a tag up to a character that is none of it, and how many characters they take. -/
def tagText? (writtenOut : Bool) : Nat → List Char → Option (List Char × Nat)
  | 0, _ | _, [] => some ([], 0)
  | rounds + 1, c :: rest =>
    if c = '%' then do
      let (octets, rest) ← escapedOctets? (c :: rest)
      let (more, taken) ← tagText? writtenOut rounds rest
      some (octets ++ more, 3 * octets.length + taken)
    else if isTagChar writtenOut c then do
      let (more, taken) ← tagText? writtenOut rounds rest
      some (c :: more, taken + 1)
    else some ([], 0)

/-- The octets of a tag that start here, and the place behind them. -/
def tagTextAt? (writtenOut : Bool) (c : Cursor) : Option (List Char × Cursor) := do
  let (text, taken) ← tagText? writtenOut c.left c.rest
  some (text, c.advance taken)

/-- The part of a tag that counts: what stands before the first null octet. -/
def effective (text : List Char) : List Char :=
  text.takeWhile (· != '\x00')

/-- The handle at the start of a tag: an exclamation mark, or a word between two, or one with a word
behind it that belongs to the tag. -/
def handle? (c : Cursor) : Option (List Char × Cursor) :=
  if c.head? = some '!' then
    let next := c.advance 1
    let word := next.run isWord
    let last := next.advance word.length
    if last.head? = some '!' then some ('!' :: word ++ ['!'], last.advance 1)
    else some ('!' :: word, last)
  else none

/-- Whether a handle is closed by an exclamation mark of its own. -/
def isClosed (handle : List Char) : Bool :=
  2 ≤ handle.length && handle.getLast? == some '!'

/-- The tag that comes next, and the place behind it. A tag that is written out has no handle, and
neither has a lone exclamation mark. -/
def tag? (flow : Bool) (c : Cursor) : Option (Token × Cursor) := do
  let (token, last) ←
    if (c.advance 1).head? = some '<' then do
      let (text, next) ← tagTextAt? true (c.advance 2)
      if text.isEmpty ∨ next.head? ≠ some '>' then none
      else some (Token.tag [] (effective text), next.advance 1)
    else do
      let (handle, next) ← handle? c
      let (text, last) ← tagTextAt? false next
      if isClosed handle then
        if text.isEmpty then none else some (Token.tag handle (effective text), last)
      else
        let suffix := effective (handle.drop 1 ++ text)
        some (if suffix.isEmpty then Token.tag [] ['!'] else Token.tag ['!'] suffix, last)
  if endsWord last.rest ∨ flow ∧ last.head? = some ',' then some (token, last) else none

/-! ## Directives -/

/-- A number of a version, of at most nine digits, and the place behind it. -/
def versionNumber? (c : Cursor) : Option (Nat × Cursor) :=
  let digits := c.run Char.isDigit
  if digits.isEmpty ∨ 9 < digits.length then none
  else some (Nat.ofDigitChars 10 digits 0, c.advance digits.length)

/-- The version behind the name of its directive. -/
def version? (c : Cursor) : Option (Token × Cursor) := do
  let (major, next) ← versionNumber? (c.skip isBlank)
  if next.head? = some '.' then do
    let (minor, last) ← versionNumber? (next.advance 1)
    some (.versionDirective major minor, last)
  else none

/-- The handle and its expansion behind the name of their directive. -/
def tagExpansion? (c : Cursor) : Option (Token × Cursor) := do
  let (handle, next) ← handle? (c.skip isBlank)
  if (handle = ['!'] ∨ isClosed handle) ∧ next.head?.any isBlank then do
    let (expansion, last) ← tagTextAt? true (next.skip isBlank)
    if !expansion.isEmpty ∧ endsWord last.rest then
      some (.tagDirective handle (effective expansion), last)
    else none
  else none

/-- The directive whose percent sign comes next, and the place on the line behind it. -/
def directive? (c : Cursor) : Option (Token × Cursor) := do
  let next := c.advance 1
  let name := next.run isWord
  let behind := next.advance name.length
  if !endsWord behind.rest then none
  else do
    let (token, last) ←
      if name = "YAML".toList then version? behind
      else if name = "TAG".toList then tagExpansion? behind
      else none
    let rest := last.skipComment
    if rest.atLineEnd then some (token, rest.nextLine) else none

end CircuitFrames.Yaml
