import CircuitFrames.Yaml.Cursor

/-!
# Scalars of a YAML text

The five ways to write a scalar. Plain and quoted scalars may go on over several lines, whose breaks
are folded: one break is a space, each further one a line feed. The two block styles take whole
lines by their indentation.
-/

namespace CircuitFrames.Yaml

/-- How a scalar is written. -/
inductive Style
  /-- Without quotes. -/
  | plain
  | singleQuoted
  | doubleQuoted
  /-- As a block of lines that keeps its line breaks. -/
  | literal
  /-- As a block of lines whose line breaks are folded. -/
  | folded
deriving DecidableEq, Repr

/-! ## Gaps between words -/

/-- The blanks and line breaks between two words. -/
structure Gap where
  /-- The blanks, if there is no break among them. -/
  blanks : List Char
  /-- Whether a line ends in the gap. -/
  broken : Bool
  /-- What the first break stands for. -/
  first : List Char
  /-- What the further breaks stand for. -/
  more : List Char
deriving DecidableEq, Repr

namespace Gap

/-- No gap. -/
def empty : Gap := ⟨[], false, [], []⟩

/-- What a gap stands for: its blanks, or its folded breaks. -/
def text (g : Gap) : List Char :=
  if !g.broken then g.blanks
  else if g.first = ['\n'] then if g.more.isEmpty then [' '] else g.more
  else g.first ++ g.more

/-- Takes the blanks and breaks that come next at the start of a line, and says what the breaks stand
for. The blanks do not count, but no tab may stand before the column `least`. -/
def further? (least : Nat) : Nat → Cursor → Option (List Char × Cursor)
  | 0, c => some ([], c)
  | rounds + 1, c =>
    let blanks := c.run isBlank
    let next := c.advance blanks.length
    if (blanks.take (least - c.column)).contains '\t' then none
    else if next.atBreak then do
      let (more, last) ← further? least rounds next.nextLine
      some (next.breakText ++ more, last)
    else some ([], next)

/-- Takes the gap that comes next. In a joined one a line has ended already. Blanks before a break do
not count. -/
def take? (least : Nat) (isJoined : Bool) (c : Cursor) : Option (Gap × Cursor) :=
  let blanks := c.run isBlank
  let next := c.advance blanks.length
  if isJoined then do
    let (more, last) ← further? least (c.left + 1) c
    some (⟨[], true, [], more⟩, last)
  else if next.atBreak then do
    let (more, last) ← further? least (next.left + 1) next.nextLine
    some (⟨[], true, next.breakText, more⟩, last)
  else some (⟨blanks, false, [], []⟩, next)

end Gap

/-! ## Plain scalars -/

/-- The characters of a plain scalar up to the next blank or break. It ends before a colon with a
blank behind it, and within brackets before a bracket or a comma; there a colon right before one of
these or a question mark is refused. -/
def plainRun? (flow : Bool) : List Char → Option (List Char)
  | [] => some []
  | c :: rest =>
    if isSpace c then some []
    else if c = ':' then
      if flow ∧ rest.head?.any fun d => isFlowIndicator d || d == '?' then none
      else if endsWord rest then some []
      else (plainRun? flow rest).map (c :: ·)
    else if flow ∧ isFlowIndicator c then some []
    else (plainRun? flow rest).map (c :: ·)

/-- A scanned plain scalar. -/
structure PlainScan where
  text : List Char
  /-- Whether a line ends behind the scalar. -/
  broken : Bool
  next : Cursor
deriving DecidableEq, Repr

/-- Goes on with a plain scalar behind a gap. Outside brackets its further lines start at the column
`least` or later. -/
def plainFrom? (flow : Bool) (least : Nat) : Nat → Gap → Cursor → Option PlainScan
  | 0, _, _ => none
  | rounds + 1, g, c =>
    if c.atDocumentMark ∨ c.head? = some '#' then some ⟨[], g.broken, c⟩
    else do
      let run ← plainRun? flow c.rest
      let text := if run.isEmpty then [] else g.text ++ run
      let behind := c.advance run.length
      if !behind.head?.any isSpace then some ⟨text, run.isEmpty && g.broken, behind⟩
      else do
        let (g, next) ← Gap.take? least false behind
        if !flow ∧ next.column < least then some ⟨text, g.broken, next⟩
        else do
          let more ← plainFrom? flow least rounds g next
          some { more with text := text ++ more.text }

/-- The plain scalar that starts here. -/
def plain? (flow : Bool) (least : Nat) (c : Cursor) : Option PlainScan :=
  plainFrom? flow least (c.left + 1) .empty c

/-! ## Quoted scalars -/

/-- The character of a one-letter escape. -/
def escaped? : Char → Option Char
  | '0' => some '\x00'
  | 'a' => some '\x07'
  | 'b' => some '\x08'
  | 't' | '\t' => some '\t'
  | 'n' => some '\n'
  | 'v' => some '\x0b'
  | 'f' => some '\x0c'
  | 'r' => some '\r'
  | 'e' => some '\x1b'
  | ' ' => some ' '
  | '"' => some '"'
  | '/' => some '/'
  | '\\' => some '\\'
  | 'N' => some '\u0085'
  | '_' => some '\u00a0'
  | 'L' => some '\u2028'
  | 'P' => some '\u2029'
  | _ => none

/-- How many hexadecimal digits an escape takes. -/
def escapeDigits? : Char → Option Nat
  | 'x' => some 2
  | 'u' => some 4
  | 'U' => some 8
  | _ => none

/-- The value of a digit up to base sixteen. -/
def digit? (c : Char) : Option Nat :=
  if c.isDigit then some (c.toNat - '0'.toNat)
  else if 'a' ≤ c ∧ c ≤ 'f' then some (c.toNat - 'a'.toNat + 10)
  else if 'A' ≤ c ∧ c ≤ 'F' then some (c.toNat - 'A'.toNat + 10)
  else none

/-- The number that digits in a base denote; there has to be at least one. -/
def ofDigits? (base : Nat) (ds : List Char) : Option Nat :=
  if ds.isEmpty then none
  else ds.foldlM (fun n c => do
    let d ← digit? c
    if d < base then some (base * n + d) else none) 0

/-- What the letter of an escape and the text behind it stand for, and how much of that text it
takes. -/
def escape? (letter : Char) (rest : List Char) : Option (Char × Nat) :=
  match escapeDigits? letter with
  | none => (escaped? letter).map (·, 0)
  | some count => do
    let value ← ofDigits? 16 (rest.take count)
    if (rest.take count).length = count ∧ value.isValidChar then some (Char.ofNat value, count)
    else none

/-- A run of a quoted scalar up to the next blank, break or closing quote. -/
structure QuotedRun where
  text : List Char
  /-- Whether an escaped line break ends the run. -/
  joined : Bool
  next : Cursor
deriving DecidableEq, Repr

/-- One more character in front of a run. -/
def QuotedRun.cons (c : Char) (r : QuotedRun) : QuotedRun :=
  { r with text := c :: r.text }

/-- The run between single quotes that starts here. Two single quotes stand for one. -/
def singleRun : Nat → Cursor → QuotedRun
  | 0, c => ⟨[], false, c⟩
  | rounds + 1, c =>
    match c.rest with
    | '\'' :: '\'' :: _ => (singleRun rounds (c.advance 2)).cons '\''
    | '\'' :: _ | [] => ⟨[], false, c⟩
    | d :: _ => if isSpace d then ⟨[], false, c⟩ else (singleRun rounds (c.advance 1)).cons d

/-- The run between double quotes that starts here. A backslash starts an escape. -/
def doubleRun? : Nat → Cursor → Option QuotedRun
  | 0, c => some ⟨[], false, c⟩
  | rounds + 1, c =>
    match c.rest with
    | '"' :: _ | [] => some ⟨[], false, c⟩
    | '\\' :: e :: rest =>
      if isBreak e then some ⟨[], true, (c.advance 1).nextLine⟩
      else do
        let (d, digits) ← escape? e rest
        let more ← doubleRun? rounds (c.advance (2 + digits))
        some (more.cons d)
    | d :: _ =>
      if isSpace d then some ⟨[], false, c⟩
      else if d = '\\' then none
      else (doubleRun? rounds (c.advance 1)).map (·.cons d)

/-- The run of a scalar in the given quotes that starts here. -/
def quotedRun? (quote : Char) (c : Cursor) : Option QuotedRun :=
  if quote = '\'' then some (singleRun c.left c) else doubleRun? c.left c

/-- Goes on with a scalar up to its closing quote. No line of it may look like a mark between
documents. -/
def quotedFrom? (quote : Char) : Nat → Cursor → Option (List Char × Cursor)
  | 0, _ => none
  | rounds + 1, c =>
    if c.atDocumentMark then none
    else do
      let run ← quotedRun? quote c
      match run.next.head? with
      | none => none
      | some d =>
        if d = quote then some (run.text, run.next.advance 1)
        else do
          let (g, next) ← Gap.take? 0 run.joined run.next
          let (more, last) ← quotedFrom? quote rounds next
          some (run.text ++ g.text ++ more, last)

/-- The text between quotes, the opening one of which comes next, and the place behind them. -/
def quoted? (quote : Char) (c : Cursor) : Option (List Char × Cursor) :=
  quotedFrom? quote (c.left + 1) (c.advance 1)

/-! ## Block scalars -/

/-- What becomes of the line breaks at the end of a block. -/
inductive Chomping
  /-- None is kept. -/
  | strip
  /-- One is kept. -/
  | clip
  /-- All are kept. -/
  | keep
deriving DecidableEq, Repr

/-- The chomping that a character in the header of a block asks for. -/
def Chomping.ofChar? : Char → Option Chomping
  | '-' => some strip
  | '+' => some keep
  | _ => none

/-- Takes a chomping indicator, if one comes next. -/
def Chomping.take (c : Cursor) : Chomping × Cursor :=
  match c.head?.bind ofChar? with
  | some chomping => (chomping, c.advance 1)
  | none => (.clip, c)

/-- Takes an indentation indicator, if one comes next; zero stands for none. -/
def takeIncrement? (c : Cursor) : Option (Nat × Cursor) :=
  match c.head? with
  | some d =>
    if d = '0' then none
    else if d.isDigit then some (d.toNat - '0'.toNat, c.advance 1)
    else some (0, c)
  | none => some (0, c)

/-- The header of a block: the two indicators in either order. -/
structure BlockHeader where
  chomping : Chomping
  increment : Nat
deriving DecidableEq, Repr

/-- Takes the header of a block up to the end of its line. -/
def blockHeader? (c : Cursor) : Option (BlockHeader × Cursor) := do
  let (header, next) ←
    if (c.head?.bind Chomping.ofChar?).isSome then do
      let (chomping, next) := Chomping.take c
      let (increment, next) ← takeIncrement? next
      some (BlockHeader.mk chomping increment, next)
    else do
      let (increment, next) ← takeIncrement? c
      let (chomping, next) := if increment = 0 then (.clip, next) else Chomping.take next
      some (BlockHeader.mk chomping increment, next)
  let last := next.skipComment
  if last.atLineEnd then some (header, last.nextLine) else none

/-- The empty lines in a block, and the indentation of what follows them. -/
structure EmptyLines where
  /-- What their breaks stand for. -/
  breaks : List Char
  /-- The furthest column that the spaces of a line reach. -/
  furthest : Nat
  next : Cursor
deriving DecidableEq, Repr

/-- Takes empty lines and the indentation of the line behind them. If the indentation is not known
yet, which zero stands for, all spaces count as indentation; a tab may not stand among them. -/
def emptyLines? (indent : Nat) : Nat → Cursor → Option EmptyLines
  | 0, c => some ⟨[], c.column, c⟩
  | rounds + 1, c =>
    let spaces := (c.run (· == ' ')).length
    let taken := if indent = 0 then spaces else min spaces (indent - c.column)
    let c := c.advance taken
    if (indent = 0 ∨ c.column < indent) ∧ c.head? = some '\t' then none
    else if c.atBreak then do
      let more ← emptyLines? indent rounds c.nextLine
      some ⟨c.breakText ++ more.breaks, max c.column more.furthest, more.next⟩
    else some ⟨[], c.column, c⟩

/-- The empty lines that start here. -/
def emptyLinesAt? (indent : Nat) (c : Cursor) : Option EmptyLines :=
  emptyLines? indent (c.left + 1) c

/-- The lines of a block, and the breaks behind the last one that holds something. -/
structure BlockLines where
  text : List Char
  lastBreak : List Char
  emptyBreaks : List Char
  next : Cursor
deriving DecidableEq, Repr

/-- Takes the lines of a block at an indentation, the first of which stands behind the break
`lastBreak` and the breaks of empty lines. A break is folded between two lines that do not start
with a blank. -/
def blockLines? (fold : Bool) (indent : Nat) :
    Nat → (lastBreak emptyBreaks : List Char) → (blankBefore : Bool) → Cursor → Option BlockLines
  | 0, _, _, _, _ => none
  | rounds + 1, lastBreak, emptyBreaks, blankBefore, c =>
    if c.column ≠ indent ∨ c.rest.isEmpty then some ⟨[], lastBreak, emptyBreaks, c⟩
    else do
      let blank := c.head?.any isBlank
      let joint :=
        if fold ∧ lastBreak.head? = some '\n' ∧ !blankBefore ∧ !blank then
          if emptyBreaks.isEmpty then [' '] else []
        else lastBreak
      let line := c.run (!isBreak ·)
      let behind := c.advance line.length
      let empty ← emptyLinesAt? indent behind.nextLine
      let more ← blockLines? fold indent rounds behind.breakText empty.breaks blank empty.next
      some { more with text := joint ++ emptyBreaks ++ line ++ more.text }

/-- The text of a block whose indicator comes next, and the place behind it. `indent` is the
indentation of the collection around the block, which is less than zero outside all collections. -/
def block? (fold : Bool) (indent : Int) (c : Cursor) : Option (List Char × Cursor) := do
  let (header, next) ← blockHeader? (c.advance 1)
  let given := if header.increment = 0 then 0 else indent.toNat + header.increment
  let empty ← emptyLinesAt? given next
  let own := if given = 0 then max (max empty.furthest (indent + 1).toNat) 1 else given
  let lines ←
    blockLines? fold own (empty.next.left + 1) [] empty.breaks false empty.next
  let tail :=
    match header.chomping with
    | .strip => []
    | .clip => lines.lastBreak
    | .keep => lines.lastBreak ++ lines.emptyBreaks
  some (lines.text ++ tail, lines.next)

end CircuitFrames.Yaml
