import CircuitFrames.Circuit.Builder
import CircuitFrames.Text.Lexer

/-!
# Reading circuits

`parse` reads a circuit off its text: an instruction a line, and blocks in braces behind
`REPEAT` and a count. The readers of the parts of an instruction take the number of the line on
which they work and return the tokens they leave; none of them takes a line break, so the line
changes between instructions only. An instruction ends before a line break, before a closing brace
or at the end of the text.

A token that cannot be used is reported on its line; for a line break that is the line it opens.
-/

namespace CircuitFrames.Text

/-- The fault of finding a token where another was wanted. -/
def unexpected (line : Nat) (wanted : Wanted) (found : Token) : ParseError :=
  .unexpectedToken (if found = .newline then line + 1 else line) wanted found

/-- Takes one particular token. -/
def expect (line : Nat) (wanted : Token) : List Token → Except ParseError (List Token)
  | [] => .error (.unexpectedEnd (.token wanted))
  | t :: rest => if t = wanted then .ok rest else .error (unexpected line (.token wanted) t)

/-- Takes a number without point and exponent. -/
def integer (line : Nat) : List Token → Except ParseError (UInt64 × List Token)
  | .integer n :: rest => .ok (n, rest)
  | t :: _ => .error (unexpected line .integer t)
  | [] => .error (.unexpectedEnd .integer)

/-! ## Arguments -/

/-- Takes an unsigned number. -/
def unsigned (line : Nat) : List Token → Except ParseError (Float × List Token)
  | .decimal v :: rest => .ok (v, rest)
  | .integer n :: rest => .ok (Numeral.Decimal.toFloat ⟨n.toNat, 0⟩, rest)
  | t :: _ => .error (unexpected line .number t)
  | [] => .error (.unexpectedEnd .number)

/-- Takes a number with an optional minus. -/
def signed (line : Nat) : List Token → Except ParseError (Float × List Token)
  | .minus :: rest =>
    match unsigned line rest with
    | .ok (v, rest) => .ok (-v, rest)
    | .error e => .error e
  | ts => unsigned line ts

theorem unsigned_length {line : Nat} {ts rest : List Token} {v : Float}
    (h : unsigned line ts = .ok (v, rest)) : rest.length < ts.length := by
  unfold unsigned at h
  grind

theorem signed_length {line : Nat} {ts rest : List Token} {v : Float}
    (h : signed line ts = .ok (v, rest)) : rest.length < ts.length := by
  unfold signed at h
  split at h
  · split at h
    · have := unsigned_length ‹_›
      grind
    · grind
  · exact unsigned_length h

/-- Takes numbers with commas between them and the closing bracket after them. -/
def numbers (line : Nat) (ts : List Token) : Except ParseError (List Float × List Token) :=
  match _h : signed line ts with
  | .error e => .error e
  | .ok (v, .rightParen :: rest) => .ok ([v], rest)
  | .ok (v, .comma :: rest) =>
    match numbers line rest with
    | .ok (vs, rest) => .ok (v :: vs, rest)
    | .error e => .error e
  | .ok (_, t :: _) => .error (unexpected line (.token .comma) t)
  | .ok (_, []) => .error (.unexpectedEnd (.token .comma))
termination_by ts.length
decreasing_by
  have := signed_length _h
  simp only [List.length_cons] at this; omega

/-- Takes the arguments after a name: numbers in brackets, or nothing. -/
def arguments (line : Nat) : List Token → Except ParseError (List Float × List Token)
  | .leftParen :: .rightParen :: rest => .ok ([], rest)
  | .leftParen :: rest => numbers line rest
  | ts => .ok ([], ts)

/-! ## Targets -/

/-- The qubit of a number. -/
def qubitOf (line : Nat) (n : Nat) : Except ParseError Qubit :=
  if n < UInt32.size then .ok (.ofNat n) else .error (.invalidTarget line (toString n))

/-- The qubit target of a number. -/
def numberOf (line : Nat) (n : UInt64) : Except ParseError Target :=
  match qubitOf line n.toNat with
  | .ok q => .ok (.qubit q false)
  | .error e => .error e

/-- The Pauli target that a word spells: a letter of the basis, then the number of the qubit. -/
def pauliOf (line : Nat) (word : String) : Except ParseError Target :=
  match word.toList with
  | [] => .error (.invalidTarget line word)
  | letter :: digits =>
    match Pauli.ofLetter? letter with
    | none => .error (.invalidTarget line word)
    | some basis =>
      let value := Numeral.digitValue digits
      if digits ≠ [] ∧ digits.all Char.isDigit ∧ value < UInt64.size then
        match qubitOf line value with
        | .ok q => .ok (.pauli basis q false)
        | .error e => .error e
      else .error (.invalidTarget line word)

/-- The record target of a lookback with the given sign and magnitude. -/
def recordOf (line : Nat) (negative : Bool) (magnitude : Nat) : Except ParseError Target :=
  if magnitude ≤ Int64.maxValue.toInt then
    match Target.lookback (if negative then -(magnitude : Int) else magnitude) with
    | .ok t => .ok t
    | .error e => .error (.circuit e)
  else .error (.invalidTarget line ("rec[" ++ toString magnitude ++ "]"))

/-- Takes the bracketed lookback after the word `rec`. -/
def record (line : Nat) (ts : List Token) : Except ParseError (Target × List Token) := do
  let ts ← expect line .leftBracket ts
  let (negative, ts) :=
    match ts with
    | .minus :: ts => (true, ts)
    | ts => (false, ts)
  let (magnitude, ts) ← integer line ts
  let ts ← expect line .rightBracket ts
  let t ← recordOf line negative magnitude.toNat
  return (t, ts)

/-- Takes one target that starts with the given token and is not inverted. -/
def uprightTarget (line : Nat) (first : Token) (rest : List Token) :
    Except ParseError (Target × List Token) :=
  match first with
  | .integer n =>
    match numberOf line n with
    | .ok t => .ok (t, rest)
    | .error e => .error e
  | .star => .ok (.combiner, rest)
  | .word w =>
    if w = "rec" then record line rest
    else
      match pauliOf line w with
      | .ok t => .ok (t, rest)
      | .error e => .error e
  | .newline | .decimal _ | .minus | .bang | .leftParen | .rightParen | .leftBracket
  | .rightBracket | .leftBrace | .rightBrace | .comma => .error (unexpected line .target first)

/-- Takes one target. -/
def target (line : Nat) : List Token → Except ParseError (Target × List Token)
  | .bang :: rest =>
    match target line rest with
    | .error e => .error e
    | .ok (t, rest) =>
      match t with
      | .qubit _ _ | .pauli _ _ _ => .ok (t.inverted, rest)
      | .record _ | .combiner => .error (.invalidTarget line ("!" ++ t.text))
  | t :: rest => uprightTarget line t rest
  | [] => .error (.unexpectedEnd .target)

theorem expect_length {line : Nat} {wanted : Token} {ts rest : List Token}
    (h : expect line wanted ts = .ok rest) : rest.length < ts.length := by
  unfold expect at h
  grind

theorem integer_length {line : Nat} {ts rest : List Token} {n : UInt64}
    (h : integer line ts = .ok (n, rest)) : rest.length < ts.length := by
  unfold integer at h
  grind

theorem record_length {line : Nat} {ts rest : List Token} {t : Target}
    (h : record line ts = .ok (t, rest)) : rest.length < ts.length := by
  simp only [record, bind, Except.bind, pure, Except.pure] at h
  split at h
  · cases h
  next ts' h1 =>
    have l1 := expect_length h1
    split at h
    · cases h
    next _ m h2 =>
      have l2 := integer_length h2
      split at h
      · cases h
      next _ ts'' h3 =>
        have l3 := expect_length h3
        split at h
        · cases h
        · cases h
          grind

theorem uprightTarget_length {line : Nat} {first : Token} {ts rest : List Token} {t : Target}
    (h : uprightTarget line first ts = .ok (t, rest)) : rest.length ≤ ts.length := by
  unfold uprightTarget at h
  split at h
  · split at h <;> cases h
    exact Nat.le_refl _
  · cases h
    exact Nat.le_refl _
  · split at h
    · exact Nat.le_of_lt (record_length h)
    · split at h <;> cases h
      exact Nat.le_refl _
  all_goals cases h

theorem target_length {line : Nat} {ts rest : List Token} {t : Target}
    (h : target line ts = .ok (t, rest)) : rest.length < ts.length := by
  induction ts generalizing t rest with
  | nil => cases h
  | cons first ts ih =>
    unfold target at h
    split at h
    next heq =>
      cases heq
      split at h
      · cases h
      next h' =>
        split at h <;> cases h <;> exact Nat.lt_succ_of_lt (ih h')
    next heq =>
      cases heq
      exact Nat.lt_succ_of_le (uprightTarget_length h)
    next heq => cases heq

/-- Whether an instruction ends before these tokens. -/
def atLineEnd : List Token → Bool
  | [] | .newline :: _ | .rightBrace :: _ => true
  | _ => false

/-- Takes targets up to the end of the instruction. -/
def targets (line : Nat) (ts : List Token) : Except ParseError (List Target × List Token) :=
  if atLineEnd ts then .ok ([], ts)
  else
    match _h : target line ts with
    | .error e => .error e
    | .ok (t, rest) =>
      match targets line rest with
      | .ok (more, rest) => .ok (t :: more, rest)
      | .error e => .error e
termination_by ts.length
decreasing_by exact target_length _h

/-! ## Instructions -/

/-- What stands at the start of a line. -/
inductive Instruction
  /-- A whole operation. -/
  | operation (op : Operation)
  /-- The opening of a block that runs `count` times. -/
  | opening (count : UInt64)
deriving DecidableEq

/-- Takes an operation or the opening of a block. -/
def instruction (line : Nat) : List Token → Except ParseError (Instruction × List Token)
  | .word name :: rest =>
    if name = "REPEAT" then do
      let (count, rest) ← integer line rest
      let rest ← expect line .leftBrace rest
      return (.opening count, rest)
    else do
      let (args, rest) ← arguments line rest
      let (ts, rest) ← targets line rest
      return (.operation (.named name ts args), rest)
  | t :: _ => .error (unexpected line .instructionName t)
  | [] => .error (.unexpectedEnd .instructionName)

theorem numbers_length {line : Nat} {ts rest : List Token} {vs : List Float}
    (h : numbers line ts = .ok (vs, rest)) : rest.length < ts.length := by
  fun_induction numbers line ts generalizing vs rest with
  | case1 => cases h
  | case2 _ _ _ h' => cases h; have := signed_length h'; grind
  | case3 _ _ _ h' _ _ h'' ih => cases h; have := signed_length h'; have := ih h''; grind
  | case4 => cases h
  | case5 => cases h
  | case6 => cases h

theorem arguments_length {line : Nat} {ts rest : List Token} {vs : List Float}
    (h : arguments line ts = .ok (vs, rest)) : rest.length ≤ ts.length := by
  unfold arguments at h
  split at h
  · cases h; simp; omega
  · have := numbers_length h; grind
  · cases h; exact Nat.le_refl _

theorem targets_length {line : Nat} {ts rest : List Token} {found : List Target}
    (h : targets line ts = .ok (found, rest)) : rest.length ≤ ts.length := by
  fun_induction targets line ts generalizing found rest with
  | case1 => cases h; exact Nat.le_refl _
  | case2 => cases h
  | case3 _ _ _ _ h' _ _ h'' ih => cases h; have := target_length h'; have := ih h''; omega
  | case4 => cases h

theorem instruction_length {line : Nat} {ts rest : List Token} {i : Instruction}
    (h : instruction line ts = .ok (i, rest)) : rest.length < ts.length := by
  unfold instruction at h
  split at h
  · split at h
    · simp only [bind, Except.bind, pure, Except.pure] at h
      split at h
      · cases h
      next h1 =>
        split at h
        · cases h
        next h2 =>
          cases h
          have := integer_length h1
          have := expect_length h2
          grind
    · simp only [bind, Except.bind, pure, Except.pure] at h
      split at h
      · cases h
      next h1 =>
        split at h
        · cases h
        next h2 =>
          cases h
          have := arguments_length h1
          have := targets_length h2
          grind
  · cases h
  · cases h

/-! ## Blocks -/

/-- A circuit read off the front of the tokens `ts`, and the line and the tokens at which reading
stopped. -/
structure Block (ts : List Token) where
  circuit : Circuit
  line : Nat
  rest : List Token
  rest_le : rest.length ≤ ts.length

/-- Takes instructions up to the end of the text, or in a nested block up to and with the brace that
closes it. -/
def block (nested : Bool) (line : Nat) (ts : List Token) : Except ParseError (Block ts) :=
  match hts : ts with
  | [] =>
    if nested then .error (.unexpectedEnd .blockEnd) else .ok ⟨.nil, line, [], Nat.le_refl _⟩
  | .rightBrace :: rest =>
    if nested then .ok ⟨.nil, line, rest, by simp⟩ else .error (.unmatchedBrace line)
  | .newline :: rest =>
    match block nested (line + 1) rest with
    | .ok b => .ok ⟨b.circuit, b.line, b.rest, by have := b.rest_le; simp; omega⟩
    | .error e => .error e
  | _ =>
    match h : instruction line ts with
    | .error e => .error e
    | .ok (.operation op, rest) =>
      match block nested line rest with
      | .ok b =>
        .ok ⟨.op op b.circuit, b.line, b.rest, by
          have := instruction_length h; have := b.rest_le; simp_all; omega⟩
      | .error e => .error e
    | .ok (.opening count, rest) =>
      match block true line rest with
      | .error e => .error e
      | .ok body =>
        if count = 0 then .error (.circuit (.invalidArguments "REPEAT" .zeroRepeat))
        else
          match block nested body.line body.rest with
          | .ok b =>
            .ok ⟨.repeated count body.circuit b.circuit, b.line, b.rest, by
              have := instruction_length h; have := body.rest_le; have := b.rest_le
              simp_all; omega⟩
          | .error e => .error e
termination_by ts.length
decreasing_by
  · simp
  · have := instruction_length h; simp_all
  · have := instruction_length h; simp_all
  · have := instruction_length h; have := body.rest_le; simp_all; omega

/-- The circuit that a list of tokens spells. -/
def parseTokens (ts : List Token) : Except ParseError Circuit :=
  (block false 1 ts).map Block.circuit

/-- Reads a circuit off its text. The whole text is cut into tokens first, so a fault there is
reported before any other. -/
def parse (source : String) : Except ParseError Circuit :=
  match tokenize source with
  | .ok ts => parseTokens ts
  | .error e => .error e

end CircuitFrames.Text
