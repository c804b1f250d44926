/-!
# Targets of an operation

A target names a qubit, a qubit in a Pauli basis, an earlier measurement by how far back it lies, or
joins its two neighbours into one Pauli product. The written forms are `5`, `!5`, `X5`, `!X5`,
`rec[-2]` and `*`.
-/

namespace CircuitFrames

/-! ## Pauli bases -/

/-- A single-qubit Pauli basis. -/
inductive Pauli
  | x
  | y
  | z
deriving DecidableEq, Repr

namespace Pauli

/-- The three bases in order. -/
def all : List Pauli := [x, y, z]

/-- The letter that names the basis. -/
def letter : Pauli → Char
  | x => 'X'
  | y => 'Y'
  | z => 'Z'

/-- The place of the basis in the order `X`, `Y`, `Z`. -/
def index : Pauli → Nat
  | x => 0
  | y => 1
  | z => 2

/-- The basis named by a letter of either case. -/
def ofLetter? : Char → Option Pauli
  | 'X' | 'x' => some x
  | 'Y' | 'y' => some y
  | 'Z' | 'z' => some z
  | _ => none

@[simp] theorem ofLetter?_letter (p : Pauli) : ofLetter? p.letter = some p := by
  cases p <;> rfl

end Pauli

/-! ## Targets -/

/-- A qubit is known by its number. -/
abbrev Qubit := UInt32

/-- One target of an operation. -/
inductive Target
  /-- A plain qubit, perhaps with its measurement result inverted. -/
  | qubit (qubit : Qubit) (inverted : Bool)
  /-- A qubit in a Pauli basis: a term of a product or of a correlated error. -/
  | pauli (basis : Pauli) (qubit : Qubit) (inverted : Bool)
  /-- A lookback into the measurement record; a negative offset counts from its end. -/
  | record (offset : Int32)
  /-- Joins the neighbouring Pauli targets into one product. -/
  | combiner
deriving DecidableEq, Repr

namespace Target

/-- The same target with its result inverted. Records and combiners have no result to invert. -/
def inverted : Target → Target
  | .qubit q _ => .qubit q true
  | .pauli p q _ => .pauli p q true
  | t => t

/-- The qubit that a plain or Pauli target touches. -/
def touched? : Target → Option Qubit
  | .qubit q _ | .pauli _ q _ => some q
  | .record _ | .combiner => none

/-- The basis of a Pauli target. -/
def basis? : Target → Option Pauli
  | .pauli p _ _ => some p
  | _ => none

/-- The offset of a record target. -/
def offset? : Target → Option Int32
  | .record k => some k
  | _ => none

/-- Whether the target is a plain qubit. -/
def isQubit : Target → Bool
  | .qubit _ _ => true
  | _ => false

/-- Whether the target is a record lookback. -/
def isRecord : Target → Bool
  | .record _ => true
  | _ => false

/-- Whether the target is a combiner. -/
def isCombiner : Target → Bool
  | .combiner => true
  | _ => false

/-- The word for the sort of target, as it stands in error messages. -/
def sort : Target → String
  | .qubit _ _ => "qubit"
  | .pauli _ _ _ => "pauli"
  | .record _ => "record"
  | .combiner => "combiner"

/-- The mark of an inverted result. -/
def bang (inverted : Bool) : String :=
  if inverted then "!" else ""

/-- The written form. -/
def text : Target → String
  | .qubit q inverted => bang inverted ++ toString q.toNat
  | .pauli p q inverted => bang inverted ++ p.letter.toString ++ toString q.toNat
  | .record k => "rec[" ++ toString k.toInt ++ "]"
  | .combiner => "*"

end Target

end CircuitFrames
