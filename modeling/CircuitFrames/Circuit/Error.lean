import CircuitFrames.Circuit.Target
import CircuitFrames.Numeral.Plain

/-!
# What can be wrong with a circuit

The causes, and in `CircuitError.message` their wording.
-/

namespace CircuitFrames

/-- What an operation accepts at a target position. -/
inductive TargetShape
  /-- A plain qubit. -/
  | qubit
  /-- A plain qubit or one in a Pauli basis. -/
  | touching
  /-- A qubit in a Pauli basis. -/
  | pauli
  /-- A record lookback. -/
  | record
deriving DecidableEq, Repr

/-- The words for an accepted shape. -/
def TargetShape.text : TargetShape → String
  | qubit => "qubit"
  | touching => "qubit or pauli"
  | pauli => "pauli"
  | record => "record"

/-- Why the numbers given to an operation do not fit it. -/
inductive ArgumentFault
  /-- An observable is numbered by something else than a natural number. -/
  | observableIndex (value : Float)
  /-- An observable has no number. -/
  | noObservableIndex
  /-- A declaration of coordinates has none to declare. -/
  | noCoordinates
  /-- A two-qubit gate is applied to an odd number of qubits. -/
  | unpaired (targets : Nat)
  /-- The name is not that of a gate. -/
  | notGate
  /-- The name is not that of a noise channel. -/
  | notNoise
  /-- A probability lies outside the unit interval. -/
  | probability (value : Float)
  /-- A qubit is placed by an empty list of coordinates. -/
  | emptyCoordinates
  /-- A Pauli product has no factor. -/
  | emptyProduct
  /-- A block is repeated no times. -/
  | zeroRepeat
deriving DecidableEq

/-- The words for a fault in the numbers. -/
def ArgumentFault.reason : ArgumentFault → String
  | observableIndex v =>
    "observable index " ++ Numeral.plain v ++ " is not a non-negative integer"
  | noObservableIndex => "missing observable index"
  | noCoordinates => "missing coordinates"
  | unpaired n => toString n ++ " targets do not form pairs"
  | notGate => "not a gate"
  | notNoise => "not a noise channel"
  | probability p => "probability " ++ Numeral.plain p ++ " outside [0, 1]"
  | emptyCoordinates => "at least one coordinate is required"
  | emptyProduct => "empty Pauli product"
  | zeroRepeat => "repeat count must be positive"

/-- A fault of a circuit. -/
inductive CircuitError
  /-- A target does not have the shape that its operation requires at its position; `found` is
  none when the operation has no target there. -/
  | malformedTarget (operation : String) (index : Nat) (expected : TargetShape)
      (found : Option Target)
  /-- The numbers do not fit the operation. -/
  | invalidArguments (operation : String) (fault : ArgumentFault)
  /-- A lookback is not negative, or reaches further than a record offset can. -/
  | invalidRecordOffset (offset : Int)
deriving DecidableEq

namespace CircuitError

/-- How a message speaks of the target that was found. -/
def foundText : Option Target → String
  | none => "nothing"
  | some t => t.sort ++ " '" ++ t.text ++ "'"

/-- The wording of a fault. -/
def message : CircuitError → String
  | malformedTarget operation index expected found =>
    "Operation '" ++ operation ++ "' target #" ++ toString index ++ ": expected " ++ expected.text
      ++ ", found " ++ foundText found
  | invalidArguments operation fault =>
    "Operation '" ++ operation ++ "' has invalid arguments: " ++ fault.reason
  | invalidRecordOffset offset =>
    "Invalid measurement record offset " ++ toString offset ++ ": lookbacks must be negative"

end CircuitError

/-- The record target of a lookback, which must be negative and fit an offset. -/
def Target.lookback (offset : Int) : Except CircuitError Target :=
  if Int32.minValue.toInt ≤ offset ∧ offset < 0 then .ok (.record (.ofInt offset))
  else .error (.invalidRecordOffset offset)

end CircuitFrames
