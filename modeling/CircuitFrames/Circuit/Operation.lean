import CircuitFrames.Circuit.Error
import CircuitFrames.Circuit.Gate
import CircuitFrames.Numeral.Double

/-!
# Operations

An operation has a name, the kind that the name resolves to, targets and numeric arguments. The
accessors `qubitAt`, `touchedAt`, `pauliAt` and `recordAt` read one target in the shape that a kind
of operation requires, or say what stands there instead.
-/

namespace CircuitFrames

/-- The kind of an operation. -/
inductive Kind
  /-- Places qubits in the plane. -/
  | qubitCoords
  /-- Moves every later declaration of coordinates. -/
  | shiftCoords
  /-- A gate, reset or measurement of single qubits. -/
  | single (gate : SingleGate)
  /-- A gate on pairs of qubits. -/
  | pair (gate : PairGate)
  /-- Measurements of Pauli products. -/
  | pauliProduct
  /-- The end of a time slice. -/
  | tick
  /-- A parity check over earlier measurements. -/
  | detector
  /-- Measurements that count towards a logical observable. -/
  | observableInclude
  /-- Declared noise. -/
  | noise (channel : NoiseChannel)
  /-- Anything else. -/
  | unsupported
deriving DecidableEq, Repr

namespace Kind

/-- The kind that a name resolves to. -/
def ofName (name : String) : Kind :=
  match name with
  | "QUBIT_COORDS" => qubitCoords
  | "SHIFT_COORDS" => shiftCoords
  | "MPP" => pauliProduct
  | "TICK" => tick
  | "DETECTOR" => detector
  | "OBSERVABLE_INCLUDE" => observableInclude
  | name =>
    match SingleGate.ofName? name, PairGate.ofName? name, NoiseChannel.ofName? name with
    | some gate, _, _ => single gate
    | none, some gate, _ => pair gate
    | none, none, some channel => noise channel
    | none, none, none => unsupported

/-- Whether operations of this kind add to the measurement record. -/
def producesMeasurements : Kind → Bool
  | single gate => gate.isMeasurement
  | pauliProduct => true
  | _ => false

end Kind

/-- A circuit operation. -/
structure Operation where
  /-- The name as it was written. -/
  name : String
  /-- What the operation does. -/
  kind : Kind
  /-- The targets in order. -/
  targets : List Target
  /-- Probabilities, coordinates or an index. -/
  args : List Float
deriving BEq, DecidableEq

namespace Operation

/-- The operation of a name, with the kind that the name resolves to. -/
def named (name : String) (targets : List Target) (args : List Float) : Operation :=
  ⟨name, .ofName name, targets, args⟩

/-- How many results the operation adds to the measurement record: one for each target, or one for
each product, whose terms are held together by one combiner less than there are terms. -/
def numMeasurements (op : Operation) : Nat :=
  if op.kind.producesMeasurements then
    op.targets.length - 2 * op.targets.countP Target.isCombiner
  else 0

/-- Whether the operation ends a time slice. -/
def isTick (op : Operation) : Bool :=
  op.kind == .tick

/-- Whether the operation is a detector. -/
def isDetector (op : Operation) : Bool :=
  op.kind == .detector

/-- The fault of a target that does not have the expected shape. -/
def malformed (op : Operation) (index : Nat) (expected : TargetShape) : CircuitError :=
  .malformedTarget op.name index expected op.targets[index]?

/-- The plain qubit at a position. -/
def qubitAt (op : Operation) (index : Nat) : Except CircuitError Qubit :=
  match op.targets[index]? with
  | some (.qubit q _) => .ok q
  | _ => .error (op.malformed index .qubit)

/-- The qubit that the plain or Pauli target at a position touches. -/
def touchedAt (op : Operation) (index : Nat) : Except CircuitError Qubit :=
  match op.targets[index]? with
  | some (.qubit q _) | some (.pauli _ q _) => .ok q
  | _ => .error (op.malformed index .touching)

/-- The qubit and basis of the Pauli target at a position. -/
def pauliAt (op : Operation) (index : Nat) : Except CircuitError (Qubit × Pauli) :=
  match op.targets[index]? with
  | some (.pauli p q _) => .ok (q, p)
  | _ => .error (op.malformed index .pauli)

/-- The offset of the record target at a position. -/
def recordAt (op : Operation) (index : Nat) : Except CircuitError Int32 :=
  match op.targets[index]? with
  | some (.record k) => .ok k
  | _ => .error (op.malformed index .record)

/-- The number of the observable that the first argument gives. -/
def observableIndex (op : Operation) : Except CircuitError Nat :=
  match op.args with
  | [] => .error (.invalidArguments op.name .noObservableIndex)
  | value :: _ =>
    match Numeral.natural? value with
    | some index =>
      if index < UInt32.size then .ok index
      else .error (.invalidArguments op.name (.observableIndex value))
    | none => .error (.invalidArguments op.name (.observableIndex value))

/-- The written arguments, in brackets unless there are none. -/
def argsText (args : List Float) : String :=
  if args.isEmpty then ""
  else "(" ++ ", ".intercalate (args.map Numeral.plain) ++ ")"

/-- The written targets. Each has a space before it, but a combiner is glued to both neighbours. -/
def targetsText (glued : Bool) : List Target → String
  | [] => ""
  | .combiner :: rest => "*" ++ targetsText true rest
  | t :: rest => (if glued then "" else " ") ++ t.text ++ targetsText false rest

/-- The written form of an operation. -/
def text (op : Operation) : String :=
  op.name ++ argsText op.args ++ targetsText false op.targets

end Operation

end CircuitFrames
