import CircuitFrames.Circuit.Basic
import CircuitFrames.Json.Decode
import CircuitFrames.Json.Reader
import CircuitFrames.Json.Writer

/-!
# Stored circuits

The JSON form of circuits. Reading takes the kind of an operation as it is stored, whatever the
name, and takes repeat counts of zero and lookbacks that are not negative.
-/

namespace CircuitFrames

open Json

/-! ## Reading -/

/-- The basis of a stored letter. -/
def Pauli.ofTag? : String → Option Pauli
  | "X" => some .x
  | "Y" => some .y
  | "Z" => some .z
  | _ => none

/-- The basis that a value stores. -/
def Pauli.ofJson? (room : Nat) (v : Value) : Option Pauli := do
  ofTag? (← v.unitTag? room)

/-- The target that a value stores. -/
def Target.ofJson? (room : Nat) (v : Value) : Option Target := do
  match ← v.tagged? room with
  | ("Qubit", some v) =>
    match ← v.record? (room - 1) ["qubit", "inverted"] with
    | [some q, some inverted] => return .qubit (← q.uint32?) (← inverted.bool?)
    | _ => none
  | ("Pauli", some v) =>
    match ← v.record? (room - 1) ["pauli", "qubit", "inverted"] with
    | [some p, some q, some inverted] =>
      return .pauli (← Pauli.ofJson? (room - 2) p) (← q.uint32?) (← inverted.bool?)
    | _ => none
  | ("Record", some v) => return .record (← v.int32?)
  | ("Combiner", none) | ("Combiner", some .null) => return .combiner
  | _ => none

/-- The kind that a value stores. -/
def Kind.ofJson? (room : Nat) (v : Value) : Option Kind := do
  match ← v.tagged? room with
  | ("SingleQubit", some v) => return .single (← SingleGate.ofTag? (← v.unitTag? (room - 1)))
  | ("TwoQubit", some v) => return .pair (← PairGate.ofTag? (← v.unitTag? (room - 1)))
  | ("Noise", some v) => return .noise (← NoiseChannel.ofTag? (← v.unitTag? (room - 1)))
  | (tag, none) | (tag, some .null) =>
    match tag with
    | "QubitCoords" => return .qubitCoords
    | "ShiftCoords" => return .shiftCoords
    | "PauliProduct" => return .pauliProduct
    | "Tick" => return .tick
    | "Detector" => return .detector
    | "ObservableInclude" => return .observableInclude
    | "Unsupported" => return .unsupported
    | _ => none
  | _ => none

/-- The operation that a value stores. -/
def Operation.ofJson? (room : Nat) (v : Value) : Option Operation := do
  match ← v.record? room ["name", "kind", "targets", "args"] with
  | [some name, some kind, some targets, some args] =>
    return {
      name := ← name.string?
      kind := ← Kind.ofJson? (room - 1) kind
      targets := ← targets.list? (room - 1) Target.ofJson?
      args := ← args.list? (room - 1) fun _ => Value.float? }
  | _ => none

/-- The circuit that a value stores. -/
def Circuit.ofJson? (room : Nat) (v : Value) : Option Circuit :=
  if _h : room = 0 then none
  else do
    match ← v.record? room ["items"] with
    | [some items] =>
      let parts ← items.list? (room - 1) fun _ v => do
        match ← v.tagged? (room - 2) with
        | ("Operation", some v) => return .op (← Operation.ofJson? (room - 3) v) .nil
        | ("Repeat", some v) =>
          match ← v.record? (room - 3) ["count", "body"] with
          | [some count, some body] =>
            return .repeated (← count.uint64?) (← Circuit.ofJson? (room - 4) body) .nil
          | _ => none
        | _ => none
      return parts.foldr (· ++ ·) .nil
    | _ => none
termination_by room
decreasing_by omega

/-- The circuit that a JSON text stores. -/
def Circuit.ofJsonText? (source : String) : Option Circuit := do
  Circuit.ofJson? documentRoom (← parse? source)

/-! ## Writing -/

/-- The stored form of a target. -/
def Target.toJson : Target → String
  | .qubit q inverted =>
    objectText [("Qubit", objectText
      [("qubit", toString q.toNat), ("inverted", boolText inverted)])]
  | .pauli p q inverted =>
    objectText [("Pauli", objectText
      [("pauli", stringText p.letter.toString), ("qubit", toString q.toNat),
        ("inverted", boolText inverted)])]
  | .record k => objectText [("Record", toString k.toInt)]
  | .combiner => stringText "Combiner"

/-- The two parts of the name of a kind: its own and that of the gate or channel. -/
def Kind.tags : Kind → String × Option String
  | .qubitCoords => ("QubitCoords", none)
  | .shiftCoords => ("ShiftCoords", none)
  | .single gate => ("SingleQubit", some gate.tag)
  | .pair gate => ("TwoQubit", some gate.tag)
  | .pauliProduct => ("PauliProduct", none)
  | .tick => ("Tick", none)
  | .detector => ("Detector", none)
  | .observableInclude => ("ObservableInclude", none)
  | .noise channel => ("Noise", some channel.tag)
  | .unsupported => ("Unsupported", none)

/-- The stored form of a kind. -/
def Kind.toJson (k : Kind) : String :=
  match k.tags with
  | (tag, none) => stringText tag
  | (tag, some inner) => objectText [(tag, stringText inner)]

/-- The stored form of an operation. -/
def Operation.toJson (o : Operation) : String :=
  objectText [("name", stringText o.name), ("kind", o.kind.toJson),
    ("targets", arrayText (o.targets.map Target.toJson)),
    ("args", arrayText (o.args.map floatText))]

/-- The stored forms of the operations and blocks at the top of a circuit. -/
def Circuit.itemTexts : Circuit → List String
  | .nil => []
  | .op o rest => objectText [("Operation", o.toJson)] :: rest.itemTexts
  | .repeated count body rest =>
    objectText [("Repeat", objectText [("count", toString count.toNat),
      ("body", objectText [("items", arrayText body.itemTexts)])])] :: rest.itemTexts

/-- The stored form of a circuit. -/
def Circuit.toJson (c : Circuit) : String :=
  objectText [("items", arrayText c.itemTexts)]

end CircuitFrames
