import CircuitFrames.Fault.Mechanism
import CircuitFrames.Json.Circuit

/-!
# Stored fault mechanisms

The JSON form of fault mechanisms. An error without places or without symptoms may leave out their
list.
-/

namespace CircuitFrames

open Json

/-! ## Reading -/

/-- The flip that a value stores. -/
def PauliFlip.ofJson? (room : Nat) (v : Value) : Option PauliFlip := do
  match ← v.record? room ["qubit", "pauli"] with
  | [some q, some p] => return ⟨← q.uint32?, ← Pauli.ofJson? (room - 1) p⟩
  | _ => none

/-- The place that a value stores. -/
def ErrorLocation.ofJson? (room : Nat) (v : Value) : Option ErrorLocation := do
  match ← v.record? room ["tick_offset", "flipped"] with
  | [some ticks, some flipped] =>
    return ⟨(← ticks.uint64?).toNat, ← flipped.list? (room - 1) PauliFlip.ofJson?⟩
  | _ => none

/-- The name of the type of a symptom. In an object it may be written like any alternative, in an
array only as a string. -/
def symptomType? (room : Nat) (v type : Value) : Option String :=
  match v with
  | .array _ => type.string?
  | _ => type.unitTag? room

/-- The symptom that a value stores: its type, and the number under another field. -/
def Symptom.ofJson? (room : Nat) (v : Value) : Option Symptom := do
  match ← v.record? room ["type", "index"] with
  | [some type, some index] =>
    let index := (← index.uint64?).toNat
    match ← symptomType? (room - 1) v type with
    | "detector" => return .detector index
    | "observable" => return .observable index
    | _ => none
  | _ => none

/-- The error that a value stores. -/
def ExplainedError.ofJson? (room : Nat) (v : Value) : Option ExplainedError := do
  match ← v.record? room ["locations", "dem_targets"] with
  | [locations, symptoms] =>
    let locations ←
      match locations with
      | some v => v.list? (room - 1) ErrorLocation.ofJson?
      | none => some []
    let symptoms ←
      match symptoms with
      | some v => v.list? (room - 1) Symptom.ofJson?
      | none => some []
    return ⟨locations, symptoms⟩
  | _ => none

/-- The mechanism that a value stores. -/
def FaultMechanism.ofJson? (room : Nat) (v : Value) : Option FaultMechanism := do
  match ← v.record? room ["errors"] with
  | [some errors] => return ⟨← errors.list? (room - 1) ExplainedError.ofJson?⟩
  | _ => none

/-- The mechanism that a JSON text stores. -/
def FaultMechanism.ofJsonText? (source : String) : Option FaultMechanism := do
  FaultMechanism.ofJson? documentRoom (← parse? source)

/-! ## Writing -/

/-- The stored form of a flip. -/
def PauliFlip.toJson (f : PauliFlip) : String :=
  objectText [("qubit", toString f.qubit.toNat), ("pauli", stringText f.basis.letter.toString)]

/-- The stored form of a place. -/
def ErrorLocation.toJson (l : ErrorLocation) : String :=
  objectText [("tick_offset", toString l.tickOffset),
    ("flipped", arrayText (l.flipped.map PauliFlip.toJson))]

/-- The stored form of a symptom. -/
def Symptom.toJson : Symptom → String
  | .detector index => objectText [("type", stringText "detector"), ("index", toString index)]
  | .observable index => objectText [("type", stringText "observable"), ("index", toString index)]

/-- The stored form of an error. -/
def ExplainedError.toJson (e : ExplainedError) : String :=
  objectText [("locations", arrayText (e.locations.map ErrorLocation.toJson)),
    ("dem_targets", arrayText (e.symptoms.map Symptom.toJson))]

/-- The stored form of a mechanism. -/
def FaultMechanism.toJson (m : FaultMechanism) : String :=
  objectText [("errors", arrayText (m.errors.map ExplainedError.toJson))]

end CircuitFrames
