import CircuitFrames.Circuit.Target

/-!
# Fault mechanisms

A fault mechanism is a small set of errors that an outside search has found. Each error lists the
places in the circuit where Pauli flips explain it, and the detectors and observables it toggles.
-/

namespace CircuitFrames

/-- A Pauli flip of one qubit. -/
structure PauliFlip where
  qubit : Qubit
  basis : Pauli
deriving DecidableEq, Repr

/-- A place in the circuit where an error happens. -/
structure ErrorLocation where
  /-- How many ticks run before the error, each repetition counted. -/
  tickOffset : Nat
  /-- The flips that make up the error. -/
  flipped : List PauliFlip
deriving DecidableEq, Repr

/-- What an error toggles. -/
inductive Symptom
  /-- The detector with a number. -/
  | detector (index : Nat)
  /-- The logical observable with a number. -/
  | observable (index : Nat)
deriving DecidableEq, Repr

/-- An error with the places that explain it. -/
structure ExplainedError where
  /-- Places that each explain the error. Only the first is drawn. -/
  locations : List ErrorLocation
  /-- What the error toggles. -/
  symptoms : List Symptom
deriving DecidableEq, Repr

/-- The numbers of the detectors that an error toggles. -/
def ExplainedError.detectors (e : ExplainedError) : List Nat :=
  e.symptoms.filterMap fun
    | .detector index => some index
    | .observable _ => none

/-- A set of errors that go unnoticed together. -/
structure FaultMechanism where
  errors : List ExplainedError
deriving DecidableEq, Repr

end CircuitFrames
