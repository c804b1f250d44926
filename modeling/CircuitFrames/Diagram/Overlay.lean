import CircuitFrames.Circuit.Basic
import CircuitFrames.Diagram.Mark
import CircuitFrames.Fault.Mechanism

/-!
# Error overlays

A fault mechanism marks its flips on the layers where they happen and highlights the detectors that
it toggles. The mechanism is given, or an outside search derives one from the circuit.
-/

namespace CircuitFrames

/-- What a fault mechanism adds to a drawing. -/
structure Overlay where
  /-- The flips, as marks. -/
  flips : List Mark
  /-- The numbers of the highlighted detectors. -/
  highlighted : Std.ExtTreeSet Nat

/-- A search for a fault mechanism of a circuit, which may fail with a message. -/
abbrev FaultSearch := Circuit → Except String FaultMechanism

namespace Overlay

/-- Nothing to add. -/
def empty : Overlay := ⟨[], ∅⟩

/-- The marks of an error: the flips of the first place that explains it. -/
def marksOf (e : ExplainedError) : List Mark :=
  match e.locations with
  | [] => []
  | place :: _ => place.flipped.map fun f => ⟨f.qubit, place.tickOffset, .flip f.basis⟩

/-- The overlay of a mechanism. -/
def ofMechanism (m : FaultMechanism) : Overlay where
  flips := m.errors.flatMap marksOf
  highlighted := .ofList (m.errors.flatMap ExplainedError.detectors)

/-- What there is to report about a mechanism: each of its errors that has no place. -/
def eventsOf (m : FaultMechanism) : List Event :=
  (m.errors.filter (·.locations.isEmpty)).map fun _ => .unplacedError

/-- The overlay of a given mechanism, else of the one that a search finds. A failed search is
reported and leaves nothing to add. -/
def resolve (c : Circuit) (known : Option FaultMechanism) (search : Option FaultSearch) :
    Overlay × List Event :=
  match known, search with
  | some m, _ => (ofMechanism m, eventsOf m)
  | none, none => (empty, [])
  | none, some find =>
    match find c with
    | .ok m => (ofMechanism m, eventsOf m)
    | .error message => (empty, [.searchFailed message])

end Overlay

end CircuitFrames
