import CircuitFrames.Circuit.Basic

/-!
# The shapes of target lists

Each kind of operation reads its targets in one shape: as plain qubits, as pairs, as Pauli products,
as lookbacks, or as the qubits they touch. The first target that does not fit the shape is the
fault that is reported.
-/

namespace CircuitFrames

/-- What a pair of targets of a two-qubit gate asks for. -/
inductive PairAction
  /-- The gate between two qubits. -/
  | edge (first second : Qubit)
  /-- The gate on the one qubit, controlled by a measurement result. -/
  | correction (qubit : Qubit)
  /-- Nothing: a measurement result that controls no plain qubit. -/
  | nothing
deriving DecidableEq, Repr

namespace Operation

/-- The positions of the targets. -/
def positions (op : Operation) : List Nat :=
  List.range op.targets.length

/-- All targets as plain qubits. -/
def qubits (op : Operation) : Except CircuitError (List Qubit) :=
  op.positions.mapM op.qubitAt

/-- All targets as lookbacks. -/
def lookbacks (op : Operation) : Except CircuitError (List Int32) :=
  op.positions.mapM op.recordAt

/-- The qubits that all targets touch. -/
def touched (op : Operation) : Except CircuitError (List Qubit) :=
  op.positions.mapM op.touchedAt

/-! ## Pairs -/

/-- The qubit that a measurement result controls: the first plain qubit of a pair. -/
def controlled? : Target → Target → Option Qubit
  | .qubit q _, _ => some q
  | _, .qubit q _ => some q
  | _, _ => none

/-- What the pair of targets at a position asks for. -/
def pairAt (op : Operation) (index : Nat) (first second : Target) :
    Except CircuitError PairAction :=
  if first.isRecord || second.isRecord then
    match controlled? first second with
    | some q => .ok (.correction q)
    | none => .ok .nothing
  else do
    let a ← op.qubitAt index
    let b ← op.qubitAt (index + 1)
    return .edge a b

/-- What the pairs of the targets from a position on ask for. -/
def pairsFrom (op : Operation) (index : Nat) :
    List Target → Except CircuitError (List PairAction)
  | first :: second :: rest => do
    let action ← op.pairAt index first second
    let more ← op.pairsFrom (index + 2) rest
    return action :: more
  | _ => .ok []

/-- What all pairs of targets ask for. In an odd number of targets the last has no partner. -/
def pairs (op : Operation) : Except CircuitError (List PairAction) :=
  if op.targets.length % 2 = 1 then .error (op.malformed op.targets.length .qubit)
  else op.pairsFrom 0 op.targets

/-! ## Products -/

/-- The Pauli products of the targets from a position on, where a factor has to stand: the first
product and those after it. A factor with a combiner behind it is in one product with the next
factor. -/
def productsFrom (op : Operation) (index : Nat) :
    List Target → Except CircuitError (List (Qubit × Pauli) × List (List (Qubit × Pauli)))
  | [] | [_] => do
    let factor ← op.pauliAt index
    return ([factor], [])
  | _ :: .combiner :: rest => do
    let factor ← op.pauliAt index
    let (first, more) ← op.productsFrom (index + 2) rest
    return (factor :: first, more)
  | _ :: t :: rest => do
    let factor ← op.pauliAt index
    let (first, more) ← op.productsFrom (index + 1) (t :: rest)
    return ([factor], first :: more)

/-- The Pauli products that all targets make up. -/
def products (op : Operation) : Except CircuitError (List (List (Qubit × Pauli))) :=
  if op.targets.isEmpty then .ok []
  else do
    let (first, more) ← op.productsFrom 0 op.targets
    return first :: more

end Operation

end CircuitFrames
