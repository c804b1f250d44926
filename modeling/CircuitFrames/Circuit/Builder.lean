import CircuitFrames.Circuit.Basic

/-!
# Building circuits

Each function adds one operation or block at the end of a circuit, after checking that the viewer
can make sense of it; a refused addition leaves the circuit as it was.
-/

namespace CircuitFrames.Circuit

/-- Adds a single- or two-qubit gate on plain qubits. -/
def gate (c : Circuit) (name : String) (qubits : List Qubit) : Except CircuitError Circuit :=
  let added := c.push (.named name (qubits.map (Target.qubit · false)) [])
  match Kind.ofName name with
  | .single _ => .ok added
  | .pair _ =>
    if qubits.length % 2 = 0 then .ok added
    else .error (.invalidArguments name (.unpaired qubits.length))
  | _ => .error (.invalidArguments name .notGate)

/-- Adds a noise channel of probability `p`. -/
def noise (c : Circuit) (name : String) (p : Float) (targets : List Target) :
    Except CircuitError Circuit :=
  match Kind.ofName name with
  | .noise _ =>
    if 0 ≤ p ∧ p ≤ 1 then .ok (c.push (.named name targets [p]))
    else .error (.invalidArguments name (.probability p))
  | _ => .error (.invalidArguments name .notNoise)

/-- Ends the time slice. -/
def tick (c : Circuit) : Circuit :=
  c.push (.named "TICK" [] [])

/-- Places a qubit in the plane. -/
def qubitCoords (c : Circuit) (qubit : Qubit) (coords : List Float) :
    Except CircuitError Circuit :=
  if coords.isEmpty then .error (.invalidArguments "QUBIT_COORDS" .emptyCoordinates)
  else .ok (c.push (.named "QUBIT_COORDS" [.qubit qubit false] coords))

/-- Moves every later declaration of coordinates. -/
def shiftCoords (c : Circuit) (deltas : List Float) : Circuit :=
  c.push (.named "SHIFT_COORDS" [] deltas)

/-- The targets of one Pauli product: its factors with combiners between them. -/
def productTargets (product : List (Pauli × Qubit)) : List Target :=
  (product.map fun (p, q) => Target.pauli p q false).intersperse .combiner

/-- Adds measurements of Pauli products, none of which may be empty. -/
def measureProducts (c : Circuit) (products : List (List (Pauli × Qubit))) :
    Except CircuitError Circuit :=
  if products.any List.isEmpty then .error (.invalidArguments "MPP" .emptyProduct)
  else .ok (c.push (.named "MPP" (products.flatMap productTargets) []))

/-- Adds a detector over earlier measurements. -/
def detector (c : Circuit) (lookbacks : List Int) (coords : List Float) :
    Except CircuitError Circuit := do
  let targets ← lookbacks.mapM Target.lookback
  return c.push (.named "DETECTOR" targets coords)

/-- Counts earlier measurements towards a logical observable. -/
def observableInclude (c : Circuit) (index : UInt32) (lookbacks : List Int) :
    Except CircuitError Circuit := do
  let targets ← lookbacks.mapM Target.lookback
  return c.push (.named "OBSERVABLE_INCLUDE" targets [index.toFloat])

/-- Adds a block that runs `count` times, which must be at least once. -/
def repeatBlock (c : Circuit) (count : UInt64) (body : Circuit) : Except CircuitError Circuit :=
  if count = 0 then .error (.invalidArguments "REPEAT" .zeroRepeat)
  else .ok (c ++ repeated count body nil)

end CircuitFrames.Circuit
