import CircuitFrames.Proofs.Diagram.Step

/-!
# One target after the other

A step reads all targets of its operation before it does anything. `stepInTurn` does with each target,
each pair and each product what is to be done before it looks at the next, so it may have drawn, noted
or counted a good deal when it comes to a target that it cannot read. The walk is lost then, and with it
all of that: both ways of taking a step come to the same (`stepInTurn_eq_step`).
-/

namespace CircuitFrames

namespace Walk

/-- Goes over some positions, and acts on what is read at each before it reads the next. -/
def inTurn {α : Type} (read : Nat → Except CircuitError α) (act : Walk → α → Walk)
    (positions : List Nat) (w : Walk) : Except CircuitError Walk :=
  positions.foldlM (fun w i => (read i).map (act w)) w

/-- Draws each pair from a position on once it is read. -/
def pairsInTurn (gate : PairGate) (o : Operation) (index : Nat) :
    List Target → Walk → Except CircuitError Walk
  | first :: second :: rest, w => do
    let action ← o.pairAt index first second
    pairsInTurn gate o (index + 2) rest (w.drawPair gate action)
  | _, w => .ok w

/-- Draws each product from a position on once it is cut off and read. -/
def productsInTurn (o : Operation) (start : Nat) (w : Walk) : Except CircuitError Walk :=
  if start < o.targets.length then do
    let stop := Operation.chunkEnd o.targets (start + 1)
    let factors ← o.factorsBetween start stop
    productsInTurn o stop (w.drawProduct factors)
  else .ok w
termination_by o.targets.length - start
decreasing_by
  have := Operation.le_chunkEnd o.targets (start + 1)
  omega

/-- One operation, target by target. -/
def stepInTurn (style : DetectorStyle) (w : Walk) (o : Operation) : Except WalkError Walk :=
  match o.kind with
  | .qubitCoords =>
    match w.shift.moved? o.args with
    | none => .error (.circuit (.invalidArguments o.name .noCoordinates))
    | some g => readable (inTurn o.qubitAt (fun w q => w.declare g [q]) o.positions w)
  | .shiftCoords => .ok { w with shift := w.shift.accumulate o.args }
  | .single gate => (readable o.qubits).map (w.drawSingles gate)
  | .pair gate =>
    -- the last of an odd number of targets has no partner
    if o.targets.length % 2 = 1 then .error (.circuit (o.malformed o.targets.length .qubit))
    else readable (pairsInTurn gate o 0 o.targets w)
  | .pauliProduct => readable (productsInTurn o 0 w)
  | .tick => .ok w.advance
  | .detector =>
    let counted := { w with nextDetector := w.nextDetector + 1 }
    readable (inTurn o.recordAt (markLookback (w.detectorLabel style) o.name) o.positions counted)
  | .observableInclude =>
    match o.observableIndex with
    | .error e => .error (.circuit e)
    | .ok index =>
      let look : LabelStyle := ⟨"L" ++ toString index, "blue", false⟩
      readable (inTurn o.recordAt (markLookback look o.name) o.positions w)
  | .noise channel => readable (inTurn o.touchedAt (noteNoise channel) o.positions w)
  | .unsupported => .error (.unsupported o.name)

/-! ### Reading first comes to the same -/

theorem inTurn_eq {α : Type} (read : Nat → Except CircuitError α) (act : Walk → α → Walk)
    (positions : List Nat) (w : Walk) :
    inTurn read act positions w = (positions.mapM read).map (·.foldl act w) := by
  induction positions generalizing w with
  | nil => rfl
  | cons i positions ih =>
    rw [inTurn, List.foldlM_cons, List.mapM_cons]
    cases read i with
    | error e => rfl
    | ok a =>
      have hrest := ih (act w a)
      show inTurn read act positions (act w a) = _
      rw [hrest]
      cases positions.mapM read <;> rfl

theorem pairsInTurn_eq (gate : PairGate) (o : Operation) (i : Nat) (ts : List Target) (w : Walk) :
    pairsInTurn gate o i ts w = (o.pairsFrom i ts).map (·.foldl (·.drawPair gate ·) w) := by
  fun_induction pairsInTurn gate o i ts w with
  | case1 i first second rest w ih =>
    rw [Operation.pairsFrom]
    cases o.pairAt i first second with
    | error e => rfl
    | ok action =>
      refine (ih action).trans ?_
      show _ = Except.map _ (o.pairsFrom (i + 2) rest >>= fun more => pure (action :: more))
      cases o.pairsFrom (i + 2) rest <;> rfl
  | case2 i ts w hts =>
    rw [Operation.pairsFrom]
    · rfl
    · exact hts

theorem productsInTurn_eq (o : Operation) (start : Nat) (w : Walk) :
    productsInTurn o start w = (o.chunksFrom start).map (·.foldl drawProduct w) := by
  fun_induction productsInTurn o start w with
  | case1 start w hlt stop ih =>
    rw [Operation.chunksFrom, if_pos hlt]
    dsimp only
    cases o.factorsBetween start stop with
    | error e => rfl
    | ok factors =>
      refine (ih factors).trans ?_
      show _ = Except.map _ (o.chunksFrom stop >>= fun more => pure (factors :: more))
      cases o.chunksFrom stop <;> rfl
  | case2 start w hle =>
    rw [Operation.chunksFrom, if_neg hle]
    rfl

theorem readable_map {α β : Type} (x : Except CircuitError α) (f : α → β) :
    readable (x.map f) = (readable x).map f := by
  cases x <;> rfl

theorem foldl_declare_single (g : GridPoint) (qs : List Qubit) (w : Walk) :
    qs.foldl (fun w q => w.declare g [q]) w = w.declare g qs := by
  induction qs generalizing w with
  | nil => rfl
  | cons q qs ih =>
    rw [List.foldl_cons, ih]
    rfl

/-- **A step may act on each target before it reads the next.** -/
theorem stepInTurn_eq_step (style : DetectorStyle) (w : Walk) (o : Operation) :
    stepInTurn style w o = step style w o := by
  unfold stepInTurn step
  cases o.kind with
  | qubitCoords =>
    dsimp only
    cases w.shift.moved? o.args with
    | none => rfl
    | some g =>
      dsimp only
      rw [inTurn_eq, readable_map]
      congr 1
      funext qs
      exact foldl_declare_single g qs w
  | pair gate =>
    dsimp only
    rw [pairsInTurn_eq, readable_map, Operation.pairs]
    split <;> rfl
  | pauliProduct =>
    dsimp only
    rw [productsInTurn_eq, readable_map, o.chunksFrom_zero]
  | detector =>
    dsimp only
    rw [inTurn_eq, readable_map]
    rfl
  | observableInclude =>
    dsimp only
    cases o.observableIndex with
    | error e => rfl
    | ok index =>
      dsimp only
      rw [inTurn_eq, readable_map]
      rfl
  | noise channel =>
    dsimp only
    rw [inTurn_eq, readable_map]
    rfl
  | single | shiftCoords | tick | unsupported => rfl

end Walk

end CircuitFrames
