import CircuitFrames.Proofs.Circuit.Pairs
import CircuitFrames.Proofs.Circuit.Products
import CircuitFrames.Proofs.Numeral.Word

/-!
# What the builders add

A call of a builder is refused whatever circuit it is made on, or it adds one operation at the end,
and that operation is in shape: its targets can be read as its kind requires, and its arguments are
there (`Call.adds`). So is all that a script of calls builds (`InShape.build`).
-/

namespace CircuitFrames

/-! ### Operations in shape -/

namespace Operation

/-- The targets and arguments of the operation are what its kind requires. -/
def InShape (o : Operation) : Prop :=
  match o.kind with
  | .qubitCoords => o.args ≠ [] ∧ ∃ qs, o.qubits = .ok qs
  | .single _ => ∃ qs, o.qubits = .ok qs
  | .pair _ => ∃ actions, o.pairs = .ok actions
  | .pauliProduct => ∃ products, o.products = .ok products
  | .detector => ∃ ks, o.lookbacks = .ok ks
  | .observableInclude => (∃ index, o.observableIndex = .ok index) ∧ ∃ ks, o.lookbacks = .ok ks
  | .noise _ => ∃ qs, o.touched = .ok qs
  | .shiftCoords | .tick => True
  | .unsupported => False

end Operation

/-! ### Lists of plain targets, of touched qubits and of lookbacks -/

namespace Operation

variable {o : Operation}

theorem qubits_of_plain {qs : List Qubit} (h : o.targets = qs.map (Target.qubit · false)) :
    o.qubits = .ok qs := by
  rw [qubits_eq_ok, h, List.map_map]
  rfl

theorem edge?_of_mem_pairUp_plain {qs : List Qubit} :
    ∀ ab ∈ Target.pairUp (qs.map (Target.qubit · false)), (Target.edge? ab).isSome = true := by
  match qs with
  | [] | [_] => nofun
  | a :: b :: qs => exact List.forall_mem_cons.mpr ⟨rfl, edge?_of_mem_pairUp_plain⟩

theorem pairs_of_plain {qs : List Qubit} (h : o.targets = qs.map (Target.qubit · false))
    (heven : qs.length % 2 = 0) : ∃ actions, o.pairs = .ok actions := by
  rw [exists_pairs_iff, h, List.length_map]
  exact ⟨heven, fun ab hab => .inl (edge?_of_mem_pairUp_plain ab hab)⟩

theorem touched_of_touching (h : ∀ t ∈ o.targets, t.touched?.isSome = true) :
    ∃ qs, o.touched = .ok qs := by
  refine ⟨o.targets.filterMap Target.touched?, ?_⟩
  rw [touched_eq_ok]
  generalize o.targets = ts at h
  induction ts with
  | nil => rfl
  | cons t ts ih =>
    obtain ⟨ht, hts⟩ := List.forall_mem_cons.mp h
    obtain ⟨q, hq⟩ := Option.isSome_iff_exists.mp ht
    rw [List.map_cons, ih hts, List.filterMap_cons_some hq, hq, List.map_cons]

theorem lookbacks_of_mapM {ks : List Int} (h : ks.mapM Target.lookback = .ok o.targets) :
    ∃ offsets, o.lookbacks = .ok offsets := by
  suffices h : ∃ offsets : List Int32, o.targets.map Target.offset? = offsets.map some by
    simpa only [lookbacks_eq_ok] using h
  generalize o.targets = ts at h
  induction ks generalizing ts with
  | nil =>
    cases h
    exact ⟨[], rfl⟩
  | cons k ks ih =>
    rw [List.mapM_cons, bind_eq_ok] at h
    obtain ⟨t, ht, h⟩ := h
    rw [bind_eq_ok] at h
    obtain ⟨rest, hrest, h⟩ := h
    cases h
    obtain ⟨offsets, hoffsets⟩ := ih rest hrest
    unfold Target.lookback at ht
    split at ht
    · cases ht
      exact ⟨.ofInt k :: offsets, by rw [List.map_cons, hoffsets, List.map_cons]; rfl⟩
    · cases ht

theorem observableIndex_of_toFloat {index : UInt32} (h : o.args = [index.toFloat]) :
    o.observableIndex = .ok index.toNat := by
  unfold observableIndex
  rw [h]
  dsimp only
  rw [Numeral.natural?_toFloat]
  exact if_pos index.toNat_lt

end Operation

/-! ### Calls -/

namespace Circuit

/-- A call of a builder that adds an operation. The targets of a noise channel are qubits or Pauli
targets. -/
inductive Call
  | gate (name : String) (qubits : List Qubit)
  | noise (name : String) (p : Float) (targets : List {t : Target // t.touched?.isSome})
  | tick
  | qubitCoords (qubit : Qubit) (coords : List Float)
  | shiftCoords (deltas : List Float)
  | measureProducts (products : List (List (Pauli × Qubit)))
  | detector (lookbacks : List Int) (coords : List Float)
  | observableInclude (index : UInt32) (lookbacks : List Int)

/-- What a call gives on a circuit. -/
def Call.on (k : Call) (c : Circuit) : Except CircuitError Circuit :=
  match k with
  | gate name qubits => c.gate name qubits
  | noise name p targets => c.noise name p (targets.map (·.val))
  | tick => .ok c.tick
  | qubitCoords qubit coords => c.qubitCoords qubit coords
  | shiftCoords deltas => .ok (c.shiftCoords deltas)
  | measureProducts products => c.measureProducts products
  | detector lookbacks coords => c.detector lookbacks coords
  | observableInclude index lookbacks => c.observableInclude index lookbacks

/-- What refuses every circuit for one reason, or adds one item with a property at the end of each. -/
def Adds (P : Circuit → Prop) (f : Circuit → Except CircuitError Circuit) : Prop :=
  (∃ e, ∀ c, f c = .error e) ∨ ∃ item, item.length = 1 ∧ P item ∧ ∀ c, f c = .ok (c ++ item)

/-- All operations that run are in shape. -/
def InShape (c : Circuit) : Prop :=
  ∀ o ∈ c.executed, o.InShape

theorem adds_refused {P : Circuit → Prop} {f : Circuit → Except CircuitError Circuit}
    {e : CircuitError} (h : ∀ c, f c = .error e) : Adds P f :=
  .inl ⟨e, h⟩

theorem adds_operation {f : Circuit → Except CircuitError Circuit} {o : Operation} (ho : o.InShape)
    (h : ∀ c, f c = .ok (c.push o)) : Adds InShape f :=
  .inr ⟨op o nil, rfl, List.forall_mem_singleton.mpr ho, h⟩

theorem gate_adds (name : String) (qubits : List Qubit) : Adds InShape (·.gate name qubits) := by
  unfold Circuit.gate
  cases hkind : Kind.ofName name with
  | single gate =>
    refine adds_operation ?_ fun c => rfl
    rw [Operation.InShape, Operation.named, hkind]
    exact ⟨qubits, Operation.qubits_of_plain rfl⟩
  | pair gate =>
    by_cases heven : qubits.length % 2 = 0
    · refine adds_operation ?_ fun c => if_pos heven
      rw [Operation.InShape, Operation.named, hkind]
      exact Operation.pairs_of_plain rfl heven
    · exact adds_refused fun c => if_neg heven
  | _ => exact adds_refused fun c => rfl

theorem noise_adds (name : String) (p : Float) (targets : List {t : Target // t.touched?.isSome}) :
    Adds InShape (·.noise name p (targets.map (·.val))) := by
  unfold Circuit.noise
  cases hkind : Kind.ofName name with
  | noise channel =>
    by_cases hp : 0 ≤ p ∧ p ≤ 1
    · refine adds_operation ?_ fun c => if_pos hp
      rw [Operation.InShape, Operation.named, hkind]
      apply Operation.touched_of_touching
      intro t ht
      obtain ⟨⟨t, htouched⟩, -, rfl⟩ := List.mem_map.mp ht
      exact htouched
    · exact adds_refused fun c => if_neg hp
  | _ => exact adds_refused fun c => rfl

theorem qubitCoords_adds (qubit : Qubit) (coords : List Float) :
    Adds InShape (·.qubitCoords qubit coords) := by
  unfold Circuit.qubitCoords
  by_cases hempty : coords.isEmpty = true
  · exact adds_refused fun c => if_pos hempty
  · have hcoords : coords ≠ [] := by simpa using hempty
    have hread : (Operation.named "QUBIT_COORDS" [.qubit qubit false] coords).InShape :=
      ⟨hcoords, [qubit], Operation.qubits_of_plain rfl⟩
    exact adds_operation hread fun c => if_neg hempty

theorem measureProducts_adds (products : List (List (Pauli × Qubit))) :
    Adds InShape (·.measureProducts products) := by
  unfold Circuit.measureProducts
  by_cases hempty : products.any List.isEmpty = true
  · exact adds_refused fun c => if_pos hempty
  · have hproducts : ∀ p ∈ products, p ≠ [] := by
      rintro p hp rfl
      exact hempty (List.any_eq_true.mpr ⟨[], hp, rfl⟩)
    have hread : (Operation.named "MPP" (products.flatMap productTargets) []).InShape :=
      ⟨_, Operation.products_of_productTargets _ hproducts rfl⟩
    exact adds_operation hread fun c => if_neg hempty

theorem detector_adds (lookbacks : List Int) (coords : List Float) :
    Adds InShape (·.detector lookbacks coords) := by
  unfold Circuit.detector
  cases hread : lookbacks.mapM Target.lookback with
  | error e => exact adds_refused fun c => rfl
  | ok ts =>
    have hmarks : (Operation.named "DETECTOR" ts coords).InShape := Operation.lookbacks_of_mapM hread
    exact adds_operation hmarks fun c => rfl

theorem observableInclude_adds (index : UInt32) (lookbacks : List Int) :
    Adds InShape (·.observableInclude index lookbacks) := by
  unfold Circuit.observableInclude
  cases hread : lookbacks.mapM Target.lookback with
  | error e => exact adds_refused fun c => rfl
  | ok ts =>
    have hmarks : (Operation.named "OBSERVABLE_INCLUDE" ts [index.toFloat]).InShape :=
      ⟨⟨_, Operation.observableIndex_of_toFloat rfl⟩, Operation.lookbacks_of_mapM hread⟩
    exact adds_operation hmarks fun c => rfl

/-- **A call refuses every circuit for one reason, or adds one operation in shape to each.** -/
theorem Call.adds (k : Call) : Adds InShape k.on := by
  cases k with
  | gate name qubits => exact gate_adds name qubits
  | noise name p targets => exact noise_adds name p targets
  | tick =>
    have htick : (Operation.named "TICK" [] []).InShape := trivial
    exact adds_operation htick fun c => rfl
  | qubitCoords qubit coords => exact qubitCoords_adds qubit coords
  | shiftCoords deltas =>
    have hshift : (Operation.named "SHIFT_COORDS" [] deltas).InShape := trivial
    exact adds_operation hshift fun c => rfl
  | measureProducts products => exact measureProducts_adds products
  | detector lookbacks coords => exact detector_adds lookbacks coords
  | observableInclude index lookbacks => exact observableInclude_adds index lookbacks

theorem repeatBlock_adds {P : Circuit → Prop} (count : UInt64) (body : Circuit)
    (h : P (repeated count body nil)) : Adds P (·.repeatBlock count body) := by
  by_cases hcount : count = 0
  · exact adds_refused fun c => if_pos hcount
  · exact .inr ⟨repeated count body nil, rfl, h, fun c => if_neg hcount⟩

/-! ### Scripts -/

/-- The circuit after a builder was called on it: what the builder gives, or the circuit as it was if
it is refused. -/
def attempt (f : Circuit → Except CircuitError Circuit) (c : Circuit) : Circuit :=
  match f c with
  | .ok c' => c'
  | .error _ => c

/-- Calls of builders one after the other, and blocks whose bodies are built in the same way. -/
inductive Script
  | done
  | call (first : Call) (rest : Script)
  | block (count : UInt64) (body rest : Script)

/-- The circuit after the calls of a script; those that are refused are passed over. -/
def Script.build (c : Circuit) : Script → Circuit
  | done => c
  | call first rest => rest.build (attempt first.on c)
  | block count body rest => rest.build (attempt (·.repeatBlock count (body.build nil)) c)

/-- A call is refused and changes nothing, or it adds one operation or block and changes nothing
before it. -/
def AddsOne (f : Circuit → Except CircuitError Circuit) (c : Circuit) : Prop :=
  (∃ e, f c = .error e ∧ attempt f c = c) ∨
    ∃ item : Circuit, item.length = 1 ∧ f c = .ok (c ++ item) ∧ attempt f c = c ++ item

theorem Adds.addsOne {P : Circuit → Prop} {f : Circuit → Except CircuitError Circuit}
    (h : Adds P f) (c : Circuit) : AddsOne f c := by
  unfold AddsOne attempt
  rcases h with ⟨e, he⟩ | ⟨item, hitem, -, hf⟩
  · rw [he]
    exact .inl ⟨e, rfl, rfl⟩
  · rw [hf]
    exact .inr ⟨item, hitem, rfl, rfl⟩

variable {c d : Circuit}

theorem InShape.append (hc : c.InShape) (hd : d.InShape) : (c ++ d).InShape := by
  unfold InShape
  rw [executed_append]
  exact List.forall_mem_append.mpr ⟨hc, hd⟩

theorem InShape.attempt (hc : c.InShape) {f : Circuit → Except CircuitError Circuit}
    (h : Adds InShape f) : (attempt f c).InShape := by
  unfold Circuit.attempt
  rcases h with ⟨e, he⟩ | ⟨item, -, hitem, hf⟩
  · rw [he]
    exact hc
  · rw [hf]
    exact hc.append hitem

theorem InShape.repeated (hbody : c.InShape) (count : UInt64) :
    (Circuit.repeated count c nil).InShape := by
  intro o ho
  rw [executed_repeated, List.mem_append] at ho
  obtain ⟨ops, hops, ho⟩ := List.mem_flatten.mp (ho.resolve_right List.not_mem_nil)
  rw [List.eq_of_mem_replicate hops] at ho
  exact hbody o ho

theorem inShape_nil : InShape nil := nofun

theorem InShape.build (hc : c.InShape) (s : Script) : (s.build c).InShape := by
  induction s generalizing c with
  | done => exact hc
  | call first rest ih => exact ih (hc.attempt first.adds)
  | block count body rest ihb ihr =>
    exact ihr (hc.attempt (repeatBlock_adds count _ ((ihb inShape_nil).repeated count)))

end Circuit

end CircuitFrames
