import CircuitFrames.Layout.Coordinates
import CircuitFrames.Proofs.Circuit.Products

/-!
# Histories of a run

A history is the list of the operations that a run has executed so far. What a history says of the
measurements of the run is told here without any state: how many there are (`recorded`), on which
layer and at which position each was recorded (`sites`), and which of them have been labelled
(`marked`), each time an operation that labels reached them.
-/

namespace CircuitFrames

/-- The operations of a run so far, the first one first. -/
abbrev History := List Operation

/-! ### What one operation contributes -/

namespace Operation

/-- The qubits whose results the operation adds to the record, in order: all qubits of a measurement
of single qubits, and the first factor of each product. -/
def measured (o : Operation) : List Qubit :=
  match o.kind with
  | .single gate => if gate.isMeasurement then o.targets.filterMap Target.plain? else []
  | .pauliProduct => leaders o.targets
  | _ => []

/-- Whether the operation labels the measurements that its lookbacks reach. -/
def isMarking (o : Operation) : Bool :=
  o.kind == .detector || o.kind == .observableInclude

/-- The operation without the targets from a position on. -/
def upTo (o : Operation) (n : Nat) : Operation :=
  { o with targets := o.targets.take n }

theorem length_firsts {ps : List (List (Qubit × Pauli))} (h : ∀ factors ∈ ps, factors ≠ []) :
    (firsts ps).length = ps.length := by
  induction ps with
  | nil => rfl
  | cons factors ps ih =>
    cases factors with
    | nil => exact absurd rfl (h [] List.mem_cons_self)
    | cons f factors =>
      rw [firsts_cons_cons, List.length_cons, List.length_cons,
        ih fun g hg => h g (List.mem_cons_of_mem _ hg)]

variable {o : Operation}

theorem isMarking_iff :
    o.isMarking = true ↔ o.kind = .detector ∨ o.kind = .observableInclude := by
  simp [isMarking]

theorem measured_single {gate : SingleGate} (hkind : o.kind = .single gate) {qs : List Qubit}
    (hqs : o.qubits = .ok qs) : o.measured = if gate.isMeasurement then qs else [] := by
  unfold measured
  rw [hkind]
  show (if gate.isMeasurement then _ else _) = _
  rw [filterMap_of_map_eq_some (o.qubits_eq_ok.mp hqs)]

theorem measured_products (hkind : o.kind = .pauliProduct) {ps : List (List (Qubit × Pauli))}
    (hps : o.products = .ok ps) : o.measured = firsts ps := by
  unfold measured
  rw [hkind]
  exact o.leaders_eq_of_products hps

theorem measured_of_not_producing (h : o.kind.producesMeasurements = false) : o.measured = [] := by
  unfold measured
  cases hkind : o.kind with
  | single gate =>
    rw [hkind] at h
    show (if gate.isMeasurement then _ else _) = _
    rw [if_neg (by simpa [Kind.producesMeasurements] using h)]
  | pauliProduct =>
    rw [hkind] at h
    cases h
  | _ => rfl

theorem length_measured_single {gate : SingleGate} (hkind : o.kind = .single gate)
    {qs : List Qubit} (hqs : o.qubits = .ok qs) : o.measured.length = o.numMeasurements := by
  have hts := o.qubits_eq_ok.mp hqs
  rw [measured_single hkind hqs, numMeasurements, hkind,
    countP_isCombiner_of_map_eq_some rfl hts, length_of_map_eq_some hts]
  cases h : gate.isMeasurement <;> simp [Kind.producesMeasurements, h]

theorem length_measured_products (hkind : o.kind = .pauliProduct)
    {ps : List (List (Qubit × Pauli))} (hps : o.products = .ok ps) :
    o.measured.length = o.numMeasurements := by
  rw [measured_products hkind hps, length_firsts (o.ne_nil_of_products hps), numMeasurements, hkind]
  exact (o.length_of_products hps).symm

theorem length_measured_of_not_producing (h : o.kind.producesMeasurements = false) :
    o.measured.length = o.numMeasurements := by
  rw [measured_of_not_producing h, numMeasurements, h]
  rfl

end Operation

/-! ### Where the plane stands -/

/-- The shift in force and the places of qubits. -/
structure Plane where
  shift : PlaneShift
  coords : CoordinateMap

namespace Plane

/-- No shift and no declaration. -/
def blank : Plane := ⟨.zero, .empty⟩

/-- The plane after an operation: only declarations of shifts and of coordinates change it. -/
def after (p : Plane) (o : Operation) : Plane :=
  match o.kind with
  | .shiftCoords => { p with shift := p.shift.accumulate o.args }
  | .qubitCoords =>
    match p.shift.moved? o.args with
    | none => p
    | some g =>
      { p with coords := (o.targets.filterMap Target.plain?).foldl (·.declare · g) p.coords }
  | _ => p

end Plane

/-! ### What a history says -/

/-- A measurement of a run: the layer that was open and where the measured qubit stood. -/
structure Site where
  layer : Nat
  position : Point
deriving DecidableEq

namespace History

/-- The number of ticks. -/
def ticks (h : History) : Nat :=
  h.countP Operation.isTick

/-- The number of measurements. -/
def recorded (h : History) : Nat :=
  (h.map Operation.numMeasurements).sum

/-- The plane at the end. -/
def plane (h : History) : Plane :=
  h.foldl Plane.after .blank

/-- The number of the measurement that a lookback reaches at the end of the history: none if the
lookback is not negative or goes back before the first measurement. -/
def reached? (h : History) (k : Int32) : Option Nat :=
  if k.toInt < 0 ∧ 0 ≤ h.recorded + k.toInt then some (h.recorded + k.toInt).toNat else none

/-- What operations contribute one after the other, each with those before it in view. -/
def along {α : Type} (contribute : History → Operation → List α) (past : History) :
    List Operation → List α
  | [] => []
  | o :: rest => contribute past o ++ along contribute (past ++ [o]) rest

/-- The sites of the measurements of an operation. -/
def sitesOf (past : History) (o : Operation) : List Site :=
  o.measured.map fun q => ⟨past.ticks, past.plane.coords.position q⟩

/-- The sites of all measurements, in the order in which they were recorded. -/
def sites (h : History) : List Site :=
  along sitesOf [] h

/-- The numbers of the measurements that an operation labels. -/
def marksOf (past : History) (o : Operation) : List Nat :=
  if o.isMarking then (o.targets.filterMap Target.offset?).filterMap past.reached? else []

/-- The numbers of all measurements labelled so far, one for each label, in order. -/
def marked (h : History) : List Nat :=
  along marksOf [] h

/-! ### One more operation -/

theorem along_append {α : Type} (contribute : History → Operation → List α) (past : History)
    (ops more : List Operation) :
    along contribute past (ops ++ more) =
      along contribute past ops ++ along contribute (past ++ ops) more := by
  induction ops generalizing past with
  | nil => rw [List.nil_append, along, List.nil_append, List.append_nil]
  | cons o ops ih =>
    rw [List.cons_append, along, ih, along, List.append_assoc, List.append_assoc]
    rfl

variable (h : History) (o : Operation)

theorem along_snoc {α : Type} (contribute : History → Operation → List α) :
    along contribute [] (h ++ [o]) = along contribute [] h ++ contribute h o := by
  rw [along_append, along, along, List.append_nil, List.nil_append]

@[simp] theorem sites_snoc : sites (h ++ [o]) = sites h ++ sitesOf h o :=
  along_snoc h o sitesOf

@[simp] theorem marked_snoc : marked (h ++ [o]) = marked h ++ marksOf h o :=
  along_snoc h o marksOf

@[simp] theorem ticks_snoc : ticks (h ++ [o]) = ticks h + if o.isTick then 1 else 0 := by
  rw [ticks, List.countP_append, List.countP_singleton]
  rfl

@[simp] theorem recorded_snoc : recorded (h ++ [o]) = recorded h + o.numMeasurements := by
  rw [recorded, List.map_append, List.sum_append, List.map_singleton, List.sum_singleton]
  rfl

@[simp] theorem plane_snoc : plane (h ++ [o]) = (plane h).after o := by
  rw [plane, List.foldl_append]
  rfl

theorem sitesOf_of_not_producing {o : Operation} (hmeasure : o.kind.producesMeasurements = false) :
    sitesOf h o = [] := by
  rw [sitesOf, Operation.measured_of_not_producing hmeasure, List.map_nil]

theorem reached?_snoc_of_not_producing {o : Operation}
    (hmeasure : o.kind.producesMeasurements = false) (k : Int32) :
    reached? (h ++ [o]) k = reached? h k := by
  rw [reached?, recorded_snoc, Operation.numMeasurements, hmeasure]
  rfl

theorem lt_recorded_of_reached? {k : Int32} {j : Nat} (hj : reached? h k = some j) :
    j < h.recorded := by
  unfold reached? at hj
  split at hj
  · cases hj
    omega
  · cases hj

theorem marksOf_of_not_marking {o : Operation} (hmark : o.isMarking = false) : marksOf h o = [] := by
  rw [marksOf, hmark]
  rfl

theorem marksOf_of_lookbacks {o : Operation} (hkind : o.kind = .detector ∨ o.kind = .observableInclude)
    {ks : List Int32} (hks : o.lookbacks = .ok ks) : marksOf h o = ks.filterMap h.reached? := by
  rw [marksOf, if_pos (Operation.isMarking_iff.mpr hkind),
    Operation.filterMap_of_map_eq_some (o.lookbacks_eq_ok.mp hks)]

theorem lt_recorded_of_mem_marked (h : History) {i : Nat} (hi : i ∈ h.marked) : i < h.recorded := by
  induction h using List.reverseRecOn with
  | nil => cases hi
  | append_singleton past o ih =>
    rw [marked_snoc] at hi
    rw [recorded_snoc]
    rcases List.mem_append.mp hi with hi | hi
    · exact Nat.lt_add_right _ (ih hi)
    · unfold marksOf at hi
      split at hi
      · obtain ⟨k, -, hk⟩ := List.mem_filterMap.mp hi
        exact Nat.lt_add_right _ (lt_recorded_of_reached? past hk)
      · cases hi

@[simp] theorem length_sitesOf : (sitesOf h o).length = o.measured.length :=
  List.length_map ..

end History

end CircuitFrames
