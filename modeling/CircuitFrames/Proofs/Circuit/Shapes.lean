import CircuitFrames.Circuit.Shape
import CircuitFrames.Proofs.Circuit.Execution

/-!
# What the shapes of target lists are

Reading all targets of an operation in one shape succeeds exactly when every target has it
(`qubits_eq_ok`, `lookbacks_eq_ok`, `touched_eq_ok`).
-/

namespace CircuitFrames

namespace Target

/-- The qubit of a plain target. -/
def plain? : Target → Option Qubit
  | .qubit q _ => some q
  | _ => none

/-- The qubit and the basis of a Pauli target. -/
def factor? : Target → Option (Qubit × Pauli)
  | .pauli p q _ => some (q, p)
  | _ => none

end Target

namespace Operation

variable (op : Operation)

/-! ### One target -/

theorem qubitAt_eq_ok {i : Nat} {q : Qubit} :
    op.qubitAt i = .ok q ↔ op.targets[i]?.bind Target.plain? = some q := by
  unfold qubitAt
  split
  next q' b ht => simp [ht, Target.plain?]
  next hne =>
    cases ht : op.targets[i]? with
    | none => simp
    | some t => cases t <;> simp_all [Target.plain?]

theorem recordAt_eq_ok {i : Nat} {k : Int32} :
    op.recordAt i = .ok k ↔ op.targets[i]?.bind Target.offset? = some k := by
  unfold recordAt
  split
  next k' ht => simp [ht, Target.offset?]
  next hne =>
    cases ht : op.targets[i]? with
    | none => simp
    | some t => cases t <;> simp_all [Target.offset?]

theorem touchedAt_eq_ok {i : Nat} {q : Qubit} :
    op.touchedAt i = .ok q ↔ op.targets[i]?.bind Target.touched? = some q := by
  unfold touchedAt
  split
  next q' b ht => simp [ht, Target.touched?]
  next p q' b ht => simp [ht, Target.touched?]
  next hq hp =>
    cases ht : op.targets[i]? with
    | none => simp
    | some t => cases t <;> simp_all [Target.touched?]

theorem pauliAt_eq_ok {i : Nat} {f : Qubit × Pauli} :
    op.pauliAt i = .ok f ↔ op.targets[i]?.bind Target.factor? = some f := by
  unfold pauliAt
  split
  next p q b ht => simp [ht, Target.factor?]
  next hne =>
    cases ht : op.targets[i]? with
    | none => simp
    | some t => cases t <;> simp_all [Target.factor?]

/-! ### All targets in one shape -/

theorem mapM_range'_eq_ok {α : Type} {read : Nat → Except CircuitError α} {ts : List Target}
    {view : Target → Option α} (hread : ∀ i v, read i = .ok v ↔ ts[i]?.bind view = some v)
    {n k : Nat} (hn : n + k = ts.length) {vs : List α} :
    (List.range' n k).mapM read = .ok vs ↔ (ts.drop n).map view = vs.map some := by
  induction k generalizing n vs with
  | zero =>
    have hdrop : ts.drop n = [] := List.drop_eq_nil_of_le (by omega)
    rw [hdrop]
    cases vs with
    | nil => exact ⟨fun _ => rfl, fun _ => rfl⟩
    | cons v vs => constructor <;> intro h <;> cases h
  | succ k ih =>
    have hlt : n < ts.length := by omega
    rw [List.range'_succ, List.mapM_cons, bind_eq_ok, List.drop_eq_getElem_cons hlt, List.map_cons]
    have hhead : ∀ v, read n = .ok v ↔ view ts[n] = some v := by
      intro v
      rw [hread n v, List.getElem?_eq_getElem hlt, Option.bind_some]
    constructor
    · rintro ⟨v, hv, h⟩
      rw [bind_eq_ok] at h
      obtain ⟨rest, hrest, h⟩ := h
      cases h
      rw [(hhead v).mp hv, (ih (by omega)).mp hrest, List.map_cons]
    · intro h
      cases vs with
      | nil => cases h
      | cons v rest =>
        rw [List.map_cons, List.cons.injEq] at h
        refine ⟨v, (hhead v).mpr h.1, ?_⟩
        rw [bind_eq_ok]
        exact ⟨rest, (ih (by omega)).mpr h.2, rfl⟩

theorem mapM_positions_eq_ok {α : Type} {read : Nat → Except CircuitError α}
    {view : Target → Option α}
    (hread : ∀ i v, read i = .ok v ↔ op.targets[i]?.bind view = some v) {vs : List α} :
    op.positions.mapM read = .ok vs ↔ op.targets.map view = vs.map some := by
  rw [positions, List.range_eq_range', mapM_range'_eq_ok hread (by omega), List.drop_zero]

theorem qubits_eq_ok {qs : List Qubit} :
    op.qubits = .ok qs ↔ op.targets.map Target.plain? = qs.map some :=
  op.mapM_positions_eq_ok fun _ _ => op.qubitAt_eq_ok

theorem lookbacks_eq_ok {ks : List Int32} :
    op.lookbacks = .ok ks ↔ op.targets.map Target.offset? = ks.map some :=
  op.mapM_positions_eq_ok fun _ _ => op.recordAt_eq_ok

theorem record_mem_targets {ks : List Int32} (h : op.lookbacks = .ok ks) {k : Int32} (hk : k ∈ ks) :
    .record k ∈ op.targets := by
  have hmem : some k ∈ op.targets.map Target.offset? := by
    rw [op.lookbacks_eq_ok.mp h]
    exact List.mem_map_of_mem hk
  obtain ⟨t, ht, hoffset⟩ := List.mem_map.mp hmem
  cases t with
  | record k' =>
    cases hoffset
    exact ht
  | qubit | pauli | combiner => cases hoffset

theorem touched_eq_ok {qs : List Qubit} :
    op.touched = .ok qs ↔ op.targets.map Target.touched? = qs.map some :=
  op.mapM_positions_eq_ok fun _ _ => op.touchedAt_eq_ok

theorem filterMap_of_map_eq_some {α : Type} {view : Target → Option α} {ts : List Target}
    {vs : List α} (h : ts.map view = vs.map some) : ts.filterMap view = vs := by
  have := congrArg (List.filterMap id) h
  simpa [List.filterMap_map] using this

theorem length_of_map_eq_some {α : Type} {view : Target → Option α} {ts : List Target}
    {vs : List α} (h : ts.map view = vs.map some) : ts.length = vs.length := by
  simpa using congrArg List.length h

theorem countP_isCombiner_of_map_eq_some {α : Type} {view : Target → Option α}
    (hview : view .combiner = none) {ts : List Target} {vs : List α}
    (h : ts.map view = vs.map some) : ts.countP Target.isCombiner = 0 := by
  rw [List.countP_eq_zero]
  intro t ht hc
  have hmem : view t ∈ vs.map some := h ▸ List.mem_map_of_mem ht
  cases t with
  | combiner =>
    rw [hview] at hmem
    simp at hmem
  | _ => simp [Target.isCombiner] at hc

/-! ### Targets from a position on -/

theorem drop_of_getElem? {i : Nat} {t : Target} {ts rest : List Target}
    (h : ts.drop i = t :: rest) : ts[i]? = some t := by
  rw [← List.head?_drop, h]
  rfl

theorem drop_succ_of_drop {i : Nat} {t : Target} {ts rest : List Target}
    (h : ts.drop i = t :: rest) : ts.drop (i + 1) = rest := by
  rw [← List.drop_drop, h]
  rfl

end Operation

end CircuitFrames
