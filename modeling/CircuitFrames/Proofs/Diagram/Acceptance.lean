import CircuitFrames.Proofs.Circuit.Building
import CircuitFrames.Proofs.Diagram.Highlight

/-!
# Which circuits are drawn

A step fails only on an operation that is not in shape, whatever was drawn before (`exists_step_iff`).
So a circuit renders under sensible settings exactly if all operations that run are in shape
(`exists_render_iff`), as they are in whatever the builders built (`built_circuits_render`).
-/

namespace CircuitFrames

namespace Walk

variable {style : DetectorStyle} {w : Walk} {o : Operation}

theorem moved?_eq_none_iff {s : PlaneShift} {coords : List Float} :
    s.moved? coords = none ↔ coords = [] := by
  match coords with
  | [] => exact ⟨fun _ => rfl, fun _ => rfl⟩
  | [_] | _ :: _ :: _ => exact ⟨nofun, nofun⟩

/-- **A step succeeds exactly on operations in shape**, in whatever state and style. -/
theorem exists_step_iff : (∃ w', step style w o = .ok w') ↔ o.InShape := by
  unfold Operation.InShape
  cases hkind : o.kind with
  | qubitCoords =>
    rw [step_declaration style hkind]
    cases hplace : w.shift.moved? o.args with
    | none =>
      rw [moved?_eq_none_iff] at hplace
      exact ⟨nofun, fun h => absurd hplace h.1⟩
    | some g =>
      have hargs : o.args ≠ [] := by
        rw [Ne, ← moved?_eq_none_iff (s := w.shift), hplace]
        exact nofun
      exact exists_readable_map.trans ⟨fun h => ⟨hargs, h⟩, fun h => h.2⟩
  | detector =>
    rw [step_detector hkind]
    exact exists_readable_map
  | observableInclude =>
    rw [step_observable hkind]
    cases o.observableIndex with
    | error e => exact ⟨nofun, fun h => nomatch h.1⟩
    | ok index => exact exists_readable_map.trans ⟨fun h => ⟨⟨index, rfl⟩, h⟩, fun h => h.2⟩
  | shiftCoords | tick =>
    unfold step
    rw [hkind]
    exact ⟨fun _ => trivial, fun _ => ⟨_, rfl⟩⟩
  | single | pair | pauliProduct | noise =>
    unfold step
    rw [hkind]
    exact exists_readable_map
  | unsupported =>
    unfold step
    rw [hkind]
    exact ⟨nofun, nofun⟩

theorem exists_foldlM_iff {ops : List Operation} :
    (∃ w', ops.foldlM (step style) w = .ok w') ↔ ∀ o ∈ ops, o.InShape := by
  induction ops generalizing w with
  | nil => exact ⟨fun _ => nofun, fun _ => ⟨w, rfl⟩⟩
  | cons o ops ih =>
    have hstep : (∃ w', step style w o = .ok w') ↔ o.InShape := exists_step_iff
    rw [List.foldlM_cons, List.forall_mem_cons, ← hstep]
    cases step style w o with
    | error e => exact ⟨nofun, fun h => nomatch h.1⟩
    | ok u => exact ih.trans ⟨fun h => ⟨⟨u, rfl⟩, h⟩, fun h => h.2⟩

theorem exists_of_iff {c : Circuit} : (∃ w, Walk.of style c = .ok w) ↔ c.InShape := by
  rw [Walk.of, Circuit.run_eq_foldlM]
  exact exists_foldlM_iff

end Walk

section

variable {config : Config} (hconfig : config.validate = .ok config) (known : Option FaultMechanism)
  (search : Option FaultSearch)

include hconfig

theorem exists_render_iff {c : Circuit} :
    (∃ r, render config c known search = .ok r) ↔ c.InShape := by
  constructor
  · rintro ⟨r, hr⟩
    obtain ⟨style, w, hw, -⟩ := exists_walk_of_render hr
    exact Walk.exists_of_iff.mp ⟨w, hw⟩
  · intro h
    obtain ⟨w, hw⟩ := Walk.exists_of_iff.mpr h
    obtain ⟨r, hr, -⟩ := render_of_walk_ok hconfig hw
    exact ⟨r, hr⟩

/-- **What the builders build renders.** A call that is refused leaves the circuit as it was, and any
other adds one operation or block behind all that is there. After any calls, refused ones passed over,
with blocks whose bodies were built in the same way, the circuit renders under all sensible settings
and every fault mechanism. -/
theorem built_circuits_render (s : Circuit.Script) :
    (∀ (k : Circuit.Call) (c : Circuit), Circuit.AddsOne k.on c) ∧
      (∀ (count : UInt64) (body c : Circuit), Circuit.AddsOne (·.repeatBlock count body) c) ∧
      ∃ r, render config (s.build .nil) known search = .ok r := by
  refine ⟨fun k c => k.adds.addsOne c, fun count body c => ?_, ?_⟩
  · exact (Circuit.repeatBlock_adds (P := fun _ => True) count body trivial).addsOne c
  · exact (exists_render_iff hconfig known search).mpr (Circuit.inShape_nil.build s)

end

/-- A product, and a block in a block; a gate on an odd number of qubits, a lookback that does not look
back and a block that runs at no time are refused. -/
theorem built_circuits_render_nested :
    let round : Circuit.Script := .call (.measureProducts [[(.x, 0), (.z, 1)], [(.y, 2)]])
      (.call (.gate "CX" [0, 1, 2]) (.call (.detector [-1, -2] [0, 1]) (.call .tick .done)))
    let s : Circuit.Script := .call (.qubitCoords 0 [3]) (.call (.detector [0] [])
      (.block 2 (.block 3 round (.call (.noise "DEPOLARIZE1" 0.5 [⟨.qubit 1 false, rfl⟩]) .done))
        (.block 0 round (.call (.observableInclude 4294967295 [-1]) .done))))
    Config.default.validate = .ok .default ∧ (s.build .nil).length = 3 ∧
      ∃ r, render .default (s.build .nil) none none = .ok r := by
  intro round s
  exact ⟨rfl, by decide +kernel, (built_circuits_render rfl none none s).2.2⟩

end CircuitFrames
