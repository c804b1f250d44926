import CircuitFrames.Proofs.Diagram.Acceptance
import CircuitFrames.Proofs.Diagram.InTurn

/-!
# What is refused, and why

Whether a step fails, and with which error, is decided by the operation alone (`fault_step`): neither
the walk so far nor the style of the labels takes part in it. A walk then fails with the refusal of the
first executed operation that is refused, as that operation is refused when nothing stands before it
(`Walk.fails_with_first_refused`).
-/

namespace CircuitFrames

/-- The error, if there is one. -/
def fault? {ε α : Type} : Except ε α → Option ε
  | .ok _ => none
  | .error e => some e

section

variable {ε α β : Type} {x : Except ε α}

@[simp] theorem fault_ok (a : α) : fault? (.ok a : Except ε α) = none := rfl

@[simp] theorem fault_error (e : ε) : fault? (.error e : Except ε α) = some e := rfl

theorem fault_eq_some {e : ε} : fault? x = some e ↔ x = .error e := by
  cases x <;> simp

theorem fault_eq_none : fault? x = none ↔ ∃ a, x = .ok a := by
  cases x <;> simp

@[simp] theorem fault_map (f : α → β) : fault? (x.map f) = fault? x := by
  cases x <;> rfl

theorem fault_bind {f : α → Except ε β} {later : Option ε} (h : ∀ a, fault? (f a) = later) :
    fault? (x >>= f) = (fault? x).or later := by
  cases x with
  | error e => rfl
  | ok a => exact h a

end

namespace Walk

/-- Why an operation is refused when no other stands before it. -/
def refusal? (style : DetectorStyle) (o : Operation) : Option WalkError :=
  fault? (step style start o)

/-- Detectors have neither highlights nor coordinates. -/
def plainStyle : DetectorStyle :=
  ⟨fun _ => false, ∅⟩

variable (style : DetectorStyle) (w : Walk) (o : Operation)

/-- **A step fails alike in all states and all styles.** -/
theorem fault_step (style' : DetectorStyle) (w' : Walk) :
    fault? (step style w o) = fault? (step style' w' o) := by
  cases hkind : o.kind with
  | qubitCoords =>
    rw [step_declaration style hkind, step_declaration style' hkind]
    -- where coordinates are missing, no shift makes up for them
    by_cases hargs : o.args = []
    · rw [moved?_eq_none_iff.mpr hargs, moved?_eq_none_iff.mpr hargs]
    · have hplaced (s : PlaneShift) : ∃ g, s.moved? o.args = some g :=
        Option.ne_none_iff_exists'.mp (mt moved?_eq_none_iff.mp hargs)
      obtain ⟨g, hg⟩ := hplaced w.shift
      obtain ⟨g', hg'⟩ := hplaced w'.shift
      rw [hg, hg']
      simp only [fault_map]
  | detector =>
    rw [step_detector hkind, step_detector hkind]
    simp only [fault_map]
  | observableInclude =>
    rw [step_observable hkind, step_observable hkind]
    split <;> simp only [fault_map]
  | shiftCoords | tick | single | pair | pauliProduct | noise | unsupported =>
    unfold step
    simp only [hkind, fault_map, fault_ok]

theorem fault_step_eq_refusal (style' : DetectorStyle) :
    fault? (step style w o) = refusal? style' o :=
  fault_step style w o style' start

theorem fault_foldlM (style' : DetectorStyle) (ops : List Operation) :
    fault? (ops.foldlM (step style) w) = ops.findSome? (refusal? style') := by
  induction ops generalizing w with
  | nil => rfl
  | cons o ops ih =>
    rw [List.foldlM_cons, fault_bind fun u => ih u, fault_step_eq_refusal style w o style',
      List.findSome?_cons]
    cases refusal? style' o <;> rfl

theorem fault_of (style' : DetectorStyle) (c : Circuit) :
    fault? (Walk.of style c) = c.executed.findSome? (refusal? style') := by
  rw [Walk.of, Circuit.run_eq_foldlM]
  exact fault_foldlM style start style' c.executed

/-- **Whether an operation is accepted does not depend on what was walked before it.** A step, also
one that acts on each target before it reads the next, fails in all walks and styles alike. So a walk
fails if and only if one of the executed operations is refused when it stands alone, and it fails with
the refusal of the first of them; the style of the labels does not matter. -/
theorem fails_with_first_refused (c : Circuit) :
    (∀ o style' w w', fault? (stepInTurn style' w' o) = fault? (stepInTurn style w o)) ∧
      c.run (stepInTurn style) start = Walk.of style c ∧
      (∀ e, Walk.of style c = .error e ↔ ∃ before o after, c.executed = before ++ o :: after ∧
        (∀ p ∈ before, refusal? plainStyle p = none) ∧ refusal? plainStyle o = some e) ∧
      ((∃ w, Walk.of style c = .ok w) ↔ ∀ o ∈ c.executed, refusal? plainStyle o = none) := by
  refine ⟨fun o style' w w' => ?_, ?_, fun e => ?_, ?_⟩
  · rw [stepInTurn_eq_step, stepInTurn_eq_step]
    exact fault_step style' w' o style w
  · have hsteps : stepInTurn style = step style := by
      funext w o
      exact stepInTurn_eq_step style w o
    rw [hsteps, Walk.of]
  · rw [← fault_eq_some, fault_of style plainStyle c, List.findSome?_eq_some_iff]
    constructor
    · rintro ⟨before, o, after, hcut, hrefused, hfine⟩
      exact ⟨before, o, after, hcut, hfine, hrefused⟩
    · rintro ⟨before, o, after, hcut, hfine, hrefused⟩
      exact ⟨before, o, after, hcut, hrefused, hfine⟩
  · rw [← fault_eq_none, fault_of style plainStyle c, List.findSome?_eq_none_iff]

/-- The block runs at no time, so the missing coordinates are met before an operation without glyph. -/
example :
    let foo : Operation := ⟨"FOO", .unsupported, [], []⟩
    Walk.of plainStyle (.repeated 0 (.op foo .nil)
      (.op ⟨"QUBIT_COORDS", .qubitCoords, [.qubit 0 false], []⟩ (.op foo .nil))) =
      .error (.circuit (.invalidArguments "QUBIT_COORDS" .noCoordinates)) :=
  rfl

end Walk

end CircuitFrames
