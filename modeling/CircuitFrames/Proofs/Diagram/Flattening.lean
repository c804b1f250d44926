import CircuitFrames.Diagram.Render
import CircuitFrames.Proofs.Circuit.Shift
import CircuitFrames.Proofs.Diagram.Step

/-!
# Flat circuits are drawn alike

A walk uses its shift only to place qubits, so the walk over the operations into which the shifts
were folded keeps up with the walk over the operations as they are, without a shift of its own
(`foldlM_foldShifts`). All else that a rendering reads is the same for the flat circuit, and so is
the rendering (`render_flattened`).
-/

namespace CircuitFrames

open Numeral (Addable)

namespace Walk

/-- The walk under another shift. -/
def reshift (s : PlaneShift) (w : Walk) : Walk :=
  { w with shift := s }

/-! ### What does not use the shift -/

theorem unseen_reshift (s : PlaneShift) : Unseen (reshift s) where
  declare _ _ _ := rfl
  measure _ _ := rfl
  drawBox _ _ _ := rfl
  drawPair _ _ action := by cases action <;> rfl
  drawProduct _ factors := by cases factors <;> rfl
  advance _ := rfl
  noteNoise _ _ _ := rfl

variable (s : PlaneShift) (w : Walk)

theorem onLayer_reshift (index : Nat) (f : Layer → Layer) :
    (w.reshift s).onLayer index f = (w.onLayer index f).reshift s := by
  show (if index = w.currentIndex then _ else _) = (if index = w.currentIndex then _ else _ : Walk).reshift s
  split <;> rfl

theorem markLookback_reshift (look : LabelStyle) (name : String) (k : Int32) :
    markLookback look name (w.reshift s) k = (markLookback look name w k).reshift s := by
  have htimeline : (w.reshift s).timeline = w.timeline := rfl
  unfold markLookback
  rw [htimeline]
  cases w.timeline.resolve? k.toInt with
  | none => rfl
  | some index =>
    dsimp only
    cases w.timeline.layerOf? index with
    | none => rfl
    | some owner =>
      exact onLayer_reshift s { w with labels := w.labels.insert index (w.labels.getD index 0 + 1) }
        owner _

theorem markedUpTo_reshift (style : DetectorStyle) (o : Operation) (ks : List Int32) :
    markedUpTo style (w.reshift s) o ks = (markedUpTo style w o ks).reshift s := by
  have hopened : opened (w.reshift s) o = (opened w o).reshift s := by
    unfold opened
    split <;> rfl
  unfold markedUpTo
  rw [hopened]
  exact List.foldl_hom _ fun w k => markLookback_reshift s w _ _ k

theorem step_reshift (style : DetectorStyle) {o : Operation} (hqubit : o.kind ≠ .qubitCoords)
    (hshift : o.kind ≠ .shiftCoords) :
    step style (w.reshift s) o = (step style w o).map (reshift s) := by
  cases hmark : o.isMarking with
  | false => exact (unseen_reshift s).step style style w hqubit hshift hmark
  | true => exact step_of_marking hmark (markedUpTo_reshift s w style o)

variable {s w}

theorem shift_of_step {style : DetectorStyle} {o : Operation} (hshift : o.kind ≠ .shiftCoords)
    {w' : Walk} (h : step style w o = .ok w') : w'.shift = w.shift := by
  by_cases hqubit : o.kind = .qubitCoords
  · rw [step_declaration style hqubit] at h
    cases hg : w.shift.moved? o.args with
    | none =>
      rw [hg] at h
      cases h
    | some g =>
      rw [hg] at h
      obtain ⟨qs, -, rfl⟩ := readable_map_eq_ok.mp h
      rfl
  · have hself := step_reshift w.shift w style hqubit hshift
    have hsame : w.reshift w.shift = w := rfl
    rw [hsame, h] at hself
    have hw : w' = w'.reshift w.shift := Except.ok.inj hself
    rw [hw]
    rfl

/-! ### Keeping up -/

theorem step_moved (style : DetectorStyle) {shift : ShiftVector} (h : shift.Settled) {o : Operation}
    (hfinite : ∀ a ∈ o.args, a.isFinite = true)
    (hplane : o.kind = .qubitCoords → o.args.length ≠ 1)
    (hkind : o.kind = .qubitCoords ∨ o.kind = .detector) (hw : w.shift = shift.plane) :
    step style (w.reshift .zero) { o with args := shift.move o.args } =
      (step style w o).map (reshift .zero) := by
  rcases hkind with hkind | hkind
  · rw [step_declaration style hkind,
      step_declaration style (o := { o with args := shift.move o.args }) hkind]
    have hplain : (w.reshift .zero).shift = .zero := rfl
    rw [hplain, ShiftVector.moved?_move h (hplane hkind) hfinite, ← hw]
    cases w.shift.moved? o.args with
    | none => rfl
    | some g => exact readable_map_map fun qs => rfl
  · -- a detector draws nothing that depends on its own coordinates
    have hmarked : markedUpTo style (w.reshift .zero) { o with args := shift.move o.args } =
        markedUpTo style (w.reshift .zero) o := by
      funext ks
      unfold markedUpTo lookOf
      rw [if_pos hkind, if_pos hkind]
      rfl
    have hargs : step style (w.reshift .zero) { o with args := shift.move o.args } =
        step style (w.reshift .zero) o := by
      rw [step_detector hkind, step_detector (o := { o with args := shift.move o.args }) hkind,
        hmarked]
      rfl
    have hqubit : o.kind ≠ .qubitCoords := by rw [hkind]; decide
    have hshift : o.kind ≠ .shiftCoords := by rw [hkind]; decide
    rw [hargs, step_reshift .zero w style hqubit hshift]

/-- The walk over folded operations keeps up with the walk over the operations themselves. -/
theorem foldlM_foldShifts (style : DetectorStyle) {shift : ShiftVector} (h : shift.Settled)
    {ops : List Operation} (hfinite : ∀ o ∈ ops, ∀ a ∈ o.args, a.isFinite = true)
    (hplane : ∀ o ∈ ops, o.kind = .qubitCoords → o.args.length ≠ 1) (hw : w.shift = shift.plane) :
    (Circuit.foldShifts shift ops).foldlM (step style) (w.reshift .zero) =
      (ops.foldlM (step style) w).map (reshift .zero) := by
  induction ops generalizing shift w with
  | nil => rfl
  | cons o ops ih =>
    obtain ⟨ho, hfinite⟩ := List.forall_mem_cons.mp hfinite
    obtain ⟨hlength, hplane⟩ := List.forall_mem_cons.mp hplane
    -- both walks take one step, and go on if it succeeds
    have hcons (o' : Operation) (hshift : o.kind ≠ .shiftCoords)
        (hstep : step style (w.reshift .zero) o' = (step style w o).map (reshift .zero)) :
        (o' :: Circuit.foldShifts shift ops).foldlM (step style) (w.reshift .zero) =
          ((o :: ops).foldlM (step style) w).map (reshift .zero) := by
      rw [List.foldlM_cons, List.foldlM_cons, hstep]
      cases hw' : step style w o with
      | error e => rfl
      | ok w' => exact ih h hfinite hplane ((shift_of_step hshift hw').trans hw)
    rw [Circuit.foldShifts_cons]
    split
    next hshift =>
      rw [List.foldlM_cons, step_shift style hshift]
      refine ih (w := { w with shift := w.shift.accumulate o.args }) (h.accumulate ho) hfinite hplane ?_
      rw [← ShiftVector.accumulate_plane h ho, ← hw]
    next hshift =>
      split
      next hmoved => exact hcons _ hshift (step_moved style h ho hlength hmoved hw)
      next hmoved =>
        rw [not_or] at hmoved
        exact hcons o hshift (step_reshift .zero w style hmoved.1 hshift)

theorem of_flattened (style : DetectorStyle) {c : Circuit}
    (hfinite : ∀ o ∈ c.executed, ∀ a ∈ o.args, a.isFinite = true)
    (hplane : ∀ o ∈ c.executed, o.kind = .qubitCoords → o.args.length ≠ 1) :
    Walk.of style c.flattened = (Walk.of style c).map (reshift .zero) := by
  rw [Walk.of, Walk.of, Circuit.run_eq_foldlM, Circuit.run_eq_foldlM, Circuit.executed_flattened]
  exact foldlM_foldShifts (w := start) style ShiftVector.settled_nil hfinite hplane rfl

end Walk

/-! ### Renderings -/

theorem editorLink_flattened {c : Circuit}
    (hfinite : ∀ o ∈ c.executed, ∀ a ∈ o.args, a.isFinite = true) :
    editorLink c.flattened = editorLink c := by
  funext base
  rw [editorLink, editorOperations, Circuit.flattened_flattened hfinite]
  rfl

theorem resolve_of_no_search (c d : Circuit) (known : Option FaultMechanism) :
    Overlay.resolve c known none = Overlay.resolve d known none := by
  cases known <;> rfl

/-- **Flattening preserves rendering.** Unless a coordinate is infinite or no number, or a qubit is
placed by a single coordinate, the flat circuit and the circuit itself give the same error, or the
same frames, editor link and events. -/
theorem render_flattened (config : Config) (c : Circuit) (known : Option FaultMechanism)
    (hfinite : ∀ o ∈ c.executed, ∀ a ∈ o.args, a.isFinite = true)
    (hplane : ∀ o ∈ c.executed, o.kind = .qubitCoords → o.args.length ≠ 1) :
    render config c.flattened known none = render config c known none := by
  unfold render
  cases config.validate with
  | error e => rfl
  | ok config =>
    have hstyle (overlay : Overlay) :
        DetectorStyle.of config overlay c.flattened = DetectorStyle.of config overlay c := by
      unfold DetectorStyle.of
      rw [Circuit.detectorCoordinates_flattened hfinite]
    rw [resolve_of_no_search c.flattened c known]
    dsimp only
    rw [hstyle, Walk.of_flattened _ hfinite hplane, editorLink_flattened hfinite]
    cases Walk.of (DetectorStyle.of config (Overlay.resolve c known none).1 c) c with
    | error e => rfl
    | ok w => rfl

/-- A block that shifts carries its shift from round to round; unrolled, its declarations carry it. -/
theorem render_flattened_rounds :
    let round : Circuit := .ofOperations
      [⟨"QUBIT_COORDS", .qubitCoords, [.qubit 0 false], [1, 2]⟩,
        ⟨"M", .single .m, [.qubit 0 false], []⟩,
        ⟨"DETECTOR", .detector, [.record (-1)], [3]⟩,
        ⟨"SHIFT_COORDS", .shiftCoords, [], [0, -1, 4]⟩,
        ⟨"TICK", .tick, [], []⟩]
    let c : Circuit := .repeated 3 round .nil
    (∀ o ∈ c.executed, ∀ a ∈ o.args, a.isFinite = true) ∧
      (∀ o ∈ c.executed, o.kind = .qubitCoords → o.args.length ≠ 1) ∧
      render .default c.flattened none none = render .default c none none := by
  intro round c
  have hfinite : ∀ o ∈ c.executed, ∀ a ∈ o.args, a.isFinite = true := by decide
  have hplane : ∀ o ∈ c.executed, o.kind = .qubitCoords → o.args.length ≠ 1 := by decide
  exact ⟨hfinite, hplane, render_flattened .default c none hfinite hplane⟩

end CircuitFrames
