import CircuitFrames.Proofs.Circuit.Execution
import CircuitFrames.Proofs.Diagram.Books

/-!
# What a walk counts

A walk counts measurements, ticks and detectors one operation at a time (`tally_of_step`), while a
circuit multiplies through its blocks and takes the results of an operation from the number of its
targets. Both come to the same (`counts_agree`).
-/

namespace CircuitFrames

/-- The numbers of measurements, ticks and detectors so far. -/
@[ext]
structure Tally where
  measurements : Nat
  ticks : Nat
  detectors : Nat

namespace Tally

/-- The numbers after one more operation. -/
def after (t : Tally) (o : Operation) : Tally where
  measurements := t.measurements + o.numMeasurements
  ticks := t.ticks + if o.isTick then 1 else 0
  detectors := t.detectors + if o.isDetector then 1 else 0

/-- The numbers after more measurements. -/
def measured (t : Tally) (n : Nat) : Tally :=
  { t with measurements := t.measurements + n }

theorem foldl_after (t : Tally) (ops : List Operation) :
    ops.foldl after t =
      ⟨t.measurements + (ops.map Operation.numMeasurements).sum,
        t.ticks + (ops.map fun o => if o.isTick then 1 else 0).sum,
        t.detectors + (ops.map fun o => if o.isDetector then 1 else 0).sum⟩ := by
  induction ops generalizing t with
  | nil => rfl
  | cons o ops ih =>
    rw [List.foldl_cons, ih]
    simp only [after, List.map_cons, List.sum_cons, Nat.add_assoc]

theorem after_of_kind (t : Tally) {o : Operation} (htick : o.kind ≠ .tick)
    (hdetector : o.kind ≠ .detector) : t.after o = t.measured o.numMeasurements := by
  simp [after, measured, Operation.isTick, Operation.isDetector, htick, hdetector]

end Tally

namespace Walk

/-- The numbers that a walk keeps. -/
def tally (w : Walk) : Tally :=
  ⟨w.timeline.length, w.currentIndex, w.nextDetector⟩

variable (w : Walk)

/-! ### What counts nothing -/

theorem tally_foldl {α : Type} {f : Walk → α → Walk} (hf : ∀ w a, (f w a).tally = w.tally)
    (as : List α) : (as.foldl f w).tally = w.tally :=
  foldl_relates (R := fun s t : Walk => t.tally = s.tally) (fun _ => rfl) (fun _ _ _ h h' => h'.trans h) hf
    as w

theorem tally_onLayer (index : Nat) (f : Layer → Layer) : (w.onLayer index f).tally = w.tally := by
  unfold onLayer
  split
  · rfl
  · simp [tally, currentIndex]

theorem tally_drawPair (gate : PairGate) (action : PairAction) :
    (w.drawPair gate action).tally = w.tally := by
  cases action <;> rfl

theorem tally_markLookback (look : LabelStyle) (name : String) (k : Int32) :
    (markLookback look name w k).tally = w.tally :=
  markLookback_relates (R := fun s t => t.tally = s.tally) (fun _ _ _ h h' => h'.trans h)
    (fun _ _ _ => rfl) (fun w owner _ _ => w.tally_onLayer owner _) name w k

/-! ### What counts -/

theorem tally_measure (q : Qubit) : (w.measure q).tally = w.tally.measured 1 := by
  simp [tally, Tally.measured, measure, Timeline.length, Timeline.push, currentIndex]

theorem tally_foldl_measure (qs : List Qubit) :
    (qs.foldl measure w).tally = w.tally.measured qs.length := by
  induction qs generalizing w with
  | nil => rfl
  | cons q qs ih =>
    rw [List.foldl_cons, ih, tally_measure]
    simp only [Tally.measured, List.length_cons]
    congr 1
    omega

theorem tally_drawSingles (gate : SingleGate) (qs : List Qubit) :
    (w.drawSingles gate qs).tally =
      w.tally.measured (if gate.isMeasurement then qs else []).length := by
  have hboxes (w : Walk) : (qs.foldl (·.drawBox gate ·) w).tally = w.tally :=
    w.tally_foldl (f := (·.drawBox gate ·)) (fun _ _ => rfl) qs
  unfold drawSingles
  rw [hboxes]
  cases gate.isMeasurement with
  | true => exact w.tally_foldl_measure qs
  | false => rfl

theorem tally_drawProduct {factors : List (Qubit × Pauli)} (h : factors ≠ []) :
    (w.drawProduct factors).tally = w.tally.measured 1 := by
  cases factors with
  | nil => exact absurd rfl h
  | cons f factors => exact w.tally_measure f.1

theorem tally_foldl_drawProduct {ps : List (List (Qubit × Pauli))}
    (h : ∀ factors ∈ ps, factors ≠ []) :
    (ps.foldl drawProduct w).tally = w.tally.measured ps.length := by
  induction ps generalizing w with
  | nil => rfl
  | cons factors ps ih =>
    obtain ⟨hfactors, hps⟩ := List.forall_mem_cons.mp h
    rw [List.foldl_cons, ih _ hps, tally_drawProduct _ hfactors]
    simp only [Tally.measured, List.length_cons]
    congr 1
    omega

/-! ### Steps and runs -/

variable {w}

/-- **What one operation counts**, in whatever state it is met. -/
theorem tally_of_step {style : DetectorStyle} {o : Operation} {w' : Walk}
    (h : step style w o = .ok w') : w'.tally = w.tally.after o := by
  have hnone (hmeasure : o.kind.producesMeasurements = false) : o.numMeasurements = 0 := by
    simp [Operation.numMeasurements, hmeasure]
  cases stepped_of_step h with
  | declared kind | shifted kind =>
    rw [w.tally.after_of_kind (by simp [kind]) (by simp [kind]), hnone (by rw [kind]; rfl)]
    rfl
  | @singles gate qs kind read =>
    rw [w.tally.after_of_kind (by simp [kind]) (by simp [kind]), tally_drawSingles,
      ← Operation.length_measured_single kind read, Operation.measured_single kind read]
  | pairs kind =>
    rw [w.tally.after_of_kind (by simp [kind]) (by simp [kind]), hnone (by rw [kind]; rfl)]
    exact w.tally_foldl (fun w action => w.tally_drawPair _ action) _
  | @products ps kind read =>
    rw [w.tally.after_of_kind (by simp [kind]) (by simp [kind]),
      tally_foldl_drawProduct _ (o.ne_nil_of_products read), ← o.length_of_products read,
      Operation.numMeasurements, kind]
    rfl
  | ticked kind =>
    simp [tally, Tally.after, advance, currentIndex, Operation.isTick, Operation.isDetector, kind,
      hnone (show o.kind.producesMeasurements = false by rw [kind]; rfl)]
  | @marking ks kind read =>
    have hmarked : (markedUpTo style w o ks).tally = (opened w o).tally :=
      tally_foldl _ (fun w k => w.tally_markLookback _ _ k) _
    rw [hmarked]
    rcases kind with kind | kind <;>
      simp [tally, Tally.after, opened, Operation.isTick, Operation.isDetector, kind,
        hnone (show o.kind.producesMeasurements = false by rw [kind]; rfl), currentIndex]
  | @noted channel qs kind =>
    rw [w.tally.after_of_kind (by simp [kind]) (by simp [kind]), hnone (by rw [kind]; rfl)]
    exact w.tally_foldl (f := noteNoise channel) (fun _ _ => rfl) qs

theorem tally_of_foldlM {style : DetectorStyle} {ops : List Operation} {w' : Walk}
    (h : ops.foldlM (step style) w = .ok w') : w'.tally = ops.foldl Tally.after w.tally := by
  induction ops generalizing w with
  | nil => cases h; rfl
  | cons o ops ih =>
    rw [List.foldlM_cons, bind_eq_ok] at h
    obtain ⟨v, ho, h⟩ := h
    rw [ih h, tally_of_step ho, List.foldl_cons]

/-- **The counts of a circuit are those of its walk**: as many measurements, detectors and layers
as the circuit says. In whatever state an operation is accepted, it records as many measurements as
its targets less two for each combiner. -/
theorem counts_agree {style : DetectorStyle} {c : Circuit} (h : Walk.of style c = .ok w) :
    w.timeline.length = c.numMeasurements ∧ w.nextDetector = c.numDetectors ∧
      w.layers.size = c.numTicks + 1 ∧
      ∀ (s t : Walk) (o : Operation), step style s o = .ok t →
        t.timeline.length = s.timeline.length + o.numMeasurements := by
  rw [Walk.of, Circuit.run_eq_foldlM] at h
  have htally := tally_of_foldlM h
  rw [Tally.foldl_after] at htally
  refine ⟨?_, ?_, ?_, ?_⟩
  · rw [Circuit.numMeasurements, Circuit.total_eq_sum]
    simpa [tally, start, Timeline.length, Timeline.empty] using congrArg Tally.measurements htally
  · rw [Circuit.numDetectors, Circuit.total_eq_sum]
    simpa [tally, start] using congrArg Tally.detectors htally
  · rw [size_layers, Circuit.numTicks, Circuit.total_eq_sum]
    simpa [tally, start, currentIndex] using congrArg Tally.ticks htally
  · intro s t o hstep
    exact congrArg Tally.measurements (tally_of_step hstep)

/-- Products in blocks, one of which never runs. -/
theorem counts_agree_products :
    let product : Operation := ⟨"MPP", .pauliProduct,
      [.pauli .x 0 false, .combiner, .pauli .z 1 true, .pauli .y 2 false], []⟩
    let tick : Operation := ⟨"TICK", .tick, [], []⟩
    let detector : Operation := ⟨"DETECTOR", .detector, [.record (-1), .record (-9)], []⟩
    let c : Circuit := .repeated 3 (.op product (.repeated 0 (.op product .nil)
      (.repeated 2 (.op tick .nil) (.op detector .nil)))) .nil
    ∃ w, Walk.of ⟨fun _ => false, ∅⟩ c = .ok w ∧ c.numMeasurements = 6 ∧
      w.timeline.length = c.numMeasurements ∧ w.nextDetector = c.numDetectors ∧
      w.layers.size = c.numTicks + 1 := by
  intro product tick detector c
  obtain ⟨w, hw⟩ : ∃ w, Walk.of ⟨fun _ => false, ∅⟩ c = .ok w := ⟨_, rfl⟩
  obtain ⟨hmeasurements, hdetectors, hlayers, -⟩ := counts_agree hw
  exact ⟨w, hw, by decide, hmeasurements, hdetectors, hlayers⟩

end Walk

end CircuitFrames
