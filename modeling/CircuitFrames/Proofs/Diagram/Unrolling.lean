import CircuitFrames.Diagram.Walk
import CircuitFrames.Proofs.Circuit.Execution
import CircuitFrames.Text.Printer

/-!
# Unrolling a block

A block may be written out: as often as it is repeated, its body stands in its place (`Unrolls`), at
the top of a circuit or inside other blocks. The operations are executed in the same order
(`Unrolls.executed_eq`), and everything that is computed from a circuit comes down to that order, so
nothing tells the two circuits apart (`unrolling_is_unobservable`).
-/

namespace CircuitFrames

namespace Circuit

/-- A circuit a number of times in a row. -/
def copies : Nat → Circuit → Circuit
  | 0, _ => nil
  | n + 1, c => c ++ copies n c

/-- One block, at any depth, is replaced by copies of its body. -/
inductive Unrolls : Circuit → Circuit → Prop
  | here (n : UInt64) (body rest : Circuit) :
    Unrolls (repeated n body rest) (copies n.toNat body ++ rest)
  | behindOperation {rest rest' : Circuit} (o : Operation) (h : Unrolls rest rest') :
    Unrolls (op o rest) (op o rest')
  | inside {body body' : Circuit} (n : UInt64) (rest : Circuit) (h : Unrolls body body') :
    Unrolls (repeated n body rest) (repeated n body' rest)
  | behindBlock {rest rest' : Circuit} (n : UInt64) (body : Circuit) (h : Unrolls rest rest') :
    Unrolls (repeated n body rest) (repeated n body rest')

theorem executed_copies (n : Nat) (c : Circuit) :
    (copies n c).executed = (List.replicate n c.executed).flatten := by
  induction n with
  | zero => rfl
  | succ n ih => rw [copies, executed_append, ih, List.replicate_succ, List.flatten_cons]

variable {c d : Circuit}

theorem Unrolls.executed_eq (h : Unrolls c d) : d.executed = c.executed := by
  induction h with
  | here n body rest => rw [executed_append, executed_copies, executed_repeated]
  | behindOperation o _ ih => rw [executed, executed, ih]
  | inside n rest _ ih => rw [executed_repeated, executed_repeated, ih]
  | behindBlock n body _ ih => rw [executed_repeated, executed_repeated, ih]

theorem total_eq_of_executed_eq (h : d.executed = c.executed) (weight : Operation → Nat) :
    d.total weight = c.total weight := by
  rw [total_eq_sum, total_eq_sum, h]

theorem run_eq_of_executed_eq {ε σ : Type} (h : d.executed = c.executed)
    (step : σ → Operation → Except ε σ) (s : σ) : d.run step s = c.run step s := by
  rw [run_eq_foldlM, run_eq_foldlM, h]

theorem flattened_eq_of_executed_eq (h : d.executed = c.executed) : d.flattened = c.flattened := by
  rw [flattened, flattened, h]

/-- **Unrolling is unobservable.** When a block at any depth is replaced by as many copies of its body
as it is repeated, the counts, the coordinates of the detectors, the flat circuit and the link to the
editor stay the same, and so does the walk: it ends in the same state, with the same layers,
coordinates, corrections, notes, counters and events, or in the same error. -/
theorem unrolling_is_unobservable (h : Unrolls c d) :
    d.numMeasurements = c.numMeasurements ∧ d.numDetectors = c.numDetectors ∧
      d.numTicks = c.numTicks ∧ d.detectorCoordinates = c.detectorCoordinates ∧
      d.flattened = c.flattened ∧ (∀ base, editorLink d base = editorLink c base) ∧
      ∀ style, Walk.of style d = Walk.of style c := by
  have hexecuted := h.executed_eq
  have htotal := total_eq_of_executed_eq hexecuted
  have hflattened := flattened_eq_of_executed_eq hexecuted
  refine ⟨htotal _, htotal _, htotal _, ?_, hflattened, ?_, ?_⟩
  · rw [detectorCoordinates, detectorCoordinates, hexecuted]
  · intro base
    rw [editorLink, editorLink, editorOperations, editorOperations, hflattened]
  · intro style
    exact run_eq_of_executed_eq hexecuted (Walk.step style) Walk.start

/-- A block in a block, behind a shift that grows from round to round. -/
theorem unrolling_inside_a_block :
    let shift : Operation := ⟨"SHIFT_COORDS", .shiftCoords, [], [1, 0, 2]⟩
    let measure : Operation := ⟨"M", .single .m, [.qubit 0 false], []⟩
    let detector : Operation := ⟨"DETECTOR", .detector, [.record (-1)], [0, 5]⟩
    let tick : Operation := ⟨"TICK", .tick, [], []⟩
    let c : Circuit := .repeated 3 (.op shift (.repeated 2 (.op measure (.op tick .nil))
      (.op detector .nil))) (.op tick .nil)
    let d : Circuit := .repeated 3 (.op shift (.op measure (.op tick (.op measure (.op tick
      (.op detector .nil)))))) (.op tick .nil)
    Unrolls c d ∧ d.numMeasurements = c.numMeasurements ∧ d.numDetectors = c.numDetectors ∧
      d.numTicks = c.numTicks ∧ d.detectorCoordinates = c.detectorCoordinates ∧
      d.flattened = c.flattened ∧ (∀ base, editorLink d base = editorLink c base) ∧
      ∀ style, Walk.of style d = Walk.of style c := by
  intro shift measure detector tick c d
  have h : Unrolls c d := .inside 3 _ (.behindOperation shift (.here 2 _ _))
  exact ⟨h, unrolling_is_unobservable h⟩

end Circuit

end CircuitFrames
