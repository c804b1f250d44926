import CircuitFrames.Circuit.Flatten
import CircuitFrames.Layout.Coordinates
import CircuitFrames.Proofs.Numeral.Sum

/-!
# Folded shifts

The shift that flattening folds away has as many dimensions as it was ever given, the shift of the
drawing has two. On finite coordinates the first two components of the one are the other
(`accumulate_plane`, `moved?_move`), and coordinates that were moved once are not moved again
(`foldShifts_foldShifts`, `numberedCoordinates_foldShifts`).
-/

namespace CircuitFrames

open Numeral (Addable)

namespace AxisPlace

theorem known_add_known {a b : Float} (h : (a + b).isNaN = false) :
    known a + known b = known (a + b) := by
  show (if (a + b).isNaN ∧ ¬a.isNaN ∧ ¬b.isNaN then lost else known (a + b)) = _
  rw [if_neg]
  rintro ⟨hab, -⟩
  rw [h] at hab
  cases hab

end AxisPlace

namespace ShiftVector

/-- The components of a shift that is made of finite deltas: more can be added to each of them. -/
def Settled (shift : ShiftVector) : Prop :=
  ∀ s ∈ shift, Addable s

/-- The shift in the plane: the first two components. -/
def plane (shift : ShiftVector) : PlaneShift :=
  ⟨.known (shift.getD 0 0), .known (shift.getD 1 0)⟩

variable {shift : ShiftVector}

theorem getD_of_forall_mem {P : Float → Prop} (hzero : P 0) (h : ∀ s ∈ shift, P s) (i : Nat) :
    P (shift.getD i 0) := by
  rw [List.getD_eq_getElem?_getD]
  cases hi : shift[i]? with
  | none => exact hzero
  | some s => exact h s (List.mem_of_getElem? hi)

theorem forall_mem_accumulate {P Q : Float → Prop} (hzero : P 0)
    (hadd : ∀ s d, P s → Q d → P (s + d)) (h : ∀ s ∈ shift, P s) {deltas : List Float}
    (hdeltas : ∀ d ∈ deltas, Q d) : ∀ s ∈ shift.accumulate deltas, P s := by
  induction shift, deltas using accumulate.induct with
  | case1 shift =>
    rw [accumulate]
    exact h
  | case2 d deltas ih =>
    rw [List.forall_mem_cons] at hdeltas
    rw [accumulate]
    exact List.forall_mem_cons.mpr ⟨hadd 0 d hzero hdeltas.1, ih nofun hdeltas.2⟩
  | case3 s shift d deltas ih =>
    rw [List.forall_mem_cons] at h hdeltas
    rw [accumulate]
    exact List.forall_mem_cons.mpr ⟨hadd s d h.1 hdeltas.1, ih h.2 hdeltas.2⟩

theorem settled_nil : Settled [] := nofun

theorem Settled.getD (h : shift.Settled) (i : Nat) : Addable (shift.getD i 0) :=
  getD_of_forall_mem Numeral.addable_zero h i

theorem Settled.accumulate (h : shift.Settled) {deltas : List Float}
    (hdeltas : ∀ d ∈ deltas, d.isFinite = true) : (shift.accumulate deltas).Settled :=
  forall_mem_accumulate Numeral.addable_zero (fun _ _ => .add) h hdeltas

theorem Settled.move (h : shift.Settled) {coords : List Float}
    (hcoords : ∀ c ∈ coords, c.isFinite = true) : Settled (shift.move coords) := by
  induction shift, coords using move.induct with
  | case1 shift =>
    rw [ShiftVector.move]
    exact settled_nil
  | case2 c coords ih =>
    rw [List.forall_mem_cons] at hcoords
    rw [ShiftVector.move]
    exact List.forall_mem_cons.mpr
      ⟨Numeral.addable_zero.add_left hcoords.1, ih settled_nil hcoords.2⟩
  | case3 s shift c coords ih =>
    rw [List.forall_mem_cons] at hcoords
    obtain ⟨hs, hshift⟩ := List.forall_mem_cons.mp h
    rw [ShiftVector.move]
    exact List.forall_mem_cons.mpr ⟨hs.add_left hcoords.1, ih hshift hcoords.2⟩

theorem move_nil_of_settled {coords : List Float} (h : Settled coords) : move [] coords = coords := by
  induction coords with
  | nil => rfl
  | cons c coords ih =>
    obtain ⟨hc, hcoords⟩ := List.forall_mem_cons.mp h
    rw [move, Numeral.add_zero_eq hc.signed, ih hcoords]

theorem Settled.move_move (h : shift.Settled) {coords : List Float}
    (hcoords : ∀ c ∈ coords, c.isFinite = true) :
    ShiftVector.move [] (shift.move coords) = shift.move coords :=
  move_nil_of_settled (h.move hcoords)

theorem isEmpty_move (shift : ShiftVector) (coords : List Float) :
    (shift.move coords).isEmpty = coords.isEmpty := by
  cases coords with
  | nil => rw [move]
  | cons c coords => cases shift <;> rfl

/-! ### Component by component -/

theorem getD_accumulate (shift : ShiftVector) (deltas : List Float) (i : Nat) :
    (shift.accumulate deltas).getD i 0 =
      match deltas[i]? with
      | none => shift.getD i 0
      | some d => shift.getD i 0 + d := by
  induction shift, deltas using accumulate.induct generalizing i with
  | case1 shift =>
    rw [accumulate]
    rfl
  | case2 d deltas ih =>
    rw [accumulate]
    cases i with
    | zero => rfl
    | succ i => exact ih i
  | case3 s shift d deltas ih =>
    rw [accumulate]
    cases i with
    | zero => rfl
    | succ i => exact ih i

theorem move_eq_mapIdx (shift : ShiftVector) (coords : List Float) :
    shift.move coords = coords.mapIdx fun i c => c + shift.getD i 0 := by
  induction shift, coords using move.induct with
  | case1 shift => rw [move, List.mapIdx_nil]
  | case2 c coords ih =>
    rw [move, ih, List.mapIdx_cons]
    rfl
  | case3 s shift c coords ih =>
    rw [move, ih, List.mapIdx_cons]
    rfl

theorem length_move (shift : ShiftVector) (coords : List Float) :
    (shift.move coords).length = coords.length := by
  rw [move_eq_mapIdx, List.length_mapIdx]

/-! ### In the plane -/

theorem accumulate_plane (h : shift.Settled) {deltas : List Float}
    (hdeltas : ∀ d ∈ deltas, d.isFinite = true) :
    shift.plane.accumulate deltas = (shift.accumulate deltas).plane := by
  have hadd (i : Nat) {d : Float} (hd : d ∈ deltas) :
      AxisPlace.known (shift.getD i 0) + .known d = .known (shift.getD i 0 + d) :=
    AxisPlace.known_add_known ((h.getD i).add (hdeltas d hd)).number
  match deltas with
  | [] => rw [accumulate]; rfl
  | [d] =>
    rw [plane, plane, PlaneShift.accumulate, hadd 0 List.mem_cons_self, getD_accumulate,
      getD_accumulate]
    rfl
  | d :: d' :: rest =>
    rw [plane, plane, PlaneShift.accumulate, hadd 0 List.mem_cons_self,
      hadd 1 (List.mem_cons_of_mem _ List.mem_cons_self), getD_accumulate, getD_accumulate]
    rfl

theorem move_cons_cons (shift : ShiftVector) (x y : Float) (rest : List Float) :
    ∃ rest', shift.move (x :: y :: rest) =
      (x + shift.getD 0 0) :: (y + shift.getD 1 0) :: rest' := by
  match shift with
  | [] => exact ⟨_, rfl⟩
  | [s] => exact ⟨_, rfl⟩
  | s :: t :: shift => exact ⟨_, rfl⟩

/-- Two or more coordinates that were moved stand where the shift in the plane would have put
them. -/
theorem moved?_move (h : shift.Settled) {coords : List Float} (hlength : coords.length ≠ 1)
    (hcoords : ∀ c ∈ coords, c.isFinite = true) :
    PlaneShift.zero.moved? (shift.move coords) = shift.plane.moved? coords := by
  match coords with
  | [] => rw [move]; rfl
  | [x] => exact absurd rfl hlength
  | x :: y :: rest =>
    have hx := (h.getD 0).add_left (hcoords x List.mem_cons_self)
    have hy := (h.getD 1).add_left (hcoords y (List.mem_cons_of_mem _ List.mem_cons_self))
    obtain ⟨rest', hmove⟩ := shift.move_cons_cons x y rest
    have hstay {a : Float} (ha : Addable a) : AxisPlace.known a + .known 0 = .known a := by
      have hzero := Numeral.add_zero_eq ha.signed
      rw [AxisPlace.known_add_known (by rw [hzero]; exact ha.number), hzero]
    rw [hmove]
    show some (_ + AxisPlace.known 0, _ + AxisPlace.known 0) =
      some (_ + AxisPlace.known _, _ + AxisPlace.known _)
    rw [hstay hx, hstay hy, AxisPlace.known_add_known hx.number, AxisPlace.known_add_known hy.number]

end ShiftVector

/-! ### Folding twice -/

namespace Circuit

open ShiftVector (Settled)

variable {shift : ShiftVector} {o : Operation}

theorem foldShifts_cons (shift : ShiftVector) (o : Operation) (rest : List Operation) :
    foldShifts shift (o :: rest) =
      if o.kind = .shiftCoords then foldShifts (shift.accumulate o.args) rest
      else if o.kind = .qubitCoords ∨ o.kind = .detector then
        { o with args := shift.move o.args } :: foldShifts shift rest
      else o :: foldShifts shift rest := by
  rw [foldShifts]
  cases o.kind <;> rfl

theorem foldShifts_foldShifts (h : shift.Settled) {ops : List Operation}
    (hops : ∀ o ∈ ops, ∀ a ∈ o.args, a.isFinite = true) :
    foldShifts [] (foldShifts shift ops) = foldShifts shift ops := by
  induction ops generalizing shift with
  | nil => rfl
  | cons o ops ih =>
    obtain ⟨ho, hops⟩ := List.forall_mem_cons.mp hops
    rw [foldShifts_cons]
    split
    next hshift => exact ih (h.accumulate ho) hops
    next hshift =>
      split
      next hmoved =>
        rw [foldShifts_cons, if_neg hshift, if_pos hmoved, ih h hops]
        dsimp only
        rw [h.move_move ho]
      next hmoved => rw [foldShifts_cons, if_neg hshift, if_neg hmoved, ih h hops]

theorem numberedCoordinates_cons (shift : ShiftVector) (next : Nat) (o : Operation)
    (rest : List Operation) :
    numberedCoordinates shift next (o :: rest) =
      if o.kind = .shiftCoords then numberedCoordinates (shift.accumulate o.args) next rest
      else if o.kind = .detector then
        if o.args.isEmpty then numberedCoordinates shift (next + 1) rest
        else (next, shift.move o.args) :: numberedCoordinates shift (next + 1) rest
      else numberedCoordinates shift next rest := by
  rw [numberedCoordinates]
  cases o.kind <;> rfl

theorem numberedCoordinates_foldShifts (h : shift.Settled) {ops : List Operation}
    (hops : ∀ o ∈ ops, ∀ a ∈ o.args, a.isFinite = true) (next : Nat) :
    numberedCoordinates [] next (foldShifts shift ops) = numberedCoordinates shift next ops := by
  induction ops generalizing shift next with
  | nil => rfl
  | cons o ops ih =>
    obtain ⟨ho, hops⟩ := List.forall_mem_cons.mp hops
    rw [foldShifts_cons, numberedCoordinates_cons]
    split
    next hshift => exact ih (h.accumulate ho) hops next
    next hshift =>
      by_cases hdetector : o.kind = .detector
      · rw [if_pos (.inr hdetector), if_pos hdetector, numberedCoordinates_cons, if_neg hshift,
          if_pos hdetector, ih h hops]
        dsimp only
        rw [ShiftVector.isEmpty_move, h.move_move ho]
      · rw [if_neg hdetector]
        split
        · rw [numberedCoordinates_cons, if_neg hshift, if_neg hdetector, ih h hops]
        · rw [numberedCoordinates_cons, if_neg hshift, if_neg hdetector, ih h hops]

variable {c : Circuit}

theorem executed_flattened (c : Circuit) : c.flattened.executed = foldShifts [] c.executed :=
  executed_ofOperations _

theorem flattened_flattened (hfinite : ∀ o ∈ c.executed, ∀ a ∈ o.args, a.isFinite = true) :
    c.flattened.flattened = c.flattened := by
  rw [flattened, executed_flattened, foldShifts_foldShifts ShiftVector.settled_nil hfinite]
  rfl

theorem detectorCoordinates_flattened
    (hfinite : ∀ o ∈ c.executed, ∀ a ∈ o.args, a.isFinite = true) :
    c.flattened.detectorCoordinates = c.detectorCoordinates := by
  rw [detectorCoordinates, executed_flattened,
    numberedCoordinates_foldShifts ShiftVector.settled_nil hfinite]
  rfl

end Circuit

end CircuitFrames
