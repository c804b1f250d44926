import CircuitFrames.Proofs.Circuit.NormalForm
import CircuitFrames.Proofs.Diagram.Flattening

/-!
# Where single coordinates stand

A qubit that is declared by one coordinate stands on the first row, and both components of the shift
move it. Flattening moves the coordinates that are there, so of the same declaration it keeps the
first component only (`executed_flattened_of_shifts`). The qubit stands at one place before and after
if and only if the shifts add up to nothing in the second component (`single_coordinate_placed`).
-/

namespace CircuitFrames

open Numeral (IsNegativeZero)

/-! ### Sums of places -/

namespace AxisPlace

theorem isNaN_lost : lost.value.isNaN = true := rfl

theorem value_add (a b : AxisPlace) : (a + b).value = a.value + b.value := by
  cases a with
  | lost => exact Numeral.eq_of_isNaN isNaN_lost (Numeral.isNaN_add_left isNaN_lost _)
  | known x =>
    cases b with
    | lost =>
      show (if x.isNaN then known x else lost).value = x + lost.value
      have hsum : (x + lost.value).isNaN = true := Numeral.isNaN_add_right x isNaN_lost
      split
      next hx => exact Numeral.eq_of_isNaN hx hsum
      next hx => exact Numeral.eq_of_isNaN isNaN_lost hsum
    | known y =>
      show (if (x + y).isNaN ∧ ¬x.isNaN ∧ ¬y.isNaN then lost else known (x + y)).value = x + y
      split
      next hlost => exact Numeral.eq_of_isNaN isNaN_lost hlost.1
      next hknown => rfl

end AxisPlace

namespace GridPoint

/-- The coordinates of a position as doubles. -/
def values (g : GridPoint) : Float × Float :=
  (g.1.value, g.2.value)

end GridPoint

namespace PlaneShift

/-- The shift of the drawing is the first two components of the shift that flattening folds away. -/
structure Shows (s : PlaneShift) (shift : ShiftVector) : Prop where
  first : s.dx.value = shift.getD 0 0
  second : s.dy.value = shift.getD 1 0

variable {s : PlaneShift} {shift : ShiftVector}

theorem shows_zero : zero.Shows [] :=
  ⟨rfl, rfl⟩

theorem Shows.accumulate (h : s.Shows shift) (deltas : List Float) :
    (s.accumulate deltas).Shows (shift.accumulate deltas) := by
  match deltas with
  | [] =>
    rw [PlaneShift.accumulate, ShiftVector.accumulate]
    exact h
  | [d] =>
    refine ⟨?_, ?_⟩
    · rw [ShiftVector.getD_accumulate, ← h.first]
      exact AxisPlace.value_add _ _
    · rw [ShiftVector.getD_accumulate, ← h.second]
      rfl
  | d :: d' :: rest =>
    refine ⟨?_, ?_⟩
    · rw [ShiftVector.getD_accumulate, ← h.first]
      exact AxisPlace.value_add _ _
    · rw [ShiftVector.getD_accumulate, ← h.second]
      exact AxisPlace.value_add _ _

theorem moved?_singleton (s : PlaneShift) (v : Float) :
    ∃ g : GridPoint, s.moved? [v] = some g ∧ g.values = (v + s.dx.value, 0 + s.dy.value) :=
  ⟨_, rfl, Prod.ext (AxisPlace.value_add _ _) (AxisPlace.value_add _ _)⟩

end PlaneShift

namespace ShiftVector

/-- No component of a shift is the negative zero, as adding up starts from zero. -/
def Unsigned (shift : ShiftVector) : Prop :=
  ∀ s ∈ shift, ¬IsNegativeZero s

variable {shift : ShiftVector}

theorem unsigned_nil : Unsigned [] := nofun

theorem Unsigned.accumulate (h : shift.Unsigned) (deltas : List Float) :
    (shift.accumulate deltas).Unsigned :=
  forall_mem_accumulate (Q := fun _ => True) Numeral.addable_zero.signed
    (fun _ _ hs _ hsum => hs (Numeral.isNegativeZero_of_add hsum).1) h fun _ _ => trivial

theorem Unsigned.getD (h : shift.Unsigned) (i : Nat) : ¬IsNegativeZero (shift.getD i 0) :=
  getD_of_forall_mem (P := (¬IsNegativeZero ·)) Numeral.addable_zero.signed h i

end ShiftVector

/-! ### A history of shifts -/

namespace Circuit

theorem unsigned_shiftAfter {shift : ShiftVector} (h : shift.Unsigned) (ops : List Operation) :
    (shiftAfter shift ops).Unsigned := by
  induction ops generalizing shift with
  | nil => exact h
  | cons o ops ih =>
    rw [shiftAfter_cons]
    split_ifs
    · exact ih (h.accumulate o.args)
    · exact ih h

theorem foldShifts_of_shifts (shift : ShiftVector) {shifts : List Operation}
    (hshifts : ∀ o ∈ shifts, o.kind = .shiftCoords) : foldShifts shift shifts = [] := by
  induction shifts generalizing shift with
  | nil => rfl
  | cons o shifts ih =>
    obtain ⟨ho, hshifts⟩ := List.forall_mem_cons.mp hshifts
    rw [foldShifts_cons, if_pos ho, ih _ hshifts]

theorem executed_flattened_of_shifts {c : Circuit} {shifts : List Operation} {o : Operation}
    (hshifts : ∀ o ∈ shifts, o.kind = .shiftCoords) (ho : o.kind = .qubitCoords)
    (hc : c.executed = shifts ++ [o]) :
    c.flattened.executed = [{ o with args := (shiftAfter [] shifts).move o.args }] := by
  rw [executed_flattened, hc, foldShifts_append, foldShifts_of_shifts [] hshifts, foldShifts_cons,
    if_neg (by simp [ho]), if_pos (.inl ho)]
  rfl

end Circuit

namespace Walk

/-- The position of a qubit on the open layer. -/
def place (w : Walk) (q : Qubit) : Float × Float :=
  (w.current.coords.grid q).values

variable (style : DetectorStyle) {w : Walk}

theorem place_declare (w : Walk) (g : GridPoint) (q : Qubit) : (w.declare g [q]).place q = g.values := by
  have hgrid : (w.declare g [q]).current.coords.grid q = g := Std.ExtTreeMap.getD_insert_self
  rw [place, hgrid]

theorem foldlM_shifts {shift : ShiftVector} (hw : w.shift.Shows shift) {shifts : List Operation}
    (hshifts : ∀ o ∈ shifts, o.kind = .shiftCoords) :
    ∃ s : PlaneShift, shifts.foldlM (step style) w = .ok { w with shift := s } ∧
      s.Shows (Circuit.shiftAfter shift shifts) := by
  induction shifts generalizing w shift with
  | nil => exact ⟨w.shift, rfl, hw⟩
  | cons o shifts ih =>
    obtain ⟨ho, hshifts⟩ := List.forall_mem_cons.mp hshifts
    obtain ⟨s, hrun, hs⟩ := ih (w := { w with shift := w.shift.accumulate o.args })
      (hw.accumulate o.args) hshifts
    refine ⟨s, ?_, ?_⟩
    · rw [List.foldlM_cons, step_shift style ho]
      exact hrun
    · rw [Circuit.shiftAfter_cons, if_pos ho]
      exact hs

theorem of_shifts_declaration {c : Circuit} {shifts : List Operation} {name : String} {q : Qubit}
    {inverted : Bool} {v : Float} (hshifts : ∀ o ∈ shifts, o.kind = .shiftCoords)
    (hc : c.executed = shifts ++ [⟨name, .qubitCoords, [.qubit q inverted], [v]⟩]) :
    ∃ w, Walk.of style c = .ok w ∧
      w.place q = (v + (Circuit.shiftAfter [] shifts).getD 0 0,
        0 + (Circuit.shiftAfter [] shifts).getD 1 0) := by
  obtain ⟨s, hrun, hs⟩ := foldlM_shifts style (w := start) PlaneShift.shows_zero hshifts
  obtain ⟨g, hg, hvalues⟩ := s.moved?_singleton v
  have hstep : step style { start with shift := s } ⟨name, .qubitCoords, [.qubit q inverted], [v]⟩ =
      .ok (declare { start with shift := s } g [q]) := by
    rw [step_declaration style rfl]
    dsimp only
    rw [hg]
    rfl
  refine ⟨declare { start with shift := s } g [q], ?_, ?_⟩
  · rw [Walk.of, Circuit.run_eq_foldlM, hc, List.foldlM_append, bind_eq_ok]
    refine ⟨{ start with shift := s }, hrun, ?_⟩
    rw [List.foldlM_cons, hstep]
    rfl
  · rw [place_declare, hvalues, hs.first, hs.second]

/-- **Flattening drops the second component of the shift from a single coordinate.** After any shifts,
a qubit that is declared by the coordinate `v` stands at `(v, 0)` moved by both components of the
shift, and the declaration that the flat circuit has instead puts it on the first row. So the places
are the same if and only if the shifts add up to zero in the second component. -/
theorem single_coordinate_placed {c : Circuit} {shifts : List Operation} {name : String} {q : Qubit}
    {inverted : Bool} {v : Float} (hshifts : ∀ o ∈ shifts, o.kind = .shiftCoords)
    (hc : c.executed = shifts ++ [⟨name, .qubitCoords, [.qubit q inverted], [v]⟩]) :
    let shift := Circuit.shiftAfter [] shifts
    c.flattened.executed = [⟨name, .qubitCoords, [.qubit q inverted], [v + shift.getD 0 0]⟩] ∧
      ∃ w w', Walk.of style c = .ok w ∧ Walk.of style c.flattened = .ok w' ∧
        w.place q = (v + shift.getD 0 0, shift.getD 1 0) ∧
        w'.place q = (v + shift.getD 0 0, 0) ∧
        (w'.place q = w.place q ↔ shift.getD 1 0 = 0) := by
  intro shift
  have hunsigned : shift.Unsigned := Circuit.unsigned_shiftAfter ShiftVector.unsigned_nil shifts
  have hmove : shift.move [v] = [v + shift.getD 0 0] := by cases shift <;> rfl
  have hflat := Circuit.executed_flattened_of_shifts hshifts rfl hc
  dsimp only at hflat
  rw [hmove] at hflat
  obtain ⟨w, hw, hplace⟩ := of_shifts_declaration style hshifts hc
  have hnone : ∀ o ∈ ([] : List Operation), o.kind = .shiftCoords := nofun
  obtain ⟨w', hw', hplace'⟩ := of_shifts_declaration style hnone hflat
  rw [Numeral.zero_add_eq (hunsigned.getD 1)] at hplace
  have hfirst : ¬IsNegativeZero (v + shift.getD 0 0) := fun h =>
    hunsigned.getD 0 (Numeral.isNegativeZero_of_add h).2
  have hzero : (0 : Float) + 0 = 0 := Numeral.zero_add_eq Numeral.addable_zero.signed
  have hplace' : w'.place q = (v + shift.getD 0 0, 0) := by
    rw [hplace']
    exact Prod.ext (Numeral.add_zero_eq hfirst) hzero
  refine ⟨hflat, w, w', hw, hw', hplace, hplace', ?_⟩
  rw [hplace, hplace', Prod.mk.injEq]
  exact ⟨fun h => h.2.symm, fun h => ⟨rfl, h.symm⟩⟩

/-- Shifts that cancel out in the second dimension leave the qubit where it is drawn. -/
theorem single_coordinate_placed_back :
    let shifts : List Operation := [⟨"SHIFT_COORDS", .shiftCoords, [], [1, 5]⟩,
      ⟨"SHIFT_COORDS", .shiftCoords, [], [2]⟩, ⟨"SHIFT_COORDS", .shiftCoords, [], [0, -5, 7]⟩]
    let o : Operation := ⟨"QUBIT_COORDS", .qubitCoords, [.qubit 0 false], [3]⟩
    let c : Circuit := .ofOperations (shifts ++ [o])
    (∀ o ∈ shifts, o.kind = .shiftCoords) ∧ c.executed = shifts ++ [o] ∧
      ∃ w w', Walk.of ⟨fun _ => false, ∅⟩ c = .ok w ∧
        Walk.of ⟨fun _ => false, ∅⟩ c.flattened = .ok w' ∧
        w.place 0 = (6, 0) ∧ w'.place 0 = w.place 0 := by
  intro shifts o c
  have hshifts : ∀ o ∈ shifts, o.kind = .shiftCoords := by decide
  have hc : c.executed = shifts ++ [o] := Circuit.executed_ofOperations _
  obtain ⟨-, w, w', hw, hw', hplace, -, hsame⟩ :=
    single_coordinate_placed ⟨fun _ => false, ∅⟩ hshifts hc
  refine ⟨hshifts, hc, w, w', hw, hw', ?_, ?_⟩
  · rw [hplace]
    decide +kernel
  · rw [hsame]
    decide

/-- A qubit in column three that a shift lifts by five rows is put back on the first row. -/
theorem single_coordinate_misplaced :
    let c : Circuit := .ofOperations [⟨"SHIFT_COORDS", .shiftCoords, [], [0, 5]⟩,
      ⟨"QUBIT_COORDS", .qubitCoords, [.qubit 0 false], [3]⟩]
    (Walk.of ⟨fun _ => false, ∅⟩ c).toOption.map (·.place 0) = some (3, 5) ∧
      (Walk.of ⟨fun _ => false, ∅⟩ c.flattened).toOption.map (·.place 0) = some (3, 0) ∧
      ((3, 5) : Float × Float) ≠ (3, 0) := by
  exact ⟨rfl, rfl, by decide⟩

end Walk

end CircuitFrames
