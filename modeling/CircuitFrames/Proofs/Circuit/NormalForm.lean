import CircuitFrames.Proofs.Circuit.Shift
import CircuitFrames.Proofs.Numeral.Order

/-!
# Flat circuits as a normal form

A flat circuit has no blocks and no shifts left. Flattening keeps all other operations in the order in
which they run (`folds_foldShifts`), and each declaration among them is moved by the shifts that run
before it (`foldShifts_append`). The coordinates that come of it are numbers, so they equal themselves
and flattening again changes nothing (`flattened_is_normal_form`).
-/

namespace CircuitFrames

/-! ### Equal circuits -/

theorem list_beq_self {α : Type} [BEq α] {l : List α} (h : ∀ a ∈ l, (a == a) = true) :
    (l == l) = true := by
  induction l with
  | nil => rfl
  | cons a l ih =>
    obtain ⟨ha, hl⟩ := List.forall_mem_cons.mp h
    rw [List.cons_beq_cons, ha, ih hl, Bool.and_self]

namespace Operation

/-- Whether the operation moves later declarations. -/
def isShift (o : Operation) : Bool :=
  o.kind == .shiftCoords

/-- Whether the operation declares coordinates, of a qubit or of a detector. -/
def declares (o : Operation) : Bool :=
  o.kind == .qubitCoords || o.kind == .detector

/-- Operations are the same but for the coordinates that they declare. -/
structure SameButCoordinates (o o' : Operation) : Prop where
  name : o'.name = o.name
  kind : o'.kind = o.kind
  targets : o'.targets = o.targets
  args : o.declares = false → o'.args = o.args
  dimension : o'.args.length = o.args.length

theorem SameButCoordinates.refl (o : Operation) : o.SameButCoordinates o :=
  ⟨rfl, rfl, rfl, fun _ => rfl, rfl⟩

theorem beq_self {o : Operation} (h : ∀ a ∈ o.args, a.isNaN = false) : (o == o) = true := by
  show (o.name == o.name && (o.kind == o.kind && (o.targets == o.targets && o.args == o.args))) = true
  rw [list_beq_self fun a ha => Numeral.beq_self (h a ha)]
  simp

end Operation

namespace Circuit

/-- Whether the circuit has no block and no shift, at any depth. -/
def isFlat : Circuit → Bool
  | nil => true
  | op o rest => !o.isShift && rest.isFlat
  | repeated _ _ _ => false

theorem isFlat_ofOperations (ops : List Operation) :
    (ofOperations ops).isFlat = ops.all (!·.isShift) := by
  induction ops with
  | nil => rfl
  | cons o ops ih => rw [ofOperations, isFlat, ih, List.all_cons]

theorem beq_self_ofOperations {ops : List Operation}
    (h : ∀ o ∈ ops, ∀ a ∈ o.args, a.isNaN = false) :
    (ofOperations ops == ofOperations ops) = true := by
  induction ops with
  | nil => rfl
  | cons o ops ih =>
    obtain ⟨ho, hops⟩ := List.forall_mem_cons.mp h
    show (o == o && ofOperations ops == ofOperations ops) = true
    rw [Operation.beq_self ho, ih hops, Bool.and_self]

/-! ### One pass -/

/-- The shift after some operations. -/
def shiftAfter (shift : ShiftVector) (ops : List Operation) : ShiftVector :=
  ops.foldl (fun s o => if o.isShift then s.accumulate o.args else s) shift

theorem isShift_iff {o : Operation} : o.isShift = true ↔ o.kind = .shiftCoords :=
  beq_iff_eq

theorem shiftAfter_cons (shift : ShiftVector) (o : Operation) (ops : List Operation) :
    shiftAfter shift (o :: ops) =
      shiftAfter (if o.kind = .shiftCoords then shift.accumulate o.args else shift) ops := by
  simp only [shiftAfter, List.foldl_cons, isShift_iff]

theorem foldShifts_append (shift : ShiftVector) (before after : List Operation) :
    foldShifts shift (before ++ after) =
      foldShifts shift before ++ foldShifts (shiftAfter shift before) after := by
  induction before generalizing shift with
  | nil => rfl
  | cons o before ih =>
    rw [List.cons_append, foldShifts_cons, foldShifts_cons, shiftAfter_cons]
    split_ifs with hshift hmoved
    · exact ih _
    · rw [ih, List.cons_append]
    · rw [ih, List.cons_append]

theorem not_isShift_of_mem_foldShifts {shift : ShiftVector} {ops : List Operation} {o : Operation}
    (h : o ∈ foldShifts shift ops) : o.isShift = false := by
  induction ops generalizing shift with
  | nil => cases h
  | cons p ops ih =>
    rw [foldShifts_cons] at h
    split_ifs at h with hshift hmoved
    · exact ih h
    · rcases List.mem_cons.mp h with rfl | h
      · exact beq_eq_false_iff_ne.mpr hshift
      · exact ih h
    · rcases List.mem_cons.mp h with rfl | h
      · exact beq_eq_false_iff_ne.mpr hshift
      · exact ih h

theorem folds_foldShifts (shift : ShiftVector) (ops : List Operation) :
    List.Forall₂ Operation.SameButCoordinates (ops.filter (!·.isShift)) (foldShifts shift ops) := by
  induction ops generalizing shift with
  | nil => exact .nil
  | cons o ops ih =>
    rw [foldShifts_cons]
    split_ifs with hshift hmoved
    · rw [List.filter_cons_of_neg (by simp [Operation.isShift, hshift])]
      exact ih _
    · rw [List.filter_cons_of_pos (by simp [Operation.isShift, hshift])]
      have hdeclares : o.declares = true := by simpa [Operation.declares] using hmoved
      exact .cons ⟨rfl, rfl, rfl, fun h => by simp [hdeclares] at h, ShiftVector.length_move _ _⟩ (ih shift)
    · rw [List.filter_cons_of_pos (by simp [Operation.isShift, hshift])]
      exact .cons (.refl o) (ih shift)

/-! ### Coordinates that are numbers -/

variable {shift : ShiftVector} {ops : List Operation}

theorem isNaN_of_mem_foldShifts (h : shift.Settled)
    (hops : ∀ o ∈ ops, ∀ a ∈ o.args, a.isFinite = true) :
    ∀ o ∈ foldShifts shift ops, ∀ a ∈ o.args, a.isNaN = false := by
  induction ops generalizing shift with
  | nil => nofun
  | cons o ops ih =>
    obtain ⟨ho, hops⟩ := List.forall_mem_cons.mp hops
    rw [foldShifts_cons]
    split_ifs with hshift hmoved
    · exact ih (h.accumulate ho) hops
    · exact List.forall_mem_cons.mpr ⟨fun a ha => (h.move ho a ha).number, ih h hops⟩
    · exact List.forall_mem_cons.mpr ⟨fun a ha => Numeral.isNaN_of_isFinite (ho a ha), ih h hops⟩

theorem isNaN_of_mem_numberedCoordinates (h : shift.Settled)
    (hops : ∀ o ∈ ops, ∀ a ∈ o.args, a.isFinite = true) (next : Nat) :
    ∀ entry ∈ numberedCoordinates shift next ops, ∀ a ∈ entry.2, a.isNaN = false := by
  induction ops generalizing shift next with
  | nil => nofun
  | cons o ops ih =>
    obtain ⟨ho, hops⟩ := List.forall_mem_cons.mp hops
    rw [numberedCoordinates_cons]
    split_ifs with hshift hdetector hempty
    · exact ih (h.accumulate ho) hops next
    · exact ih h hops (next + 1)
    · exact List.forall_mem_cons.mpr ⟨fun a ha => (h.move ho a ha).number, ih h hops (next + 1)⟩
    · exact ih h hops next

/-! ### The normal form -/

variable {c : Circuit}

/-- **A flat circuit is a normal form.** On finite arguments flattening leaves no block and no shift,
it keeps all other operations in the order in which they run but for the coordinates they declare, it
keeps the coordinates of the detectors under their numbers, and doing it twice changes nothing. -/
theorem flattened_is_normal_form
    (hfinite : ∀ o ∈ c.executed, ∀ a ∈ o.args, a.isFinite = true) :
    c.flattened.isFlat = true ∧
      List.Forall₂ Operation.SameButCoordinates (c.executed.filter (!·.isShift))
        c.flattened.executed ∧
      (c.flattened.detectorCoordinates = c.detectorCoordinates ∧
        (c.flattened.detectorCoordinates == c.detectorCoordinates) = true) ∧
      (c.flattened.flattened = c.flattened ∧ (c.flattened.flattened == c.flattened) = true) := by
  have hflat : c.flattened.isFlat = true := by
    rw [flattened, isFlat_ofOperations, List.all_eq_true]
    intro o ho
    rw [not_isShift_of_mem_foldShifts ho]
    rfl
  have hkept := folds_foldShifts [] c.executed
  rw [← executed_flattened] at hkept
  have hcoordinates := detectorCoordinates_flattened hfinite
  have hsame : (c.detectorCoordinates == c.detectorCoordinates) = true := by
    apply list_beq_self
    intro entry hentry
    have hnumbers :=
      isNaN_of_mem_numberedCoordinates ShiftVector.settled_nil hfinite 0 entry hentry
    show (entry.1 == entry.1 && entry.2 == entry.2) = true
    rw [list_beq_self fun a ha => Numeral.beq_self (hnumbers a ha)]
    simp
  have htwice := flattened_flattened hfinite
  have hself : (c.flattened == c.flattened) = true :=
    beq_self_ofOperations (isNaN_of_mem_foldShifts ShiftVector.settled_nil hfinite)
  refine ⟨hflat, hkept, ⟨hcoordinates, ?_⟩, htwice, ?_⟩
  · rw [hcoordinates]
    exact hsame
  · rw [htwice]
    exact hself

/-- The shift of a block grows by a dimension inside the block, and a detector is placed in one
dimension more. -/
theorem flattened_growing_shift :
    let inner : Circuit := .ofOperations
      [⟨"SHIFT_COORDS", .shiftCoords, [], [1, -2]⟩,
        ⟨"DETECTOR", .detector, [.record (-1)], [0, 0, 5]⟩]
    let round : Circuit := .op ⟨"M", .single .m, [.qubit 0 false], []⟩
      (.op ⟨"SHIFT_COORDS", .shiftCoords, [], [4]⟩ (.repeated 2 inner .nil))
    let c : Circuit := .repeated 3 round .nil
    (∀ o ∈ c.executed, ∀ a ∈ o.args, a.isFinite = true) ∧
      c.flattened.isFlat = true ∧ c.flattened.flattened = c.flattened := by
  intro inner round c
  have hfinite : ∀ o ∈ c.executed, ∀ a ∈ o.args, a.isFinite = true := by decide
  obtain ⟨hflat, -, -, htwice, -⟩ := flattened_is_normal_form hfinite
  exact ⟨hfinite, hflat, htwice⟩

end Circuit

end CircuitFrames
