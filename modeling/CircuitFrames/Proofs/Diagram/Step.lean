import CircuitFrames.Diagram.Walk
import CircuitFrames.Proofs.Diagram.History

/-!
# What a step can do

All that one operation can do to a walk, said once (`Stepped`): how its targets were read, and what
was done with what was read. Operations that label measurements go through their lookbacks one by
one, so the operation cut off behind some of its targets is a step on the way (`step_upTo`). Whatever
relates a walk to the walk with one more label relates it to the walk with all labels of an operation
(`markedUpTo_relates`). What all other operations do not look at can be changed before such a step or
behind it (`Unseen.step`).
-/

namespace CircuitFrames

namespace Walk

theorem readable_eq_ok {α : Type} {x : Except CircuitError α} {a : α} :
    readable x = .ok a ↔ x = .ok a := by
  cases x with
  | ok b =>
    show Except.ok b = .ok a ↔ _
    rw [Except.ok.injEq, Except.ok.injEq]
  | error e => exact ⟨nofun, nofun⟩

theorem readable_map_eq_ok {α β : Type} {x : Except CircuitError α} {f : α → β} {b : β} :
    (readable x).map f = .ok b ↔ ∃ a, x = .ok a ∧ f a = b := by
  rw [map_eq_ok]
  simp only [readable_eq_ok]

theorem exists_readable_map {α : Type} {x : Except CircuitError α} {f : α → Walk} :
    (∃ w', (readable x).map f = .ok w') ↔ ∃ a, x = .ok a := by
  cases x with
  | error e => exact ⟨nofun, nofun⟩
  | ok a => exact ⟨fun _ => ⟨a, rfl⟩, fun _ => ⟨f a, rfl⟩⟩

variable (style : DetectorStyle) (w : Walk) (o : Operation)

/-- The label of an operation that labels measurements. -/
def lookOf : LabelStyle :=
  if o.kind = .detector then w.detectorLabel style
  else ⟨"L" ++ toString (o.observableIndex.toOption.getD 0), "blue", false⟩

/-- The walk before the first lookback of an operation that labels measurements. -/
def opened : Walk :=
  if o.kind = .detector then { w with nextDetector := w.nextDetector + 1 } else w

/-- The walk after some lookbacks of an operation that labels measurements. -/
def markedUpTo (ks : List Int32) : Walk :=
  ks.foldl (markLookback (lookOf style w o) o.name) (opened w o)

/-- What a step can do. -/
inductive Stepped : Walk → Prop
  | declared {g : GridPoint} {qs : List Qubit} (kind : o.kind = .qubitCoords)
      (place : w.shift.moved? o.args = some g) (read : o.qubits = .ok qs) : Stepped (w.declare g qs)
  | shifted (kind : o.kind = .shiftCoords) : Stepped { w with shift := w.shift.accumulate o.args }
  | singles {gate : SingleGate} {qs : List Qubit} (kind : o.kind = .single gate)
      (read : o.qubits = .ok qs) : Stepped (w.drawSingles gate qs)
  | pairs {gate : PairGate} {actions : List PairAction} (kind : o.kind = .pair gate)
      (read : o.pairs = .ok actions) : Stepped (actions.foldl (·.drawPair gate ·) w)
  | products {ps : List (List (Qubit × Pauli))} (kind : o.kind = .pauliProduct)
      (read : o.products = .ok ps) : Stepped (ps.foldl drawProduct w)
  | ticked (kind : o.kind = .tick) : Stepped w.advance
  | marking {ks : List Int32} (kind : o.kind = .detector ∨ o.kind = .observableInclude)
      (read : o.lookbacks = .ok ks) : Stepped (markedUpTo style w o ks)
  | noted {channel : NoiseChannel} {qs : List Qubit} (kind : o.kind = .noise channel)
      (read : o.touched = .ok qs) : Stepped (qs.foldl (noteNoise channel) w)

variable {style w o}

theorem step_detector (hkind : o.kind = .detector) :
    step style w o = (readable o.lookbacks).map (markedUpTo style w o) := by
  unfold step markedUpTo lookOf opened
  rw [hkind, if_pos rfl, if_pos rfl]
  rfl

theorem step_declaration (style : DetectorStyle) {w : Walk} {o : Operation}
    (hkind : o.kind = .qubitCoords) :
    step style w o =
      match w.shift.moved? o.args with
      | none => .error (.circuit (.invalidArguments o.name .noCoordinates))
      | some g => (readable o.qubits).map (w.declare g) := by
  obtain ⟨name, kind, targets, args⟩ := o
  obtain rfl : kind = .qubitCoords := hkind
  rfl

theorem step_shift (style : DetectorStyle) {w : Walk} {o : Operation}
    (hkind : o.kind = .shiftCoords) :
    step style w o = .ok { w with shift := w.shift.accumulate o.args } := by
  unfold step
  rw [hkind]

theorem step_observable (hkind : o.kind = .observableInclude) :
    step style w o =
      match o.observableIndex with
      | .error e => .error (.circuit e)
      | .ok _ => (readable o.lookbacks).map (markedUpTo style w o) := by
  unfold step markedUpTo lookOf opened
  rw [hkind]
  cases o.observableIndex with
  | error e => rfl
  | ok index => rfl

theorem stepped_of_step {w' : Walk} (h : step style w o = .ok w') : Stepped style w o w' := by
  cases hkind : o.kind with
  | qubitCoords =>
    unfold step at h
    rw [hkind] at h
    dsimp only at h
    cases hg : w.shift.moved? o.args with
    | none =>
      rw [hg] at h
      cases h
    | some g =>
      rw [hg] at h
      obtain ⟨qs, hqs, rfl⟩ := readable_map_eq_ok.mp h
      exact .declared hkind hg hqs
  | shiftCoords =>
    unfold step at h
    rw [hkind] at h
    cases h
    exact .shifted hkind
  | single gate =>
    unfold step at h
    rw [hkind] at h
    obtain ⟨qs, hqs, rfl⟩ := readable_map_eq_ok.mp h
    exact .singles hkind hqs
  | pair gate =>
    unfold step at h
    rw [hkind] at h
    obtain ⟨actions, hactions, rfl⟩ := readable_map_eq_ok.mp h
    exact .pairs hkind hactions
  | pauliProduct =>
    unfold step at h
    rw [hkind] at h
    obtain ⟨ps, hps, rfl⟩ := readable_map_eq_ok.mp h
    exact .products hkind hps
  | tick =>
    unfold step at h
    rw [hkind] at h
    cases h
    exact .ticked hkind
  | detector =>
    rw [step_detector hkind] at h
    obtain ⟨ks, hks, rfl⟩ := readable_map_eq_ok.mp h
    exact .marking (.inl hkind) hks
  | observableInclude =>
    rw [step_observable hkind] at h
    cases hindex : o.observableIndex with
    | error e =>
      rw [hindex] at h
      cases h
    | ok index =>
      rw [hindex] at h
      obtain ⟨ks, hks, rfl⟩ := readable_map_eq_ok.mp h
      exact .marking (.inr hkind) hks
  | noise channel =>
    unfold step at h
    rw [hkind] at h
    obtain ⟨qs, hqs, rfl⟩ := readable_map_eq_ok.mp h
    exact .noted hkind hqs
  | unsupported =>
    unfold step at h
    rw [hkind] at h
    cases h

/-! ### Operations that label measurements -/

theorem lookbacks_upTo {ks : List Int32} (h : o.lookbacks = .ok ks) (n : Nat) :
    (o.upTo n).lookbacks = .ok (ks.take n) := by
  rw [Operation.lookbacks_eq_ok] at h ⊢
  show (o.targets.take n).map Target.offset? = _
  rw [List.map_take, List.map_take, h]

/-- A step that labels measurements labels those that the first of its targets reach, and from there
on those that the rest reach. -/
theorem step_upTo {w' : Walk} (hkind : o.kind = .detector ∨ o.kind = .observableInclude)
    {ks : List Int32} (hks : o.lookbacks = .ok ks) (h : step style w o = .ok w') (n : Nat) :
    step style w (o.upTo n) = .ok (markedUpTo style w o (ks.take n)) := by
  have hread := lookbacks_upTo hks n
  rcases hkind with hkind | hkind
  · rw [step_detector (o := o.upTo n) hkind, hread]
    rfl
  · rw [step_observable hkind] at h
    rw [step_observable (o := o.upTo n) hkind, hread]
    show (match o.observableIndex with | .error e => _ | .ok _ => _) = _
    cases hindex : o.observableIndex with
    | error e =>
      rw [hindex] at h
      cases h
    | ok index => rfl

theorem markedUpTo_append (ks more : List Int32) :
    markedUpTo style w o (ks ++ more) =
      more.foldl (markLookback (lookOf style w o) o.name) (markedUpTo style w o ks) :=
  List.foldl_append

/-! ### What gates and labels change -/

theorem drawSingles_relates {R : Walk → Walk → Prop} (hrefl : ∀ s, R s s)
    (htrans : ∀ s t u, R s t → R t u → R s u) {gate : SingleGate}
    (hmeasure : ∀ (w : Walk) q, R w (w.measure q)) (hbox : ∀ (w : Walk) q, R w (w.drawBox gate q))
    (w : Walk) (qs : List Qubit) : R w (w.drawSingles gate qs) := by
  have hboxes : ∀ w : Walk, R w (qs.foldl (·.drawBox gate ·) w) :=
    foldl_relates hrefl htrans hbox qs
  unfold drawSingles
  cases gate.isMeasurement with
  | true => exact htrans _ _ _ (foldl_relates hrefl htrans hmeasure qs w) (hboxes _)
  | false => exact hboxes w

/-- The label at a measurement, on a layer where the measurement has a position. -/
def labelOn (look : LabelStyle) (index slot : Nat) (l : Layer) : Layer :=
  match l.measurementPosition? index with
  | none => l
  | some p => l.draw (label look p slot)

theorem markLookback_relates {R : Walk → Walk → Prop} (htrans : ∀ s t u, R s t → R t u → R s u)
    (hbooks : ∀ (w : Walk) labels events, R w { w with labels := labels, events := events })
    {look : LabelStyle}
    (hlabel : ∀ (w : Walk) owner index slot, R w (w.onLayer owner (labelOn look index slot)))
    (name : String) (w : Walk) (k : Int32) : R w (markLookback look name w k) := by
  unfold markLookback
  cases w.timeline.resolve? k.toInt with
  | none => exact hbooks w w.labels _
  | some index =>
    dsimp only
    cases w.timeline.layerOf? index with
    | none => exact hbooks w _ w.events
    | some owner => exact htrans _ _ _ (hbooks w _ w.events) (hlabel _ owner index _)

/-- All lookbacks of an operation together change no more than one of them does, and the number of
the next detector. -/
theorem markedUpTo_relates {R : Walk → Walk → Prop} (htrans : ∀ s t u, R s t → R t u → R s u)
    (hbooks : ∀ (w : Walk) next labels events,
      R w { w with nextDetector := next, labels := labels, events := events })
    (hlabel : ∀ (s : Walk) owner index slot,
      R s (s.onLayer owner (labelOn (lookOf style w o) index slot))) (ks : List Int32) :
    R w (markedUpTo style w o ks) := by
  have hopened : R w (opened w o) := by
    unfold opened
    split
    · exact hbooks w _ w.labels w.events
    · exact hbooks w w.nextDetector w.labels w.events
  have hmark : ∀ s k, R s (markLookback (lookOf style w o) o.name s k) :=
    markLookback_relates htrans (fun s => hbooks s s.nextDetector) hlabel o.name
  exact htrans _ _ _ hopened <| foldl_relates
    (fun s => hbooks s s.nextDetector s.labels s.events) htrans hmark ks (opened w o)

/-! ### Changes that a step passes over -/

/-- A change of a walk that no declaration, gate, tick or note of noise looks at, so that it can as
well be made behind them. -/
structure Unseen (φ : Walk → Walk) : Prop where
  declare : ∀ w g qs, (φ w).declare g qs = φ (w.declare g qs)
  measure : ∀ w q, (φ w).measure q = φ (w.measure q)
  drawBox : ∀ w gate q, (φ w).drawBox gate q = φ (w.drawBox gate q)
  drawPair : ∀ w gate action, (φ w).drawPair gate action = φ (w.drawPair gate action)
  drawProduct : ∀ w factors, (φ w).drawProduct factors = φ (w.drawProduct factors)
  advance : ∀ w, (φ w).advance = φ w.advance
  noteNoise : ∀ channel w q, noteNoise channel (φ w) q = φ (noteNoise channel w q)

theorem readable_map_map {α β γ : Type} {x : Except CircuitError α} {f : α → β} {g : α → γ}
    {φ : β → γ} (h : ∀ a, g a = φ (f a)) : (readable x).map g = ((readable x).map f).map φ := by
  cases x with
  | error e => rfl
  | ok a => exact congrArg Except.ok (h a)

theorem step_of_marking {φ : Walk → Walk} {style' : DetectorStyle} (hmark : o.isMarking = true)
    (h : ∀ ks, markedUpTo style' (φ w) o ks = φ (markedUpTo style w o ks)) :
    step style' (φ w) o = (step style w o).map φ := by
  rcases Operation.isMarking_iff.mp hmark with hkind | hkind
  · rw [step_detector hkind, step_detector hkind]
    exact readable_map_map h
  · rw [step_observable hkind, step_observable hkind]
    cases o.observableIndex with
    | error e => rfl
    | ok index => exact readable_map_map h

namespace Unseen

variable {φ ψ : Walk → Walk} {w : Walk} {o : Operation}

theorem comp (hφ : Unseen φ) (hψ : Unseen ψ) : Unseen (φ ∘ ψ) where
  declare w g qs := by rw [Function.comp, hφ.declare, hψ.declare]; rfl
  measure w q := by rw [Function.comp, hφ.measure, hψ.measure]; rfl
  drawBox w gate q := by rw [Function.comp, hφ.drawBox, hψ.drawBox]; rfl
  drawPair w gate action := by rw [Function.comp, hφ.drawPair, hψ.drawPair]; rfl
  drawProduct w factors := by rw [Function.comp, hφ.drawProduct, hψ.drawProduct]; rfl
  advance w := by rw [Function.comp, hφ.advance, hψ.advance]; rfl
  noteNoise channel w q := by rw [Function.comp, hφ.noteNoise, hψ.noteNoise]; rfl

theorem drawSingles (h : Unseen φ) (w : Walk) (gate : SingleGate) (qs : List Qubit) :
    (φ w).drawSingles gate qs = φ (w.drawSingles gate qs) := by
  have hboxes (w : Walk) : qs.foldl (·.drawBox gate ·) (φ w) = φ (qs.foldl (·.drawBox gate ·) w) :=
    List.foldl_hom _ fun w q => h.drawBox w gate q
  have hmeasured : qs.foldl Walk.measure (φ w) = φ (qs.foldl Walk.measure w) :=
    List.foldl_hom _ h.measure
  unfold Walk.drawSingles
  cases gate.isMeasurement with
  | false => exact hboxes w
  | true =>
    show qs.foldl (·.drawBox gate ·) (qs.foldl Walk.measure (φ w)) = _
    rw [hmeasured, hboxes]
    rfl

theorem step (h : Unseen φ) (style style' : DetectorStyle) (w : Walk)
    (hqubit : o.kind ≠ .qubitCoords) (hshift : o.kind ≠ .shiftCoords) (hmark : o.isMarking = false) :
    step style' (φ w) o = (step style w o).map φ := by
  unfold Operation.isMarking at hmark
  unfold Walk.step
  cases hkind : o.kind with
  | qubitCoords => exact absurd hkind hqubit
  | shiftCoords => exact absurd hkind hshift
  | single gate => exact readable_map_map (h.drawSingles w gate)
  | pair gate =>
    exact readable_map_map fun actions => List.foldl_hom _ fun w action => h.drawPair w gate action
  | pauliProduct => exact readable_map_map fun ps => List.foldl_hom _ h.drawProduct
  | tick => exact congrArg Except.ok (h.advance w)
  | noise channel => exact readable_map_map fun qs => List.foldl_hom _ (h.noteNoise channel)
  | unsupported => rfl
  | detector | observableInclude =>
    rw [hkind] at hmark
    cases hmark

theorem step_of_shift (h : Unseen φ) (hsame : ∀ w, (φ w).shift = w.shift)
    (hset : ∀ (w : Walk) s, { φ w with shift := s } = φ { w with shift := s })
    (style style' : DetectorStyle) (w : Walk) (hmark : o.isMarking = false) :
    Walk.step style' (φ w) o = (Walk.step style w o).map φ := by
  by_cases hqubit : o.kind = .qubitCoords
  · rw [step_declaration style hqubit, step_declaration style' hqubit, hsame]
    cases w.shift.moved? o.args with
    | none => rfl
    | some g => exact readable_map_map (h.declare w g)
  · by_cases hshift : o.kind = .shiftCoords
    · rw [step_shift style hshift, step_shift style' hshift, hsame, hset]
      rfl
    · exact h.step style style' w hqubit hshift hmark

end Unseen

end Walk

end CircuitFrames
