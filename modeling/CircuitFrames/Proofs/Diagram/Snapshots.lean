import CircuitFrames.Proofs.Diagram.Footprint

/-!
# Closed layers are snapshots

A tick closes a layer for good: what stood on it stays where it is, whatever is placed, drawn or
measured afterwards. Only labels still come to it, in front of all else, and only from an operation
that looks back to a measurement of that layer (`closed_layers_are_snapshots`).
-/

namespace CircuitFrames

open Svg (Primitive)

namespace Layer

/-- A layer that at most has further primitives in front of those that it had. -/
structure Overdrawn (l l' : Layer) : Prop where
  coords : l'.coords = l.coords
  used : l'.used = l.used
  measurements : l'.measurements = l.measurements
  primitives : l.primitives.toList <+: l'.primitives.toList

variable {l l' l'' : Layer}

theorem Overdrawn.refl (l : Layer) : l.Overdrawn l :=
  ⟨rfl, rfl, rfl, List.prefix_rfl⟩

theorem Overdrawn.trans (h : l.Overdrawn l') (h' : l'.Overdrawn l'') : l.Overdrawn l'' :=
  ⟨h'.coords.trans h.coords, h'.used.trans h.used, h'.measurements.trans h.measurements,
    h.primitives.trans h'.primitives⟩

theorem overdrawn_draw (l : Layer) (ps : List Primitive) : l.Overdrawn (l.draw ps) :=
  ⟨rfl, rfl, rfl, ⟨ps, (Frame.toList_draw l ps).symm⟩⟩

end Layer

namespace Walk

/-- Every layer that was closed is there under its number, overdrawn at most. -/
def Preserves (w w' : Walk) : Prop :=
  ∀ (i : Nat) (l : Layer), w.closed[i]? = some l → ∃ l', w'.closed[i]? = some l' ∧ l.Overdrawn l'

variable {style : DetectorStyle} {w w' w'' : Walk} {o : Operation} {past : History}

theorem Preserves.refl (w : Walk) : Preserves w w :=
  fun _ l hl => ⟨l, hl, .refl l⟩

theorem Preserves.trans (h : Preserves w w') (h' : Preserves w' w'') : Preserves w w'' := by
  intro i l hl
  obtain ⟨l', hl', hover⟩ := h i l hl
  obtain ⟨l'', hl'', hover'⟩ := h' i l' hl'
  exact ⟨l'', hl'', hover.trans hover'⟩

theorem Preserves.of_closed_eq (h : w'.closed = w.closed) : Preserves w w' := by
  intro i l hl
  exact ⟨l, h ▸ hl, .refl l⟩

/-! ### Labels -/

theorem overdrawn_labelOn (look : LabelStyle) (index slot : Nat) (l : Layer) :
    l.Overdrawn (labelOn look index slot l) := by
  unfold labelOn
  split
  · exact .refl l
  · exact l.overdrawn_draw _

theorem preserves_onLayer {f : Layer → Layer} (hf : ∀ l : Layer, l.Overdrawn (f l)) (w : Walk)
    (owner : Nat) : Preserves w (w.onLayer owner f) := by
  unfold onLayer
  split
  · exact .of_closed_eq rfl
  · intro i l hl
    show ∃ l', (w.closed.modify owner f)[i]? = some l' ∧ _
    rw [Array.getElem?_modify, hl]
    split
    · exact ⟨f l, rfl, hf l⟩
    · exact ⟨l, rfl, .refl l⟩

theorem preserves_markedUpTo (style : DetectorStyle) (w : Walk) (o : Operation) (ks : List Int32) :
    Preserves w (markedUpTo style w o ks) :=
  markedUpTo_relates (fun _ _ _ => .trans) (fun _ _ _ _ => .of_closed_eq rfl)
    (fun s owner _ _ => preserves_onLayer (overdrawn_labelOn _ _ _) s owner) ks

theorem timeline_onLayer (w : Walk) (owner : Nat) (f : Layer → Layer) :
    (w.onLayer owner f).timeline = w.timeline := by
  unfold onLayer
  split <;> rfl

theorem timeline_markLookback (look : LabelStyle) (name : String) (w : Walk) (k : Int32) :
    (markLookback look name w k).timeline = w.timeline :=
  markLookback_relates (R := fun s t => t.timeline = s.timeline) (fun _ _ _ h h' => h'.trans h)
    (fun _ _ _ => rfl) (fun s owner _ _ => s.timeline_onLayer owner _) name w k

/-- The lookback reaches a measurement that the layer owns. -/
def Reaches (w : Walk) (i : Nat) (k : Int32) : Prop :=
  ∃ j, w.timeline.resolve? k.toInt = some j ∧ w.timeline.layerOf? j = some i

theorem closed_onLayer_of_ne {owner i : Nat} (h : owner ≠ i) (w : Walk) (f : Layer → Layer) :
    (w.onLayer owner f).closed[i]? = w.closed[i]? := by
  unfold onLayer
  split
  · rfl
  · show (w.closed.modify owner f)[i]? = _
    rw [Array.getElem?_modify, if_neg h]

theorem closed_markLookback_of_not_reaches {i : Nat} {k : Int32} (h : ¬Reaches w i k)
    (look : LabelStyle) (name : String) :
    (markLookback look name w k).closed[i]? = w.closed[i]? := by
  unfold markLookback
  cases hj : w.timeline.resolve? k.toInt with
  | none => rfl
  | some j =>
    dsimp only
    cases howner : w.timeline.layerOf? j with
    | none => rfl
    | some owner =>
      refine closed_onLayer_of_ne ?_ _ _
      rintro rfl
      exact h ⟨j, hj, howner⟩

theorem closed_markedUpTo_of_not_reaches {i : Nat} {ks : List Int32}
    (h : ∀ k ∈ ks, ¬Reaches w i k) : (markedUpTo style w o ks).closed[i]? = w.closed[i]? := by
  have hfold : ∀ (s : Walk), s.timeline = w.timeline →
      (ks.foldl (markLookback (lookOf style w o) o.name) s).closed[i]? = s.closed[i]? := by
    induction ks with
    | nil => exact fun _ _ => rfl
    | cons k ks ih =>
      obtain ⟨hk, hks⟩ := List.forall_mem_cons.mp h
      intro s hs
      have hkept : ¬Reaches s i k := by
        unfold Reaches
        rwa [hs]
      rw [List.foldl_cons, ih hks _ ((timeline_markLookback _ _ s k).trans hs),
        closed_markLookback_of_not_reaches hkept]
  rw [markedUpTo, hfold _ (timeline_opened o)]
  unfold opened
  split <;> rfl

/-! ### Steps and runs -/

theorem size_closed_onLayer (w : Walk) (owner : Nat) (f : Layer → Layer) :
    (w.onLayer owner f).closed.size = w.closed.size := by
  unfold onLayer
  split
  · rfl
  · exact Array.size_modify

theorem size_closed_markedUpTo (style : DetectorStyle) (w : Walk) (o : Operation) (ks : List Int32) :
    (markedUpTo style w o ks).closed.size = w.closed.size :=
  markedUpTo_relates (R := fun s t => t.closed.size = s.closed.size) (fun _ _ _ h h' => h'.trans h)
    (fun _ _ _ _ => rfl) (fun s owner _ _ => s.size_closed_onLayer owner _) ks

theorem Stepped.closed_eq (h : Stepped style w o w') (htick : o.kind ≠ .tick)
    (hmark : o.isMarking = false) : w'.closed = w.closed := by
  have hgate (hgate : o.isGate = true) : w'.closed = w.closed := (h.inks hgate).closed
  cases h with
  | singles kind | pairs kind | products kind => exact hgate (by rw [Operation.isGate, kind])
  | declared | shifted => rfl
  | ticked kind => exact absurd kind htick
  | marking kind =>
    rw [Operation.isMarking_iff.mpr kind] at hmark
    cases hmark
  | @noted channel qs =>
    exact foldl_relates (R := fun s t : Walk => t.closed = s.closed) (f := noteNoise channel)
      (fun _ => rfl) (fun _ _ _ h h' => h'.trans h) (fun _ _ => rfl) qs w

theorem layers_of_closed {i : Nat} {l : Layer} (hl : w.closed[i]? = some l) :
    w.layers[i]? = some l := by
  have hi : i < w.closed.size := (Array.getElem?_eq_some_iff.mp hl).1
  rw [layers, Array.getElem?_push, if_neg (Nat.ne_of_lt hi), hl]

theorem closed_advance (w : Walk) : w.advance.closed = w.layers :=
  rfl

theorem preserves_advance (w : Walk) : Preserves w w.advance :=
  fun _ l hl => ⟨l, layers_of_closed hl, .refl l⟩

theorem advance_of_step (h : step style w o = .ok w') (htick : o.kind = .tick) : w' = w.advance := by
  unfold step at h
  rw [htick] at h
  cases h
  rfl

/-- Whatever a step does, the closed layers are overdrawn at most. -/
theorem preserves_of_step (h : step style w o = .ok w') : Preserves w w' := by
  by_cases htick : o.kind = .tick
  · rw [advance_of_step h htick]
    exact w.preserves_advance
  · cases hmark : o.isMarking with
    | false => exact .of_closed_eq ((stepped_of_step h).closed_eq htick hmark)
    | true =>
      obtain ⟨ks, -, rfl⟩ := eq_markedUpTo_of_step (Operation.isMarking_iff.mp hmark) h
      exact preserves_markedUpTo style w o ks

theorem preserves_of_foldlM {ops : List Operation} (h : ops.foldlM (step style) w = .ok w') :
    Preserves w w' :=
  foldlM_relates (R := Preserves) .refl (fun _ _ _ => .trans) (fun _ _ _ => preserves_of_step) h

theorem exists_reaches_of_step (h : step style w o = .ok w') (htick : o.kind ≠ .tick) {i : Nat}
    (hne : w'.closed[i]? ≠ w.closed[i]?) :
    (o.kind = .detector ∨ o.kind = .observableInclude) ∧ ∃ k, .record k ∈ o.targets ∧ Reaches w i k := by
  cases hmark : o.isMarking with
  | false => exact absurd (congrArg (·[i]?) ((stepped_of_step h).closed_eq htick hmark)) hne
  | true =>
    have hkind := Operation.isMarking_iff.mp hmark
    obtain ⟨ks, hks, rfl⟩ := eq_markedUpTo_of_step hkind h
    refine ⟨hkind, ?_⟩
    by_contra hnone
    refine hne (closed_markedUpTo_of_not_reaches fun k hk hreaches => hnone ⟨k, ?_, hreaches⟩)
    exact o.record_mem_targets hks hk

theorem declared_of_step (h : step style w o = .ok w') (hkind : o.kind = .qubitCoords) :
    ∃ g qs, w' = w.declare g qs := by
  cases stepped_of_step h with
  | declared => exact ⟨_, _, rfl⟩
  | shifted kind | singles kind | pairs kind | products kind | ticked kind | noted kind =>
    rw [hkind] at kind
    cases kind
  | marking kind => rcases kind with kind | kind <;> rw [hkind] at kind <;> cases kind

theorem Follows.exists_position (h : Follows past w) {i j : Nat} {l : Layer} {k : Int32}
    (hl : w.closed[i]? = some l) (hj : w.timeline.resolve? k.toInt = some j)
    (howner : w.timeline.layerOf? j = some i) : ∃ p, l.measurementPosition? j = some p := by
  rw [h.resolve?] at hj
  obtain ⟨site, l', -, hsite, hl', hpos⟩ := h.exists_site (past.lt_recorded_of_reached? hj)
  obtain rfl : i = site.layer := Option.some.inj (howner.symm.trans hsite)
  obtain rfl : l = l' := Option.some.inj ((layers_of_closed hl).symm.trans hl')
  exact ⟨site.position, hpos⟩

theorem current_of_step (h : step style w o = .ok w') (htick : o.kind ≠ .tick) :
    w'.closed.size = w.closed.size ∧
      w.current.primitives.toList <+: w'.current.primitives.toList := by
  have hsize : w'.closed.size = w.closed.size := by
    cases hmark : o.isMarking with
    | false => rw [(stepped_of_step h).closed_eq htick hmark]
    | true =>
      obtain ⟨ks, -, rfl⟩ := eq_markedUpTo_of_step (Operation.isMarking_iff.mp hmark) h
      exact size_closed_markedUpTo style w o ks
  obtain ⟨l, more, hl, hmore⟩ :=
    (stepped_of_step h).extends w.closed.size w.current Array.getElem?_push_size
  have hcurrent : w'.layers[w.closed.size]? = some w'.current := by
    rw [← hsize]
    exact Array.getElem?_push_size
  obtain rfl : w'.current = l := Option.some.inj (hcurrent.symm.trans hl)
  exact ⟨hsize, more.toList, by rw [hmore, Array.toList_append]⟩

/-- **Closed layers are snapshots.** A layer that is closed when an operation is met keeps its
coordinates, its used positions and the positions of its measurements, and all that is drawn on it, in
place and in order; it changes at all only if the operation labels a measurement that it owns. The open
layer is only drawn on until a tick closes it as it is, and the next one starts empty under the same
coordinates. A declaration changes the coordinates of the open layer and nothing else. However a run
goes on, what is closed stays so. -/
theorem closed_layers_are_snapshots {ops : List Operation}
    (hw : ops.foldlM (step style) start = .ok w) (h : step style w o = .ok w') :
    (∀ (i : Nat) (l : Layer), w.closed[i]? = some l → ∃ l', w'.closed[i]? = some l' ∧
        l.Overdrawn l' ∧
        (l' ≠ l → (o.kind = .detector ∨ o.kind = .observableInclude) ∧
          ∃ k j p, .record k ∈ o.targets ∧ w.timeline.resolve? k.toInt = some j ∧
            w.timeline.layerOf? j = some i ∧ l.measurementPosition? j = some p)) ∧
      (o.kind ≠ .tick → w'.closed.size = w.closed.size ∧
        w.current.primitives.toList <+: w'.current.primitives.toList) ∧
      (o.kind = .tick →
        w'.closed = w.closed.push w.current ∧ w'.current = .under w.current.coords) ∧
      (o.kind = .qubitCoords →
        w'.closed = w.closed ∧ ∃ coords, w'.current = { w.current with coords := coords }) ∧
      ∀ (more : List Operation) (v : Walk), more.foldlM (step style) w' = .ok v →
        ∀ (i : Nat) (l : Layer), w'.closed[i]? = some l →
          ∃ l', v.closed[i]? = some l' ∧ l.Overdrawn l' := by
  refine ⟨?_, current_of_step h, ?_, ?_, fun _ _ hmore => preserves_of_foldlM hmore⟩
  · intro i l hl
    obtain ⟨l', hl', hover⟩ := preserves_of_step h i l hl
    refine ⟨l', hl', hover, fun hne => ?_⟩
    have htick : o.kind ≠ .tick := by
      intro htick
      rw [advance_of_step h htick, closed_advance, layers_of_closed hl] at hl'
      exact hne (Option.some.inj hl').symm
    have hchanged : w'.closed[i]? ≠ w.closed[i]? := by
      rw [hl, hl']
      exact fun heq => hne (Option.some.inj heq)
    obtain ⟨hkind, k, hk, j, hj, howner⟩ := exists_reaches_of_step h htick hchanged
    obtain ⟨p, hp⟩ := (follows_of_foldlM hw).exists_position hl hj howner
    exact ⟨hkind, k, j, p, hk, hj, howner, hp⟩
  · intro htick
    rw [advance_of_step h htick]
    exact ⟨rfl, rfl⟩
  · intro hkind
    obtain ⟨g, qs, rfl⟩ := declared_of_step h hkind
    exact ⟨rfl, _, foldl_declare g qs w.current⟩

/-- A detector behind a tick draws on the layer of its measurement, whose qubit was placed anew
since. -/
theorem closed_layers_are_snapshots_behind_tick :
    let place (x : Float) : Operation := ⟨"QUBIT_COORDS", .qubitCoords, [.qubit 7 false], [x, 3]⟩
    let measure : Operation := ⟨"M", .single .m, [.qubit 7 false], []⟩
    let tick : Operation := ⟨"TICK", .tick, [], []⟩
    let detector : Operation := ⟨"DETECTOR", .detector, [.record (-1)], []⟩
    ∃ w w' l l', [place 2, measure, tick, place 9].foldlM (step ⟨fun _ => false, ∅⟩) start = .ok w ∧
      step ⟨fun _ => false, ∅⟩ w detector = .ok w' ∧ w.closed[0]? = some l ∧
      w'.closed[0]? = some l' ∧ l.Overdrawn l' ∧ l.primitives.size < l'.primitives.size := by
  intro place measure tick detector
  obtain ⟨w, w', hw, hw', hmore⟩ : ∃ w w',
      [place 2, measure, tick, place 9].foldlM (step ⟨fun _ => false, ∅⟩) start = .ok w ∧
      step ⟨fun _ => false, ∅⟩ w detector = .ok w' ∧
      w.closed[0]?.map (·.primitives.size) = some 2 ∧
      w'.closed[0]?.map (·.primitives.size) = some 3 := ⟨_, _, rfl, rfl, rfl, rfl⟩
  obtain ⟨l, hl, hsize⟩ := Option.map_eq_some_iff.mp hmore.1
  obtain ⟨l', hl', hover, -⟩ := (closed_layers_are_snapshots hw hw').1 0 l hl
  have hsize' : l'.primitives.size = 3 := by
    have h := hmore.2
    rw [hl'] at h
    exact Option.some.inj h
  exact ⟨w, w', l, l', hw, hw', hl, hl', hover, by omega⟩

end Walk

end CircuitFrames
