import CircuitFrames.Proofs.Diagram.Counts
import CircuitFrames.Proofs.Diagram.Lookback
import CircuitFrames.Proofs.Diagram.Renumbering

/-!
# A run behind another

Operations that place no qubit and look back no further than to their own first measurement draw the
same wherever they run. `Behind base v w` says that the walk `w` has done behind the walk `base` what
`v` has done alone: layers and measurements are numbered on from those of `base`, and so are the
detectors in the labels (`Renumbered`); what `base` had drawn is as it was. Each step keeps this
(`Behind.step`), and so does a run (`Behind.foldlM`).
-/

namespace CircuitFrames

/-- Detectors labelled by their numbers, with none highlighted. -/
def DetectorStyle.plain : DetectorStyle :=
  ⟨fun _ => false, ∅⟩

/-- Behind a history, every lookback of an operation that labels reaches a measurement of the history
or of the operations themselves. -/
def History.LooksBackWithin (past ops : History) : Prop :=
  ∀ pre o post, ops = pre ++ o :: post → o.isMarking = true →
    ∀ k, .record k ∈ o.targets → (History.reached? (past ++ pre) k).isSome = true

namespace History.LooksBackWithin

variable {past ops : History} {o : Operation}

theorem head (h : LooksBackWithin past (o :: ops)) (hmarking : o.isMarking = true) (k : Int32)
    (hk : .record k ∈ o.targets) : (reached? past k).isSome = true := by
  have hreached := h [] o ops rfl hmarking k hk
  rwa [List.append_nil] at hreached

theorem tail (h : LooksBackWithin past (o :: ops)) : LooksBackWithin (past ++ [o]) ops := by
  intro pre p post hops hmarking k hk
  have hreached := h (o :: pre) p post (by rw [hops]; rfl) hmarking k hk
  rwa [List.append_assoc]

end History.LooksBackWithin

/-! ### Writing on the open layer -/

namespace Writing

/-- One more mark. -/
def mark (x : Qubit × MarkKind) (t : Writing) : Writing :=
  { t with marks := t.marks ++ [x] }

/-- One more note, unless there is one with its code. -/
def note (q : Qubit) (channel : NoiseChannel) (t : Writing) : Writing :=
  { t with
    notes := {x | q = x.1 ∧ Note.codeRank channel = Note.codeRank x.2 ∨ x ∈ t.notes} }

end Writing

namespace Walk

/-- From `w` to `w'` the open layer is written on. -/
def Writes (f : Writing → Writing) (w w' : Walk) : Prop :=
  ∀ i, w'.writing i = if i = w.currentIndex then f (w.writing i) else w.writing i

theorem writes_correction (w : Walk) (gate : PairGate) (q : Qubit) :
    Writes (.mark (q, .correction)) w (w.drawPair gate (.correction q)) := by
  intro i
  show Writing.mk (((w.corrections.push ⟨q, w.currentIndex, .correction⟩).toList.filter
    (·.layer = i)).map fun m => (m.qubit, m.kind)) (w.writing i).notes = _
  rw [Array.toList_push, List.filter_append, List.map_append]
  split
  next hi =>
    subst hi
    simp [Writing.mark, writing]
  next hi =>
    have hlayer : ¬w.currentIndex = i := fun h => hi h.symm
    simp [hlayer, writing]

theorem writes_noteNoise (w : Walk) (channel : NoiseChannel) (q : Qubit) :
    Writes (.note q channel) w (noteNoise channel w q) := by
  intro i
  show Writing.mk (w.writing i).marks
    {x | (⟨x.1, i, x.2⟩ : Note) ∈ w.notes.insert ⟨q, w.currentIndex, channel⟩} = _
  simp only [Std.ExtTreeSet.mem_insert, Note.order_eq_eq]
  split
  next hi =>
    subst hi
    simp [Writing.note, writing]
  next hi =>
    have hlayer : ¬w.currentIndex = i := fun h => hi h.symm
    simp [hlayer, writing]

/-! ### Walks -/

/-- `w` has done behind `base` what `v` has done alone. -/
structure Behind (base v w : Walk) : Prop where
  size : w.closed.size = base.closed.size + v.closed.size
  earlier : ∀ i < base.closed.size, w.closed[i]? = base.closed[i]?
  later : ∀ (i : Nat) (l : Layer), v.closed[i]? = some l →
    ∃ l', w.closed[base.closed.size + i]? = some l' ∧
      Redrawn base.timeline.length base.nextDetector l l'
  current : Redrawn base.timeline.length base.nextDetector v.current w.current
  owners : w.timeline.owners.toList =
    base.timeline.owners.toList ++ v.timeline.owners.toList.map (base.closed.size + ·)
  nextDetector : w.nextDetector = v.nextDetector + base.nextDetector
  labels : ∀ i, w.labels.getD (base.timeline.length + i) 0 = v.labels.getD i 0
  writtenEarlier : ∀ i < base.closed.size, w.writing i = base.writing i
  written : ∀ i, w.writing (base.closed.size + i) = v.writing i

namespace Behind

variable {base v w : Walk}

theorem currentIndex (h : Behind base v w) :
    w.currentIndex = base.closed.size + v.currentIndex :=
  h.size

theorem length (h : Behind base v w) :
    w.timeline.length = base.timeline.length + v.timeline.length := by
  have hlength := congrArg List.length h.owners
  simpa [Timeline.length] using hlength

theorem foldl {α : Type} {f : Walk → α → Walk}
    (hf : ∀ v w a, Behind base v w → Behind base (f v a) (f w a)) (h : Behind base v w)
    (as : List α) : Behind base (as.foldl f v) (as.foldl f w) := by
  induction as generalizing v w with
  | nil => exact h
  | cons a as ih => exact ih (hf v w a h)

/-! ### The open layer -/

theorem onCurrent (h : Behind base v w) {f g : Layer → Layer}
    (hfg : Redrawn base.timeline.length base.nextDetector (f v.current) (g w.current)) :
    Behind base (v.onCurrent f) (w.onCurrent g) :=
  { h with current := hfg }

theorem advance (h : Behind base v w) : Behind base v.advance w.advance := by
  refine { h with size := ?_, earlier := ?_, later := ?_, current := h.current.successor }
  · show (w.closed.push w.current).size = _ + (v.closed.push v.current).size
    rw [Array.size_push, Array.size_push, h.size]
    rfl
  · intro i hi
    show (w.closed.push w.current)[i]? = _
    have hsize := h.size
    rw [Array.getElem?_push, if_neg (by omega), h.earlier i hi]
  · intro i l hl
    show ∃ l', (w.closed.push w.current)[base.closed.size + i]? = some l' ∧ _
    change (v.closed.push v.current)[i]? = some l at hl
    have hsize := h.size
    rw [Array.getElem?_push] at hl ⊢
    by_cases hi : i = v.closed.size
    · rw [if_pos hi] at hl
      cases hl
      rw [if_pos (by omega)]
      exact ⟨w.current, rfl, h.current⟩
    · rw [if_neg hi] at hl
      rw [if_neg (by omega)]
      exact h.later i l hl

theorem measure (h : Behind base v w) (q : Qubit) : Behind base (v.measure q) (w.measure q) := by
  refine { h with current := ?_, owners := ?_ }
  · show Redrawn _ _ ((v.current.touch q).recordMeasurement v.timeline.length (v.current.position q))
      ((w.current.touch q).recordMeasurement w.timeline.length (w.current.position q))
    rw [h.length, h.current.position]
    exact (h.current.touch q).recordMeasurement _ _
  · show (w.timeline.owners.push w.currentIndex).toList =
      _ ++ (v.timeline.owners.push v.currentIndex).toList.map _
    rw [Array.toList_push, Array.toList_push, h.owners, h.currentIndex]
    simp

theorem drawBox (h : Behind base v w) (gate : SingleGate) (q : Qubit) :
    Behind base (v.drawBox gate q) (w.drawBox gate q) := by
  unfold Walk.drawBox
  apply h.onCurrent
  rw [h.current.position]
  exact (h.current.touch q).draw (renumbered_of_unmarked
    (unmarked_box (label_boxStyle_ne gate) (fill_boxStyle_ne gate) _ _))

theorem drawSingles (h : Behind base v w) (gate : SingleGate) (qs : List Qubit) :
    Behind base (v.drawSingles gate qs) (w.drawSingles gate qs) := by
  have hboxes {v w : Walk} (h : Behind base v w) :
      Behind base (qs.foldl (·.drawBox gate ·) v) (qs.foldl (·.drawBox gate ·) w) :=
    h.foldl (fun _ _ q h => h.drawBox gate q) qs
  unfold Walk.drawSingles
  cases gate.isMeasurement with
  | true => exact hboxes (h.foldl (fun _ _ q h => h.measure q) qs)
  | false => exact hboxes h

theorem drawProduct (h : Behind base v w) (factors : List (Qubit × Pauli)) :
    Behind base (v.drawProduct factors) (w.drawProduct factors) := by
  cases factors with
  | nil => exact h
  | cons f factors =>
    have hmeasured := h.measure f.1
    unfold Walk.drawProduct
    apply hmeasured.onCurrent
    simp only [hmeasured.current.position]
    exact (hmeasured.current.foldl_touch (f :: factors)).draw
      (renumbered_of_unmarked (unmarked_product _ (productColor_ne _)))

theorem writes (h : Behind base v w) {f : Writing → Writing} {v' w' : Walk} (hv : Writes f v v')
    (hw : Writes f w w') :
    (∀ i < base.closed.size, w'.writing i = base.writing i) ∧
      ∀ i, w'.writing (base.closed.size + i) = v'.writing i := by
  have hindex := h.currentIndex
  constructor
  · intro i hi
    rw [hw, if_neg (by omega), h.writtenEarlier i hi]
  · intro i
    rw [hw, hv, h.written]
    by_cases hi : i = v.currentIndex
    · rw [if_pos (by omega), if_pos hi]
    · rw [if_neg (by omega), if_neg hi]

theorem drawPair (h : Behind base v w) (gate : PairGate) (action : PairAction) :
    Behind base (v.drawPair gate action) (w.drawPair gate action) := by
  cases action with
  | edge a b =>
    unfold Walk.drawPair
    apply h.onCurrent
    rw [h.current.position, h.current.position]
    exact ((h.current.touch a).touch b).draw (renumbered_of_unmarked (unmarked_pair _ _ _))
  | correction q =>
    have hwrites := h.writes (writes_correction v gate q) (writes_correction w gate q)
    exact { h with writtenEarlier := hwrites.1, written := hwrites.2 }
  | nothing => exact h

theorem noteNoise (h : Behind base v w) (channel : NoiseChannel) (q : Qubit) :
    Behind base (Walk.noteNoise channel v q) (Walk.noteNoise channel w q) := by
  have hwrites := h.writes (writes_noteNoise v channel q) (writes_noteNoise w channel q)
  exact { h with writtenEarlier := hwrites.1, written := hwrites.2 }

/-! ### Lookbacks -/

theorem onLayer (h : Behind base v w) {f g : Layer → Layer}
    (hfg : ∀ l l', Redrawn base.timeline.length base.nextDetector l l' →
      Redrawn base.timeline.length base.nextDetector (f l) (g l')) (i : Nat) :
    Behind base (v.onLayer i f) (w.onLayer (base.closed.size + i) g) := by
  have hindex := h.currentIndex
  unfold Walk.onLayer
  by_cases hi : i = v.currentIndex
  · rw [if_pos hi, if_pos (by omega)]
    exact h.onCurrent (hfg _ _ h.current)
  · rw [if_neg hi, if_neg (by omega)]
    refine { h with size := ?_, earlier := ?_, later := ?_ }
    · show (w.closed.modify _ g).size = _ + (v.closed.modify i f).size
      rw [Array.size_modify, Array.size_modify, h.size]
    · intro j hj
      show (w.closed.modify _ g)[j]? = _
      rw [Array.getElem?_modify, if_neg (by omega), h.earlier j hj]
    · intro j l hl
      show ∃ l', (w.closed.modify _ g)[base.closed.size + j]? = some l' ∧ _
      change (v.closed.modify i f)[j]? = some l at hl
      rw [Array.getElem?_modify] at hl ⊢
      by_cases hij : i = j
      · rw [if_pos hij, Option.map_eq_some_iff] at hl
        obtain ⟨before, hbefore, rfl⟩ := hl
        obtain ⟨l', hl', hredrawn⟩ := h.later j before hbefore
        rw [if_pos (by omega), hl']
        exact ⟨g l', rfl, hfg _ _ hredrawn⟩
      · rw [if_neg hij] at hl
        rw [if_neg (by omega)]
        exact h.later j l hl

theorem resolve? (h : Behind base v w) {k : Int} {i : Nat}
    (hi : v.timeline.resolve? k = some i) :
    w.timeline.resolve? k = some (base.timeline.length + i) := by
  have hlength := h.length
  unfold Timeline.resolve? at hi ⊢
  dsimp only at hi ⊢
  split at hi
  next hk =>
    cases hi
    rw [if_pos (by omega)]
    congr 1
    omega
  next => cases hi

theorem layerOf? (h : Behind base v w) (i : Nat) :
    w.timeline.layerOf? (base.timeline.length + i) =
      (v.timeline.layerOf? i).map (base.closed.size + ·) := by
  have hlength : base.timeline.length = base.timeline.owners.toList.length :=
    Array.length_toList.symm
  unfold Timeline.layerOf?
  rw [← Array.getElem?_toList, h.owners, hlength,
    List.getElem?_append_right (Nat.le_add_right _ _), List.getElem?_map, ← Array.getElem?_toList,
    Nat.add_sub_cancel_left]

theorem markLookback (h : Behind base v w) {look look' : LabelStyle}
    (hlook : Relabelled base.nextDetector look look') (name : String) {k : Int32}
    (hk : (v.timeline.resolve? k.toInt).isSome = true) :
    Behind base (Walk.markLookback look name v k) (Walk.markLookback look' name w k) := by
  obtain ⟨i, hi⟩ := Option.isSome_iff_exists.mp hk
  have hlabels : ∀ j,
      (w.labels.insert (base.timeline.length + i) (v.labels.getD i 0 + 1)).getD
        (base.timeline.length + j) 0 = (v.labels.insert i (v.labels.getD i 0 + 1)).getD j 0 := by
    intro j
    rw [Std.ExtTreeMap.getD_insert, Std.ExtTreeMap.getD_insert]
    by_cases hij : i = j
    · rw [if_pos (by rw [Nat.compare_eq_eq, hij]), if_pos (by rw [Nat.compare_eq_eq, hij])]
    · rw [if_neg (by rw [Nat.compare_eq_eq]; omega), if_neg (by rw [Nat.compare_eq_eq]; omega)]
      exact h.labels j
  have hmarked : Behind base { v with labels := v.labels.insert i (v.labels.getD i 0 + 1) }
      { w with labels := w.labels.insert (base.timeline.length + i) (v.labels.getD i 0 + 1) } :=
    { h with labels := hlabels }
  unfold Walk.markLookback
  rw [hi, h.resolve? hi]
  dsimp only
  rw [h.layerOf?, h.labels]
  cases v.timeline.layerOf? i with
  | none => exact hmarked
  | some owner =>
    refine hmarked.onLayer ?_ owner
    intro l l' hl
    rw [hl.places]
    cases l.measurementPosition? i with
    | none => exact hl
    | some p => exact hl.draw (hlook p _)

theorem relabelled (h : Behind base v w) (o : Operation) :
    Relabelled base.nextDetector (lookOf .plain v o) (lookOf .plain w o) := by
  have hlabel (w : Walk) :
      w.detectorLabel .plain = ⟨"D" ++ toString w.nextDetector, "black", false⟩ := by
    simp [detectorLabel, DetectorStyle.plain]
  unfold lookOf
  split
  · rw [hlabel, hlabel, h.nextDetector]
    exact relabelled_detector _
  · exact relabelled_observable _

theorem opened (h : Behind base v w) (o : Operation) :
    Behind base (Walk.opened v o) (Walk.opened w o) := by
  unfold Walk.opened
  split
  · refine { h with nextDetector := ?_ }
    have hnext := h.nextDetector
    show w.nextDetector + 1 = v.nextDetector + 1 + _
    omega
  · exact h

theorem foldl_markLookback (h : Behind base v w) {look look' : LabelStyle}
    (hlook : Relabelled base.nextDetector look look') (name : String) {ks : List Int32}
    (hks : ∀ k ∈ ks, (v.timeline.resolve? k.toInt).isSome = true) :
    Behind base (ks.foldl (Walk.markLookback look name) v)
      (ks.foldl (Walk.markLookback look' name) w) := by
  induction ks generalizing v w with
  | nil => exact h
  | cons k ks ih =>
    obtain ⟨hk, hks⟩ := List.forall_mem_cons.mp hks
    apply ih (h.markLookback hlook name hk)
    intro k' hk'
    have hlength : (Walk.markLookback look name v k).timeline.length = v.timeline.length :=
      congrArg Tally.measurements (v.tally_markLookback look name k)
    unfold Timeline.resolve? at hks ⊢
    rw [hlength]
    exact hks k' hk'

/-! ### Steps and runs -/

theorem readable_map {α : Type} {x : Except CircuitError α} {f g : α → Walk}
    (hfg : ∀ a, x = .ok a → Behind base (f a) (g a)) {v' : Walk}
    (hv : (readable x).map f = .ok v') : ∃ w', (readable x).map g = .ok w' ∧ Behind base v' w' := by
  obtain ⟨a, ha, rfl⟩ := readable_map_eq_ok.mp hv
  exact ⟨g a, readable_map_eq_ok.mpr ⟨a, ha, rfl⟩, hfg a ha⟩

theorem step (h : Behind base v w) {o : Operation} (hplaces : o.kind ≠ .qubitCoords)
    (hreach : o.isMarking = true →
      ∀ k, .record k ∈ o.targets → (v.timeline.resolve? k.toInt).isSome = true)
    {v' : Walk} (hv : Walk.step .plain v o = .ok v') :
    ∃ w', Walk.step .plain w o = .ok w' ∧ Behind base v' w' := by
  -- an operation that labels goes through the same lookbacks in both walks
  have hmarked {ks : List Int32} (hks : o.lookbacks = .ok ks) (hmarking : o.isMarking = true) :
      Behind base (markedUpTo .plain v o ks) (markedUpTo .plain w o ks) := by
    apply (h.opened o).foldl_markLookback (h.relabelled o)
    intro k hk
    rw [timeline_opened]
    exact hreach hmarking k (o.record_mem_targets hks hk)
  cases hkind : o.kind with
  | qubitCoords => exact absurd hkind hplaces
  | shiftCoords =>
    unfold Walk.step at hv ⊢
    rw [hkind] at hv ⊢
    cases hv
    exact ⟨_, rfl, { h with }⟩
  | single gate =>
    unfold Walk.step at hv ⊢
    rw [hkind] at hv ⊢
    exact readable_map (fun qs _ => h.drawSingles gate qs) hv
  | pair gate =>
    unfold Walk.step at hv ⊢
    rw [hkind] at hv ⊢
    exact readable_map
      (fun actions _ => h.foldl (fun _ _ action h => h.drawPair gate action) actions) hv
  | pauliProduct =>
    unfold Walk.step at hv ⊢
    rw [hkind] at hv ⊢
    exact readable_map (fun ps _ => h.foldl (fun _ _ factors h => h.drawProduct factors) ps) hv
  | tick =>
    unfold Walk.step at hv ⊢
    rw [hkind] at hv ⊢
    cases hv
    exact ⟨_, rfl, h.advance⟩
  | detector =>
    rw [step_detector hkind] at hv ⊢
    exact readable_map (fun ks hks => hmarked hks (by simp [Operation.isMarking, hkind])) hv
  | observableInclude =>
    rw [step_observable hkind] at hv ⊢
    cases hindex : o.observableIndex with
    | error e =>
      rw [hindex] at hv
      cases hv
    | ok index =>
      rw [hindex] at hv
      exact readable_map (fun ks hks => hmarked hks (by simp [Operation.isMarking, hkind])) hv
  | noise channel =>
    unfold Walk.step at hv ⊢
    rw [hkind] at hv ⊢
    exact readable_map (fun qs _ => h.foldl (fun _ _ q h => h.noteNoise channel q) qs) hv
  | unsupported =>
    unfold Walk.step at hv
    rw [hkind] at hv
    cases hv

/-- A run that looks back to its own measurements only does behind another walk what it does alone. -/
theorem foldlM (h : Behind base v w) {past ops : History}
    (hlength : v.timeline.length = past.recorded) (hplaces : ∀ o ∈ ops, o.kind ≠ .qubitCoords)
    (hreach : History.LooksBackWithin past ops)
    {v' : Walk} (hv : ops.foldlM (Walk.step .plain) v = .ok v') :
    ∃ w', ops.foldlM (Walk.step .plain) w = .ok w' ∧ Behind base v' w' := by
  induction ops generalizing v w past with
  | nil =>
    cases hv
    exact ⟨w, rfl, h⟩
  | cons o ops ih =>
    obtain ⟨ho, hplaces⟩ := List.forall_mem_cons.mp hplaces
    rw [List.foldlM_cons, bind_eq_ok] at hv
    obtain ⟨v₁, hstep, hv⟩ := hv
    have hown : o.isMarking = true →
        ∀ k, .record k ∈ o.targets → (v.timeline.resolve? k.toInt).isSome = true := by
      intro hmarking k hk
      rw [Timeline.resolve?, hlength]
      exact hreach.head hmarking k hk
    obtain ⟨w₁, hw₁, h₁⟩ := h.step ho hown hstep
    have hlength₁ : v₁.timeline.length = History.recorded (past ++ [o]) := by
      rw [History.recorded_snoc, ← hlength]
      exact congrArg Tally.measurements (tally_of_step hstep)
    obtain ⟨w', hw', h'⟩ := ih h₁ hlength₁ hplaces hreach.tail hv
    refine ⟨w', ?_, h'⟩
    rw [List.foldlM_cons, bind_eq_ok]
    exact ⟨w₁, hw₁, hw'⟩

end Behind

end Walk

end CircuitFrames
