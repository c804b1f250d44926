import CircuitFrames.Diagram.Render
import CircuitFrames.Proofs.Diagram.Behind

/-!
# Repeating a block repeats its drawing

A round that ends in a tick and places no qubit leaves a walk behind which the next round starts
afresh (`Fresh`), so the walk of a repeated block has drawn every round as the first (`Rounds`). The
frames of the repeated block are those of its body, one round after the other, with the detectors
numbered on (`render_repeated`).
-/

namespace CircuitFrames

namespace Walk

/-! ### What is not written yet -/

/-- From `w` to `w'` nothing is written on the layers that are still to come. -/
structure WritesBelow (w w' : Walk) : Prop where
  currentIndex : w.currentIndex ≤ w'.currentIndex
  writing : ∀ i, w'.currentIndex < i → w'.writing i = w.writing i

namespace WritesBelow

variable {w w' : Walk}

theorem of_eq (hindex : w'.currentIndex = w.currentIndex) (hwriting : w'.writing = w.writing) :
    WritesBelow w w' :=
  ⟨hindex.ge, fun i _ => congrFun hwriting i⟩

theorem refl (w : Walk) : WritesBelow w w :=
  of_eq rfl rfl

theorem trans {w'' : Walk} (h : WritesBelow w w') (h' : WritesBelow w' w'') :
    WritesBelow w w'' := by
  refine ⟨h.currentIndex.trans h'.currentIndex, fun i hi => ?_⟩
  rw [h'.writing i hi, h.writing i (lt_of_le_of_lt h'.currentIndex hi)]

theorem foldl {α : Type} {f : Walk → α → Walk} (hf : ∀ w a, WritesBelow w (f w a)) (as : List α)
    (w : Walk) : WritesBelow w (as.foldl f w) :=
  foldl_relates refl (fun _ _ _ h h' => h.trans h') hf as w

theorem of_writes {f : Writing → Writing} (hindex : w'.currentIndex = w.currentIndex)
    (h : Writes f w w') : WritesBelow w w' := by
  refine ⟨hindex.ge, fun i hi => ?_⟩
  rw [h, if_neg (by omega)]

theorem drawSingles (w : Walk) (gate : SingleGate) (qs : List Qubit) :
    WritesBelow w (w.drawSingles gate qs) :=
  drawSingles_relates (R := WritesBelow) refl (fun _ _ _ => trans) (fun _ _ => of_eq rfl rfl)
    (fun _ _ => of_eq rfl rfl) w qs

theorem drawPair (w : Walk) (gate : PairGate) (action : PairAction) :
    WritesBelow w (w.drawPair gate action) := by
  cases action with
  | edge a b => exact of_eq rfl rfl
  | correction q => exact of_writes rfl (writes_correction w gate q)
  | nothing => exact refl w

theorem drawProduct (w : Walk) (factors : List (Qubit × Pauli)) :
    WritesBelow w (w.drawProduct factors) := by
  cases factors with
  | nil => exact refl w
  | cons f factors => exact of_eq rfl rfl

theorem onLayer (w : Walk) (owner : Nat) (f : Layer → Layer) : WritesBelow w (w.onLayer owner f) := by
  refine of_eq (congrArg Tally.ticks (w.tally_onLayer owner f)) ?_
  unfold Walk.onLayer
  split <;> rfl

theorem of_step {style : DetectorStyle} {o : Operation} (h : step style w o = .ok w') :
    WritesBelow w w' := by
  cases stepped_of_step h with
  | declared | shifted => exact of_eq rfl rfl
  | singles => exact drawSingles w _ _
  | pairs => exact foldl (fun w action => drawPair w _ action) _ w
  | products => exact foldl drawProduct _ w
  | ticked =>
    refine ⟨?_, fun i _ => rfl⟩
    show w.closed.size ≤ (w.closed.push w.current).size
    rw [Array.size_push]
    exact Nat.le_succ _
  | marking =>
    exact markedUpTo_relates (R := WritesBelow) (fun _ _ _ => trans) (fun _ _ _ _ => of_eq rfl rfl)
      (fun w owner _ _ => onLayer w owner _) _
  | @noted channel qs =>
    exact foldl (f := noteNoise channel)
      (fun w q => of_writes rfl (writes_noteNoise w channel q)) qs w

theorem of_foldlM {style : DetectorStyle} {ops : List Operation}
    (h : ops.foldlM (step style) w = .ok w') : WritesBelow w w' :=
  foldlM_relates (R := WritesBelow) refl (fun _ _ _ h h' => h.trans h') (fun _ _ _ h => of_step h) h

end WritesBelow

end Walk

/-! ### Fresh walks -/

namespace History

theorem coords_of_no_declaration (h : History) (hplaces : ∀ o ∈ h, o.kind ≠ .qubitCoords) :
    h.plane.coords = .empty := by
  induction h using List.reverseRecOn with
  | nil => rfl
  | append_singleton past o ih =>
    have ho := hplaces o (List.mem_append_right _ (List.mem_singleton_self o))
    rw [plane_snoc, ← ih fun p hp => hplaces p (List.mem_append_left _ hp)]
    unfold Plane.after
    split
    · rfl
    next hkind => exact absurd hkind ho
    · rfl

end History

namespace Walk

/-- A walk behind which another starts as at the very start. -/
def Fresh (w : Walk) : Prop :=
  Behind w start w

theorem fresh_of {w : Walk}
    (hopen : Redrawn w.timeline.length w.nextDetector start.current w.current)
    (hlabels : ∀ i, w.labels.getD (w.timeline.length + i) 0 = start.labels.getD i 0)
    (hwriting : ∀ i, w.writing (w.closed.size + i) = start.writing i) : Fresh w where
  size := rfl
  earlier _ _ := rfl
  later _ _ hl := by simp [start] at hl
  current := hopen
  owners := (List.append_nil _).symm
  nextDetector := (Nat.zero_add _).symm
  labels := hlabels
  writtenEarlier _ _ := rfl
  written := hwriting

theorem fresh_start : Fresh start := by
  apply fresh_of
  · exact ⟨rfl, rfl, .nil, fun i => congrArg start.current.measurementPosition? (Nat.zero_add i)⟩
  · exact fun i => congrArg (start.labels.getD · 0) (Nat.zero_add i)
  · exact fun i => congrArg start.writing (Nat.zero_add i)

theorem Behind.fresh {base v w : Walk} (h : Behind base v w) (hv : Fresh v) : Fresh w := by
  apply fresh_of
  · have hprimitives : v.current.primitives.toList = [] :=
      List.forall₂_nil_left_iff.mp hv.current.primitives
    have hredrawn := h.current.primitives
    rw [hprimitives, List.forall₂_nil_left_iff] at hredrawn
    refine ⟨h.current.coords.trans hv.current.coords, h.current.used.trans hv.current.used, ?_, ?_⟩
    · rw [hredrawn]
      exact .nil
    · intro i
      rw [h.length, Nat.add_assoc, h.current.places, hv.current.places]
  · intro i
    rw [h.length, Nat.add_assoc, h.labels, hv.labels]
  · intro i
    rw [h.size, Nat.add_assoc, h.written, hv.written]

theorem Follows.labels_ahead {past : History} {w : Walk} (h : Follows past w) (i : Nat) :
    w.labels.getD (w.timeline.length + i) 0 = 0 := by
  have hnone : w.timeline.length + i ∉ past.marked := by
    intro hmem
    have hlt := History.lt_recorded_of_mem_marked _ hmem
    rw [← h.timeline_length] at hlt
    omega
  exact (h.accounts.labels _).trans (List.count_eq_zero_of_not_mem hnone)

theorem fresh_of_tick {style : DetectorStyle} {ops : History} {o : Operation} (ho : o.kind = .tick)
    (hplaces : ∀ p ∈ ops, p.kind ≠ .qubitCoords) {v : Walk}
    (h : (ops ++ [o]).foldlM (step style) start = .ok v) : Fresh v := by
  have hfollows := follows_of_foldlM h
  obtain ⟨s, v', hs, hstep, hv'⟩ := foldlM_split h
  cases hv'
  obtain rfl : s.advance = v := by
    unfold step at hstep
    rw [ho] at hstep
    exact Except.ok.inj hstep
  have hcoords : s.current.coords = .empty :=
    (follows_of_foldlM hs).accounts.coords.trans (History.coords_of_no_declaration ops hplaces)
  have hopen : s.advance.current = .empty := congrArg Layer.under hcoords
  apply fresh_of
  · rw [hopen]
    refine ⟨rfl, rfl, .nil, fun i => ?_⟩
    show (∅ : Std.ExtTreeMap Nat Point)[_]? = (∅ : Std.ExtTreeMap Nat Point)[_]?
    simp
  · exact hfollows.labels_ahead
  · intro i
    have hindex : s.currentIndex < s.advance.closed.size + i := by
      show s.closed.size < (s.closed.push s.current).size + i
      rw [Array.size_push]
      omega
    exact (WritesBelow.of_foldlM hs).writing _ hindex

/-! ### Rounds -/

/-- A walk that has done a number of times what `v` did. -/
structure Rounds (v : Walk) (n : Nat) (w : Walk) : Prop where
  fresh : Fresh w
  size : w.closed.size = n * v.closed.size
  nextDetector : w.nextDetector = n * v.nextDetector
  layers : ∀ i < n, ∀ (j : Nat) (l : Layer), v.closed[j]? = some l →
    ∃ m l', w.closed[i * v.closed.size + j]? = some l' ∧ Redrawn m (i * v.nextDetector) l l'
  writing : ∀ i < n, ∀ j < v.closed.size, w.writing (i * v.closed.size + j) = v.writing j

theorem rounds_zero (v : Walk) : Rounds v 0 start where
  fresh := fresh_start
  size := (Nat.zero_mul _).symm
  nextDetector := (Nat.zero_mul _).symm
  layers _ hi := absurd hi (Nat.not_lt_zero _)
  writing _ hi := absurd hi (Nat.not_lt_zero _)

theorem Rounds.succ {v w w' : Walk} {n : Nat} (h : Rounds v n w) (hv : Fresh v)
    (hbehind : Behind w v w') : Rounds v (n + 1) w' where
  fresh := hbehind.fresh hv
  size := by rw [hbehind.size, h.size, Nat.succ_mul]
  nextDetector := by rw [hbehind.nextDetector, h.nextDetector, Nat.succ_mul, Nat.add_comm]
  layers := by
    intro i hi j l hl
    -- the last round is the one just done, the others are left as they were
    by_cases hlast : i = n
    · subst hlast
      obtain ⟨l', hl', hredrawn⟩ := hbehind.later j l hl
      rw [h.size] at hl'
      rw [h.nextDetector] at hredrawn
      exact ⟨_, l', hl', hredrawn⟩
    · obtain ⟨m, l', hl', hredrawn⟩ := h.layers i (by omega) j l hl
      refine ⟨m, l', ?_, hredrawn⟩
      rw [hbehind.earlier _ (Array.getElem?_eq_some_iff.mp hl').1, hl']
  writing := by
    intro i hi j hj
    by_cases hlast : i = n
    · subst hlast
      rw [← h.size, hbehind.written]
    · have hlt : i * v.closed.size + j < w.closed.size := by
        rw [h.size]
        calc i * v.closed.size + j < i * v.closed.size + v.closed.size := Nat.add_lt_add_left hj _
          _ = (i + 1) * v.closed.size := (Nat.succ_mul _ _).symm
          _ ≤ n * v.closed.size := Nat.mul_le_mul_right _ (by omega)
      rw [hbehind.writtenEarlier _ hlt, h.writing i (by omega) j hj]

/-- Every round of a run goes as the first. -/
theorem rounds_of_foldlM {ops : History} {v : Walk} (hv : ops.foldlM (step .plain) start = .ok v)
    (hfresh : Fresh v) (hplaces : ∀ o ∈ ops, o.kind ≠ .qubitCoords)
    (hreach : History.LooksBackWithin [] ops) (n : Nat) :
    ∃ w, (List.replicate n ops).flatten.foldlM (step .plain) start = .ok w ∧ Rounds v n w := by
  induction n with
  | zero => exact ⟨start, rfl, rounds_zero v⟩
  | succ n ih =>
    obtain ⟨w, hw, hrounds⟩ := ih
    have hempty : start.timeline.length = History.recorded [] := rfl
    obtain ⟨w', hw', hbehind⟩ := hrounds.fresh.foldlM hempty hplaces hreach hv
    refine ⟨w', ?_, hrounds.succ hfresh hbehind⟩
    rw [List.replicate_succ', List.flatten_concat, List.foldlM_append, bind_eq_ok]
    exact ⟨w, hw, hw'⟩

theorem rounds_of_repeated {b : Circuit} {v : Walk} (hv : Walk.of .plain b = .ok v)
    (hplaces : ∀ o ∈ b.executed, o.kind ≠ .qubitCoords)
    (hreach : History.LooksBackWithin [] b.executed)
    (htick : ∃ ops o, b.executed = ops ++ [o] ∧ o.kind = .tick) (n : UInt64) :
    Fresh v ∧ ∃ w, Walk.of .plain (.repeated n b .nil) = .ok w ∧ Rounds v n.toNat w := by
  have hrun : b.executed.foldlM (step .plain) start = .ok v := by
    rw [← Circuit.run_eq_foldlM]
    exact hv
  have hfresh : Fresh v := by
    obtain ⟨ops, o, hexecuted, ho⟩ := htick
    rw [hexecuted] at hrun hplaces
    exact fresh_of_tick ho (fun p hp => hplaces p (List.mem_append_left _ hp)) hrun
  obtain ⟨w, hw, hrounds⟩ := rounds_of_foldlM hrun hfresh hplaces hreach n.toNat
  refine ⟨hfresh, w, ?_, hrounds⟩
  rw [Walk.of, Circuit.run_eq_foldlM, Circuit.executed_repeated, Circuit.executed, List.append_nil]
  exact hw

/-! ### The frames of the rounds -/

theorem exists_round {n size k : Nat} (hk : k < n * size) :
    ∃ i < n, ∃ j < size, k = i * size + j := by
  have hpos : 0 < size := by
    apply Nat.pos_of_ne_zero
    rintro rfl
    simp at hk
  refine ⟨k / size, Nat.div_lt_of_lt_mul (by rwa [Nat.mul_comm] at hk), k % size,
    Nat.mod_lt k hpos, ?_⟩
  rw [Nat.mul_comm, Nat.div_add_mod]

theorem Fresh.isEmpty_current {w : Walk} (h : Fresh w) : w.current.isEmpty = true := by
  have hprimitives : w.current.primitives.toList = [] :=
    List.forall₂_nil_left_iff.mp h.current.primitives
  unfold Layer.isEmpty
  rw [Array.isEmpty_iff, ← Array.toList_eq_nil_iff]
  exact hprimitives

theorem Fresh.coords_current {w : Walk} (h : Fresh w) : w.current.coords = .empty :=
  h.current.coords

theorem Fresh.exists_mem_layers {w : Walk} (h : Fresh w) {p : Point} :
    (∃ l ∈ w.layers, p ∈ l.used) ↔ ∃ (i : Nat) (l : Layer), w.closed[i]? = some l ∧ p ∈ l.used := by
  have hopen : p ∉ w.current.used := by
    rw [h.current.used]
    exact Std.ExtTreeSet.not_mem_empty
  unfold layers
  constructor
  · rintro ⟨l, hl, hp⟩
    rcases Array.mem_push.mp hl with hl | rfl
    · obtain ⟨i, hi⟩ := Array.getElem?_of_mem hl
      exact ⟨i, l, hi, hp⟩
    · exact absurd hp hopen
  · rintro ⟨i, l, hi, hp⟩
    exact ⟨l, Array.mem_push.mpr (.inl (Array.mem_of_getElem? hi)), hp⟩

namespace Rounds

variable {v w : Walk} {n : Nat}

theorem pointsOn (h : Rounds v n w) (coords : CoordinateMap) {i j : Nat} (hi : i < n)
    (hj : j < v.closed.size) :
    Frame.pointsOn coords w.corrections.toList w.notes (i * v.closed.size + j) =
      Frame.pointsOn coords v.corrections.toList v.notes j :=
  Frame.pointsOn_congr (h.writing i hi j hj)

theorem exists_used_iff (h : Rounds v n w) (hn : 0 < n) {p : Point} :
    (∃ (i : Nat) (l : Layer), w.closed[i]? = some l ∧ p ∈ l.used) ↔
      ∃ (j : Nat) (l : Layer), v.closed[j]? = some l ∧ p ∈ l.used := by
  constructor
  · rintro ⟨k, l', hl', hp⟩
    have hk := (Array.getElem?_eq_some_iff.mp hl').1
    rw [h.size] at hk
    obtain ⟨i, hi, j, hj, rfl⟩ := exists_round hk
    obtain ⟨m, l'', hl'', hredrawn⟩ := h.layers i hi j _ (Array.getElem?_eq_getElem hj)
    rw [hl', Option.some.injEq] at hl''
    subst hl''
    rw [hredrawn.used] at hp
    exact ⟨j, _, Array.getElem?_eq_getElem hj, hp⟩
  · rintro ⟨j, l, hl, hp⟩
    obtain ⟨m, l', hl', hredrawn⟩ := h.layers 0 hn j l hl
    rw [← hredrawn.used] at hp
    exact ⟨_, l', hl', hp⟩

theorem exists_point_iff (h : Rounds v n w) (hn : 0 < n) (coords : CoordinateMap) {p : Point} :
    (∃ k < w.closed.size, p ∈ Frame.pointsOn coords w.corrections.toList w.notes k) ↔
      ∃ j < v.closed.size, p ∈ Frame.pointsOn coords v.corrections.toList v.notes j := by
  constructor
  · rintro ⟨k, hk, hp⟩
    rw [h.size] at hk
    obtain ⟨i, hi, j, hj, rfl⟩ := exists_round hk
    rw [h.pointsOn coords hi hj] at hp
    exact ⟨j, hj, hp⟩
  · rintro ⟨j, hj, hp⟩
    rw [← h.pointsOn coords hn hj] at hp
    refine ⟨0 * v.closed.size + j, ?_, hp⟩
    rw [Nat.zero_mul, Nat.zero_add, h.size]
    exact Nat.lt_of_lt_of_le hj (Nat.le_mul_of_pos_left _ hn)

theorem allPositions (h : Rounds v n w) (hn : 0 < n) (hv : Fresh v) (coords : CoordinateMap) :
    Frame.allPositions coords (Frame.annotated w.corrections.toList w.notes) w.layers w.closed.size =
      Frame.allPositions coords (Frame.annotated v.corrections.toList v.notes) v.layers
        v.closed.size := by
  apply Std.ExtTreeSet.ext_mem
  intro p
  rw [Frame.mem_allPositions, Frame.mem_allPositions, hv.exists_mem_layers,
    h.fresh.exists_mem_layers, h.exists_used_iff hn, h.exists_point_iff hn]

theorem shown_layers (h : Rounds v n w) (hn : 0 < n)
    (hdrawn : v.closed.back?.any (! ·.isEmpty) = true) : Frame.shown w.layers = w.closed := by
  apply Frame.shown_layers h.fresh.isEmpty_current
  rw [Option.any_eq_true] at hdrawn ⊢
  obtain ⟨l, hl, hempty⟩ := hdrawn
  rw [Array.back?_eq_getElem?] at hl
  have hpos : v.closed.size - 1 < v.closed.size := (Array.getElem?_eq_some_iff.mp hl).1
  obtain ⟨m, l', hl', hredrawn⟩ := h.layers (n - 1) (by omega) _ l hl
  have hindex : (n - 1) * v.closed.size + (v.closed.size - 1) = w.closed.size - 1 := by
    have hsize := Nat.succ_mul (n - 1) v.closed.size
    rw [Nat.succ_eq_add_one, Nat.sub_add_cancel hn, ← h.size] at hsize
    omega
  rw [hindex] at hl'
  refine ⟨l', ?_, by rwa [hredrawn.isEmpty]⟩
  rw [Array.back?_eq_getElem?, hl']

theorem frames (h : Rounds v n w) (hn : 0 < n) (hv : Fresh v)
    (hdrawn : v.closed.back?.any (! ·.isEmpty) = true) {i j : Nat} (hi : i < n)
    (hj : j < v.closed.size) :
    ∃ f f', (Frame.ofWalk v []).1[j]? = some f ∧
      (Frame.ofWalk w []).1[i * v.closed.size + j]? = some f' ∧ f'.bounds = f.bounds ∧
      List.Forall₂ (Renumbered (i * v.nextDetector)) f.primitives f'.primitives := by
  obtain ⟨m, l', hl', hredrawn⟩ := h.layers i hi j _ (Array.getElem?_eq_getElem hj)
  have hshown := Frame.shown_layers hv.isEmpty_current hdrawn
  have hframe := Frame.getElem?_frames_ofWalk v [] j
  have hframe' := Frame.getElem?_frames_ofWalk w [] (i * v.closed.size + j)
  dsimp only at hframe hframe'
  rw [List.nil_append] at hframe hframe'
  rw [hshown, hv.coords_current, Array.getElem?_eq_getElem hj] at hframe
  rw [h.shown_layers hn hdrawn, h.fresh.coords_current, hl', h.pointsOn _ hi hj,
    Frame.glyphsOn_congr (h.writing i hi j hj), h.allPositions hn hv] at hframe'
  exact ⟨_, _, hframe, hframe', hredrawn.framed _ _ (Redrawn.not_hangs_glyphsOn _ _ _ _)⟩

end Rounds

end Walk

/-! ### Renderings -/

theorem render_plain {config : Config} (hvalid : config.validate = .ok config)
    (hunlabelled : config.labelDetectorCoordinates = false) {c : Circuit} {w : Walk}
    (hw : Walk.of .plain c = .ok w) :
    ∃ r, render config c none none = .ok r ∧ r.diagram.frames = (Frame.ofWalk w []).1 := by
  have hstyle : DetectorStyle.of config Overlay.empty c = .plain := by
    unfold DetectorStyle.of DetectorStyle.plain
    rw [hunlabelled, if_neg Bool.false_ne_true]
    congr 1
  unfold render Overlay.resolve
  rw [hvalid]
  dsimp only
  rw [hstyle, hw]
  exact ⟨_, rfl, rfl⟩

/-- **A repeated block scales the drawing of its body.** Let a circuit place no qubit (so that shifts
move nothing), look back to its own measurements only, and end in a tick that closes a layer on which
something is drawn. Its repetition has as many frames in each round as the circuit has ticks. Each of
them has the bounds and the primitives of the frame of the circuit itself, where the number in a
detector label is larger by the number of detectors in the rounds before. -/
theorem render_repeated {config : Config} (hvalid : config.validate = .ok config)
    (hunlabelled : config.labelDetectorCoordinates = false) {b : Circuit} {v : Walk}
    (hv : Walk.of .plain b = .ok v) (hplaces : ∀ o ∈ b.executed, o.kind ≠ .qubitCoords)
    (hreach : History.LooksBackWithin [] b.executed)
    (htick : ∃ ops o, b.executed = ops ++ [o] ∧ o.kind = .tick)
    (hdrawn : v.closed.back?.any (! ·.isEmpty) = true) {n : UInt64} (hn : n ≠ 0) :
    ∃ r r', render config b none none = .ok r ∧
      render config (.repeated n b .nil) none none = .ok r' ∧
      r.diagram.frames.length = b.numTicks ∧
      r'.diagram.frames.length = n.toNat * b.numTicks ∧
      ∀ i < n.toNat, ∀ j < b.numTicks, ∃ f f',
        r.diagram.frames[j]? = some f ∧ r'.diagram.frames[i * b.numTicks + j]? = some f' ∧
        f'.bounds = f.bounds ∧
        List.Forall₂ (Renumbered (i * b.numDetectors)) f.primitives f'.primitives := by
  obtain ⟨-, hdetectors, hlayers, -⟩ := Walk.counts_agree hv
  have hsize : v.closed.size = b.numTicks := by
    rw [Walk.size_layers] at hlayers
    exact Nat.succ.inj hlayers
  have hpos : 0 < n.toNat := by
    apply Nat.pos_of_ne_zero
    intro hzero
    exact hn (UInt64.toNat_inj.mp hzero)
  obtain ⟨hfresh, w, hrepeated, hrounds⟩ := Walk.rounds_of_repeated hv hplaces hreach htick n
  obtain ⟨r, hr, hframes⟩ := render_plain hvalid hunlabelled hv
  obtain ⟨r', hr', hframes'⟩ := render_plain hvalid hunlabelled hrepeated
  refine ⟨r, r', hr, hr', ?_, ?_, ?_⟩
  · rw [hframes, Frame.length_frames_ofWalk, Frame.shown_layers hfresh.isEmpty_current hdrawn, hsize]
  · rw [hframes', Frame.length_frames_ofWalk, hrounds.shown_layers hpos hdrawn, hrounds.size, hsize]
  · intro i hi j hj
    rw [hframes, hframes', ← hsize, ← hdetectors]
    exact hrounds.frames hpos hfresh hdrawn hi (hj.trans_eq hsize.symm)

/-- The last frame of the third round, with a label, a note, and a correction on its layer. -/
theorem render_repeated_three_rounds :
    let measure : Operation := ⟨"M", .single .m, [.qubit 0 false], []⟩
    let noise : Operation := ⟨"X_ERROR", .noise .xError, [.qubit 1 false], [0.5]⟩
    let correct : Operation := ⟨"CX", .pair .cx, [.record (-1), .qubit 2 false], []⟩
    let detector : Operation := ⟨"DETECTOR", .detector, [.record (-1), .record (-3)], []⟩
    let tick : Operation := ⟨"TICK", .tick, [], []⟩
    let b : Circuit := .op measure (.op tick (.repeated 2 (.op measure .nil)
      (.op noise (.op correct (.op detector (.op tick .nil))))))
    ∃ r r', render .default b none none = .ok r ∧
      render .default (.repeated 3 b .nil) none none = .ok r' ∧
      r.diagram.frames.length = 2 ∧ r'.diagram.frames.length = 6 ∧
      ∃ f f', r.diagram.frames[1]? = some f ∧ r'.diagram.frames[5]? = some f' ∧
        f'.bounds = f.bounds ∧ List.Forall₂ (Renumbered 2) f.primitives f'.primitives := by
  intro measure noise correct detector tick b
  obtain ⟨v, hv, hdrawn⟩ : ∃ v, Walk.of .plain b = .ok v ∧
      v.closed.back?.any (! ·.isEmpty) = true :=
    exists_eq_ok_of_any (by decide +kernel)
  have hvalid : Config.default.validate = .ok .default := by decide +kernel
  have hplaces : ∀ o ∈ b.executed, o.kind ≠ .qubitCoords := by decide
  have hreach : History.LooksBackWithin [] b.executed := by
    intro pre o post hsplit hmarking k hk
    have hpre : pre = b.executed.take pre.length := by rw [hsplit, List.take_left]
    have ho : b.executed[pre.length]? = some o := by rw [hsplit]; simp
    have hindex : ∀ i < 8, (b.executed[i]?.any Operation.isMarking) = true → i = 6 := by decide
    have hlt : pre.length < 8 := (List.getElem?_eq_some_iff.mp ho).1
    have hsix : pre.length = 6 := hindex _ hlt (by rw [ho]; exact hmarking)
    rw [hsix] at hpre ho
    cases ho
    rw [hpre]
    simp only [detector, List.mem_cons, Target.record.injEq, List.not_mem_nil, or_false] at hk
    rcases hk with rfl | rfl <;> decide
  obtain ⟨r, r', hr, hr', hlength, hlength', hframes⟩ :=
    render_repeated hvalid rfl hv hplaces hreach
      ⟨[measure, tick, measure, measure, noise, correct, detector], tick, rfl, rfl⟩ hdrawn
      (show (3 : UInt64) ≠ 0 by decide)
  exact ⟨r, r', hr, hr', hlength, hlength', hframes 2 (by decide) 1 (by decide)⟩

end CircuitFrames
