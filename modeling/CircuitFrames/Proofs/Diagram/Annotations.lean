import CircuitFrames.Proofs.Diagram.Highlight

/-!
# Annotations only add to a drawing

Detectors and observables label measurements that are drawn already, on whatever layer these stand.
Without the labels, the boxes behind them and the books that are kept about them (`Walk.unlabelled`),
a walk is the walk over all other operations (`foldlM_unlabelled`). The finisher looks at none of this
either, so a circuit without its annotations has the same frames but for what they drew
(`annotations_only_add`).
-/

namespace CircuitFrames

open Svg (Primitive)

/-! ### Circuits without annotations -/

namespace Circuit

/-- The circuit without its detectors and observables, at any depth. -/
def unlabelled : Circuit → Circuit
  | nil => nil
  | op o rest => if o.isMarking then rest.unlabelled else op o rest.unlabelled
  | repeated n body rest => repeated n body.unlabelled rest.unlabelled

theorem executed_unlabelled (c : Circuit) :
    c.unlabelled.executed = c.executed.filter (!·.isMarking) := by
  induction c with
  | nil => rfl
  | op o rest ih =>
    rw [unlabelled, executed, List.filter_cons]
    cases ho : o.isMarking with
    | true => exact ih
    | false =>
      show o :: rest.unlabelled.executed = _
      rw [ih]
      rfl
  | repeated n body rest ihb ihr =>
    rw [unlabelled, executed_repeated, executed_repeated, ihb, ihr, List.filter_append,
      List.filter_flatten, List.map_replicate]

end Circuit

/-! ### Drawings without annotations -/

/-- Whether a primitive is the label of a measurement or the box behind one. -/
def annotates (p : Primitive) : Bool :=
  isLabel p || isHighlight p

/-- The view that leaves annotations out. -/
def unannotated? : Primitive → Option Primitive :=
  Option.guard (!annotates ·)

/-- The frame without annotations, in the same bounds. -/
def Frame.unannotated (f : Frame) : Frame :=
  { f with primitives := f.primitives.filter (!annotates ·) }

theorem filterMap_unannotated? (ps : List Primitive) :
    ps.filterMap unannotated? = ps.filter (!annotates ·) := by
  rw [unannotated?, List.filterMap_eq_filter]

theorem unannotated?_of_unmarked {p : Primitive} (h : Unmarked p) : unannotated? p = some p := by
  simp [unannotated?, Option.guard, annotates, h.sized, h.filled]

namespace Walk

/-- The walk without labels and without the books about them. -/
def unlabelled (w : Walk) : Walk :=
  { w.through unannotated? with nextDetector := 0, labels := ∅, events := #[] }

variable {style style' : DetectorStyle} {w : Walk}

theorem color_of_highlighted {o : Operation} (h : (lookOf style w o).highlighted = true) :
    (lookOf style w o).color = "#FF8000" := by
  unfold lookOf at h ⊢
  rw [detectorLabel_eq] at h ⊢
  by_cases hkind : o.kind = .detector
  · rw [if_pos hkind] at h ⊢
    by_cases hlit : style.highlighted w.nextDetector = true
    · rw [if_pos hlit]
    · rw [if_neg hlit] at h
      cases h
  · rw [if_neg hkind] at h
    cases h

theorem filterMap_label {look : LabelStyle} (h : look.highlighted = true → look.color = "#FF8000")
    (p : Point) (slot : Nat) : (label look p slot).filterMap unannotated? = [] := by
  rw [filterMap_unannotated?, List.filter_eq_nil_iff]
  intro q hq
  unfold label at hq
  split at hq
  next hlit =>
    rcases List.mem_pair.mp hq with rfl | rfl
    · simp [annotates, isHighlight, Primitive.square, h hlit]
    · exact Bool.false_ne_true
  next =>
    rw [List.mem_singleton.mp hq]
    exact Bool.false_ne_true

theorem draw_nil (l : Layer) : l.draw [] = l := by
  simp [Layer.draw]

theorem onLayer_id (w : Walk) (index : Nat) : w.onLayer index id = w := by
  unfold onLayer
  split
  · rfl
  · rw [modify_id]

theorem unlabelled_onLayer {g : Layer → Layer}
    (h : ∀ l : Layer, (g l).through unannotated? = l.through unannotated?) (w : Walk) (index : Nat) :
    (w.onLayer index g).unlabelled = w.unlabelled := by
  have hview : (w.onLayer index g).through unannotated? = w.through unannotated? := by
    have hid : (w.through unannotated?).onLayer index id = (w.onLayer index g).through unannotated? :=
      onLayer_through w index fun l => (h l).symm
    rw [← hid, onLayer_id]
  unfold unlabelled
  rw [hview]

theorem unlabelled_labelOn {look : LabelStyle}
    (h : look.highlighted = true → look.color = "#FF8000") (w : Walk) (owner index slot : Nat) :
    (w.onLayer owner (labelOn look index slot)).unlabelled = w.unlabelled := by
  refine unlabelled_onLayer (fun l => ?_) w owner
  unfold labelOn
  cases l.measurementPosition? index with
  | none => rfl
  | some p => rw [← draw_through l (filterMap_label h p _), draw_nil]

theorem unlabelled_markedUpTo (style : DetectorStyle) (w : Walk) (o : Operation) (ks : List Int32) :
    (markedUpTo style w o ks).unlabelled = w.unlabelled :=
  markedUpTo_relates (R := fun s t => t.unlabelled = s.unlabelled) (fun _ _ _ h h' => h'.trans h)
    (fun _ _ _ _ => rfl) (unlabelled_labelOn color_of_highlighted) ks

theorem unseen_unlabelled : Unseen unlabelled := by
  have hbooks : Unseen fun w => { w with nextDetector := 0, labels := ∅, events := #[] } :=
    { declare := fun _ _ _ => rfl
      measure := fun _ _ => rfl
      drawBox := fun _ _ _ => rfl
      drawPair := fun _ _ action => by cases action <;> rfl
      drawProduct := fun _ factors => by cases factors <;> rfl
      advance := fun _ => rfl
      noteNoise := fun _ _ _ => rfl }
  exact hbooks.comp (unseen_through fun _ => unannotated?_of_unmarked)

theorem unlabelled_of_marking {o : Operation} (hmark : o.isMarking = true) {w' : Walk}
    (h : step style w o = .ok w') : w'.unlabelled = w.unlabelled := by
  cases stepped_of_step h with
  | marking => exact unlabelled_markedUpTo style w o _
  | declared kind | shifted kind | singles kind | pairs kind | products kind | ticked kind
  | noted kind => simp [Operation.isMarking, kind] at hmark

/-- **Without its annotations, a run is the run over all other operations**, whatever the styles. -/
theorem foldlM_unlabelled (style' : DetectorStyle) {ops : List Operation} {t : Walk}
    (h : ops.foldlM (step style) w = .ok t) :
    (ops.filter (!·.isMarking)).foldlM (step style') w.unlabelled = .ok t.unlabelled := by
  induction ops generalizing w with
  | nil =>
    cases h
    rfl
  | cons o ops ih =>
    rw [List.foldlM_cons, bind_eq_ok] at h
    obtain ⟨u, ho, h⟩ := h
    rw [List.filter_cons]
    cases hmark : o.isMarking with
    | true =>
      rw [← unlabelled_of_marking hmark ho]
      exact ih h
    | false =>
      have hstep : step style' w.unlabelled o = .ok u.unlabelled := by
        rw [unseen_unlabelled.step_of_shift (fun _ => rfl) (fun _ _ => rfl) style style' w hmark, ho]
        rfl
      show (o :: _).foldlM (step style') w.unlabelled = _
      rw [List.foldlM_cons, hstep]
      exact ih h

theorem of_unlabelled (style' : DetectorStyle) {c : Circuit} (h : Walk.of style c = .ok w) :
    Walk.of style' c.unlabelled = .ok w.unlabelled := by
  have hstart : start.unlabelled = start := by
    unfold unlabelled through start
    rw [Array.map_empty]
    rfl
  rw [Walk.of, Circuit.run_eq_foldlM] at h ⊢
  rw [Circuit.executed_unlabelled, ← foldlM_unlabelled style' h, hstart]

end Walk

/-! ### Frames without annotations -/

namespace History

theorem frameCount_unlabelled (ops : History) :
    frameCount (ops.filter (!·.isMarking)) = frameCount ops := by
  rw [← frameCount_filter ops, ← frameCount_filter (ops.filter _), List.filter_filter]
  congr 1
  apply List.filter_congr
  intro o ho
  cases hmark : o.isMarking with
  | false => simp
  | true => rcases Operation.isMarking_iff.mp hmark with hkind | hkind <;> simp [Operation.isTick, Operation.draws, hkind]

end History

namespace Frame

theorem filter_unannotated {ps : List Primitive} (h : ∀ p ∈ ps, annotates p = false) :
    ps.filter (!annotates ·) = ps :=
  List.filter_eq_self.mpr fun p hp => by rw [h p hp]; rfl

theorem framed_through (positions : PointSet) (points : List Point) {glyphs : List Primitive}
    (hglyphs : ∀ p ∈ glyphs, annotates p = false) (l : Layer) :
    framed positions points glyphs (l.through unannotated?) =
      (framed positions points glyphs l).unannotated := by
  have hpadding := forall_mem_padding (P := fun p => annotates p = false) (fun _ => rfl)
    (fun _ _ => rfl) (fun _ _ => rfl)
  have hlayer : (l.through unannotated?).primitives.toList =
      l.primitives.toList.filter (!annotates ·) := by
    rw [← filterMap_unannotated?]
    exact Array.toList_filterMap
  unfold framed unannotated
  dsimp only
  rw [hlayer, List.filter_append, List.filter_append, filter_unannotated hglyphs,
    filter_unannotated (hpadding _ _)]
  rfl

theorem allPositions_through (coords : CoordinateMap) (places : List (Nat × Qubit))
    (f : Primitive → Option Primitive) (layers : Array Layer) (count : Nat) :
    allPositions coords places (layers.map (Layer.through f)) count =
      allPositions coords places layers count := by
  unfold allPositions
  rw [Array.foldl_map]
  rfl

/-- The finisher makes the same of a walk without annotations, if as many layers of it are shown. -/
theorem frames_unlabelled {w : Walk}
    (hsize : (shown w.unlabelled.layers).size = (shown w.layers).size) (flips : List Mark) :
    (ofWalk w.unlabelled flips).1 = (ofWalk w flips).1.map unannotated := by
  have hlayers : w.unlabelled.layers = w.layers.map (Layer.through unannotated?) :=
    Walk.layers_through _ w
  apply List.ext_getElem?
  intro i
  have hframe := getElem?_frames_ofWalk w.unlabelled flips i
  have hframe' := getElem?_frames_ofWalk w flips i
  dsimp only at hframe hframe'
  rw [hsize] at hframe
  rw [hframe, List.getElem?_map, hframe']
  by_cases hi : i < (shown w.layers).size
  · rw [getElem?_shown _ (hsize ▸ hi), getElem?_shown _ hi, hlayers, Array.getElem?_map,
      allPositions_through]
    cases w.layers[i]? with
    | none => rfl
    | some l =>
      refine congrArg some (framed_through _ _ ?_ l)
      exact forall_mem_glyphsOn (P := fun p => annotates p = false) (fun _ _ => rfl)
        (fun _ _ => rfl) i
  · rw [Array.getElem?_eq_none (by omega), Array.getElem?_eq_none (by omega)]
    rfl

end Frame

/-! ### Renderings -/

theorem Overlay.resolve_fst (c : Circuit) (known : Option FaultMechanism)
    (search : Option FaultSearch) :
    (resolve c known search).1 = ((drawnMechanism? c known search).map ofMechanism).getD empty := by
  unfold resolve drawnMechanism?
  cases known with
  | some m => rfl
  | none =>
    cases search with
    | none => rfl
    | some find =>
      dsimp only
      cases find c <;> rfl

theorem validate_of_render {config : Config} {c : Circuit} {known : Option FaultMechanism}
    {search : Option FaultSearch} {r : Rendering} (h : render config c known search = .ok r) :
    config.validate = .ok config := by
  cases hvalid : config.validate with
  | error e =>
    unfold render at h
    rw [hvalid] at h
    cases h
  | ok settled => rw [Config.eq_of_validate hvalid]

/-- **Annotations only add to a drawing.** If a circuit renders, so does the circuit without its
detectors and observables, under the same mechanism: it has as many frames, each in the same bounds
and with the same primitives in the same order, without the labels of measurements and the boxes
behind highlighted ones. -/
theorem annotations_only_add {config : Config} {c : Circuit} {known known' : Option FaultMechanism}
    {search search' : Option FaultSearch} {r : Rendering}
    (h : render config c known search = .ok r)
    (hmechanism : drawnMechanism? c.unlabelled known' search' = drawnMechanism? c known search) :
    ∃ r', render config c.unlabelled known' search' = .ok r' ∧
      r'.diagram.frames.length = r.diagram.frames.length ∧
      r'.diagram.frames = r.diagram.frames.map fun f =>
        ⟨f.primitives.filter fun p => !(isLabel p || isHighlight p), f.bounds⟩ := by
  obtain ⟨style, w, hw, hframes⟩ := exists_walk_of_render h
  have hoverlay : (Overlay.resolve c.unlabelled known' search').1 =
      (Overlay.resolve c known search).1 := by
    rw [Overlay.resolve_fst, Overlay.resolve_fst, hmechanism]
  obtain ⟨r', hr', hframes', -, -⟩ :=
    render_of_walk_ok (validate_of_render h) (Walk.of_unlabelled _ hw)
  have hsize : (Frame.shown w.unlabelled.layers).size = (Frame.shown w.layers).size := by
    have hw' := Walk.of_unlabelled style hw
    rw [Walk.of, Circuit.run_eq_foldlM] at hw hw'
    rw [Walk.size_shown_of_foldlM hw', Walk.size_shown_of_foldlM hw, Circuit.executed_unlabelled,
      History.frameCount_unlabelled]
  have hsame : r'.diagram.frames = r.diagram.frames.map Frame.unannotated := by
    rw [hframes', hframes, hoverlay, Frame.frames_unlabelled hsize]
  exact ⟨r', hr', by rw [hsame, List.length_map], hsame⟩

/-- A detector in a block and an observable behind it, under a mechanism that highlights a detector. -/
theorem annotations_only_add_highlighted :
    let measure : Operation := ⟨"M", .single .m, [.qubit 0 false], []⟩
    let round : Circuit := .op measure (.op ⟨"DETECTOR", .detector, [.record (-1)], []⟩
      (.op ⟨"TICK", .tick, [], []⟩ .nil))
    let observable : Operation :=
      ⟨"OBSERVABLE_INCLUDE", .observableInclude, [.record (-1), .record (-2)], [0]⟩
    let c : Circuit := .repeated 2 round (.op measure (.op observable .nil))
    let m : FaultMechanism := ⟨[⟨[⟨1, [⟨0, .x⟩]⟩], [.detector 1]⟩]⟩
    ∃ r r', render .default c (some m) none = .ok r ∧
      (∃ f ∈ r.diagram.frames, f.primitives.any isHighlight) ∧
      render .default c.unlabelled (some m) none = .ok r' ∧ r'.diagram.frames.length = 3 ∧
      ∀ f ∈ r'.diagram.frames, f.primitives.any isHighlight = false := by
  intro measure round observable c m
  obtain ⟨r, hr, hlit⟩ : ∃ r, render .default c (some m) none = .ok r ∧
      r.diagram.frames.any (·.primitives.any isHighlight) = true :=
    exists_eq_ok_of_any (by decide +kernel)
  obtain ⟨r', hr', hlength, hframes⟩ :=
    annotations_only_add hr (show drawnMechanism? c.unlabelled (some m) none = _ from rfl)
  refine ⟨r, r', hr, List.any_eq_true.mp hlit, hr', ?_, ?_⟩
  · rw [hlength, length_frames_of_render hr]
    rfl
  · intro f hf
    rw [hframes] at hf
    obtain ⟨g, -, rfl⟩ := List.mem_map.mp hf
    rw [List.any_filter]
    simp

end CircuitFrames
