import CircuitFrames.Proofs.Diagram.FrameCount
import CircuitFrames.Proofs.Layout.Boxes

/-!
# One view box for all frames

All frames show the same part of the plane (`frames_share_view_box`): the box around the footprint of
the run and around the marks and notes that are shown. The footprint is where the gates stood when
they were drawn, marks and notes are where their qubits stand in the end.
-/

namespace CircuitFrames

open Svg (Primitive)

/-! ### Corrections and notes -/

/-- The qubits that the operation puts a correction or a note on. -/
def Operation.annotated (o : Operation) : List Qubit :=
  match o.kind with
  | .pair _ => o.corrected
  | .noise _ => o.targets.filterMap Target.touched?
  | _ => []

namespace History

/-- The layers and qubits that one operation annotates. -/
def annotatedBy (past : History) (o : Operation) : List (Nat × Qubit) :=
  o.annotated.map fun q => (past.ticks, q)

/-- The layers and qubits that have a correction or a note. -/
def annotations (h : History) : List (Nat × Qubit) :=
  along annotatedBy [] h

@[simp] theorem annotations_snoc (h : History) (o : Operation) :
    annotations (h ++ [o]) = annotations h ++ annotatedBy h o :=
  along_snoc h o annotatedBy

end History

namespace Frame

theorem mem_annotated {marks : List Mark} {notes : NoteSet} {i : Nat} {q : Qubit} :
    (i, q) ∈ annotated marks notes ↔
      (∃ m ∈ marks, m.layer = i ∧ m.qubit = q) ∨ ∃ channel, (⟨q, i, channel⟩ : Note) ∈ notes := by
  simp only [annotated, List.mem_append, List.mem_map, Prod.mk.injEq, Note.mem_iff_exists_mem_toList,
    Note.order_eq_eq]
  refine or_congr_right ⟨?_, ?_⟩
  · rintro ⟨n, hn, rfl, rfl⟩
    exact ⟨n.channel, n, hn, rfl, rfl, rfl⟩
  · rintro ⟨channel, n, hn, rfl, rfl, -⟩
    exact ⟨n, hn, rfl, rfl⟩

end Frame

namespace Walk

/-- The layers and qubits that have a correction or a note so far. -/
def annotations (w : Walk) : List (Nat × Qubit) :=
  Frame.annotated w.corrections.toList w.notes

variable {w w' : Walk}

/-- Corrections and notes are as before. -/
def Quiet (w w' : Walk) : Prop :=
  w'.corrections = w.corrections ∧ w'.notes = w.notes

theorem Quiet.refl (w : Walk) : Quiet w w :=
  ⟨rfl, rfl⟩

theorem Quiet.trans {w'' : Walk} (h : Quiet w w') (h' : Quiet w' w'') : Quiet w w'' :=
  ⟨h'.1.trans h.1, h'.2.trans h.2⟩

theorem Quiet.foldl {α : Type} {f : Walk → α → Walk} (hf : ∀ w a, Quiet w (f w a)) (as : List α)
    (w : Walk) : Quiet w (as.foldl f w) :=
  foldl_relates .refl (fun _ _ _ => .trans) hf as w

theorem Quiet.annotations (h : Quiet w w') : w'.annotations = w.annotations := by
  rw [Walk.annotations, h.1, h.2, Walk.annotations]

theorem quiet_onLayer (w : Walk) (i : Nat) (f : Layer → Layer) : Quiet w (w.onLayer i f) := by
  unfold onLayer
  split <;> exact ⟨rfl, rfl⟩

theorem quiet_markedUpTo (style : DetectorStyle) (w : Walk) (o : Operation) (ks : List Int32) :
    Quiet w (markedUpTo style w o ks) :=
  markedUpTo_relates (fun _ _ _ => .trans) (fun _ _ _ _ => ⟨rfl, rfl⟩)
    (fun w owner _ _ => quiet_onLayer w owner _) ks

theorem quiet_drawSingles (w : Walk) (gate : SingleGate) (qs : List Qubit) :
    Quiet w (w.drawSingles gate qs) :=
  drawSingles_relates .refl (fun _ _ _ => .trans) (fun _ _ => ⟨rfl, rfl⟩) (fun _ _ => ⟨rfl, rfl⟩) w qs

theorem quiet_drawProduct (w : Walk) (factors : List (Qubit × Pauli)) :
    Quiet w (w.drawProduct factors) := by
  cases factors <;> exact ⟨rfl, rfl⟩

theorem notes_foldl_drawPair (gate : PairGate) (actions : List PairAction) (w : Walk) :
    (actions.foldl (·.drawPair gate ·) w).notes = w.notes :=
  foldl_relates (R := fun s t : Walk => t.notes = s.notes) (fun _ => rfl) (fun _ _ _ h h' => h'.trans h)
    (fun _ action => by cases action <;> rfl) actions w

theorem mem_annotations_noteNoise (channel : NoiseChannel) (w : Walk) (r : Qubit) {i : Nat} {q : Qubit} :
    (i, q) ∈ (noteNoise channel w r).annotations ↔
      (i, q) ∈ w.annotations ∨ i = w.currentIndex ∧ q = r := by
  unfold annotations
  simp only [Frame.mem_annotated, noteNoise, Std.ExtTreeSet.mem_insert, Note.order_eq_eq]
  constructor
  · rintro (hmark | ⟨c, ⟨rfl, rfl, -⟩ | hnote⟩)
    · exact .inl (.inl hmark)
    · exact .inr ⟨rfl, rfl⟩
    · exact .inl (.inr ⟨c, hnote⟩)
  · rintro ((hmark | ⟨c, hnote⟩) | ⟨rfl, rfl⟩)
    · exact .inl hmark
    · exact .inr ⟨c, .inr hnote⟩
    · exact .inr ⟨channel, .inl ⟨rfl, rfl, rfl⟩⟩

theorem mem_annotations_foldl_noteNoise (channel : NoiseChannel) (rs : List Qubit) (w : Walk) {i : Nat}
    {q : Qubit} :
    (i, q) ∈ (rs.foldl (noteNoise channel) w).annotations ↔
      (i, q) ∈ w.annotations ∨ i = w.currentIndex ∧ q ∈ rs := by
  induction rs generalizing w with
  | nil => simp
  | cons r rs ih =>
    have hindex : (noteNoise channel w r).currentIndex = w.currentIndex := rfl
    rw [List.foldl_cons, ih, mem_annotations_noteNoise, hindex, or_assoc, ← and_or_left,
      List.mem_cons]

theorem Stepped.mem_annotations {style : DetectorStyle} {o : Operation} (h : Stepped style w o w')
    {i : Nat} {q : Qubit} :
    (i, q) ∈ w'.annotations ↔
      (i, q) ∈ w.annotations ∨ i = w.currentIndex ∧ q ∈ o.annotated := by
  have hquiet (hnone : o.annotated = []) (hsame : Quiet w w') :
      (i, q) ∈ w'.annotations ↔ (i, q) ∈ w.annotations ∨ i = w.currentIndex ∧ q ∈ o.annotated := by
    rw [hsame.annotations, hnone]
    simp
  cases h with
  | declared kind | shifted kind | ticked kind =>
    exact hquiet (by simp [Operation.annotated, kind]) ⟨rfl, rfl⟩
  | singles kind =>
    exact hquiet (by simp [Operation.annotated, kind]) (quiet_drawSingles w _ _)
  | products kind =>
    exact hquiet (by simp [Operation.annotated, kind]) (.foldl quiet_drawProduct _ w)
  | marking kind =>
    refine hquiet ?_ (quiet_markedUpTo style w o _)
    rcases kind with kind | kind <;> simp [Operation.annotated, kind]
  | @pairs gate actions kind read =>
    unfold annotations
    rw [Frame.mem_annotated, Frame.mem_annotated, corrections_foldl_drawPair, notes_foldl_drawPair,
      (Operation.edges_of_pairs read).2, Operation.annotated, kind]
    simp only [List.mem_append, List.mem_map, or_and_right, exists_or]
    rw [or_right_comm]
    refine or_congr_right ⟨?_, ?_⟩
    · rintro ⟨m, ⟨r, hr, rfl⟩, rfl, rfl⟩
      exact ⟨rfl, hr⟩
    · rintro ⟨rfl, hq⟩
      exact ⟨_, ⟨q, hq, rfl⟩, rfl, rfl⟩
  | @noted channel qs kind read =>
    rw [mem_annotations_foldl_noteNoise, Operation.annotated, kind]
    dsimp only
    rw [Operation.filterMap_of_map_eq_some (o.touched_eq_ok.mp read)]

/-- A walk that follows a history and annotates what the history does. -/
structure Annotates (past : History) (w : Walk) : Prop where
  follows : Follows past w
  mem : ∀ i q, (i, q) ∈ w.annotations ↔ (i, q) ∈ past.annotations

theorem annotates_start : Annotates [] start where
  follows := follows_start
  mem := by
    intro i q
    rw [annotations, Frame.mem_annotated]
    simp [History.annotations, History.along, start]

theorem Annotates.step {past : History} (h : Annotates past w) {style : DetectorStyle} {o : Operation}
    (hstep : Stepped style w o w') : Annotates (past ++ [o]) w' where
  follows := h.follows.step hstep
  mem := by
    intro i q
    rw [hstep.mem_annotations, h.mem, h.follows.currentIndex, History.annotations_snoc,
      List.mem_append]
    simp [History.annotatedBy, and_comm, eq_comm]

theorem annotates_of_foldlM {style : DetectorStyle} {ops : List Operation}
    (h : ops.foldlM (Walk.step style) start = .ok w) : Annotates ops w :=
  foldlM_keeps (P := Annotates) (fun _ _ _ _ h hstep => h.step (stepped_of_step hstep)) annotates_start
    h

end Walk

/-! ### The positions of a run -/

namespace Frame

variable {coords : CoordinateMap} {marks : List Mark} {notes : NoteSet}

theorem mem_pointsOn {i : Nat} {p : Point} :
    p ∈ pointsOn coords marks notes i ↔ ∃ q, (i, q) ∈ annotated marks notes ∧ coords.position q = p := by
  rw [← map_filter_annotated]
  simp only [List.mem_map, List.mem_filter, decide_eq_true_eq, Prod.exists]
  constructor
  · rintro ⟨j, q, ⟨hmem, rfl⟩, rfl⟩
    exact ⟨q, hmem, rfl⟩
  · rintro ⟨q, hmem, rfl⟩
    exact ⟨i, q, ⟨hmem, rfl⟩, rfl⟩

theorem mem_foldl_insert {p : Point} (points : List Point) (s : PointSet) :
    p ∈ points.foldl (·.insert ·) s ↔ p ∈ s ∨ p ∈ points := by
  induction points generalizing s with
  | nil => simp
  | cons q points ih =>
    rw [List.foldl_cons, ih, Std.ExtTreeSet.mem_insert, Std.LawfulEqCmp.compare_eq_iff_eq,
      List.mem_cons, or_comm (a := q = p), or_assoc, eq_comm]

theorem insertMany_allPositions {layers : Array Layer} {count i : Nat} {l : Layer} (hl : l ∈ layers)
    (hi : i < count) :
    ((pointsOn coords marks notes i).foldl (·.insert ·) l.used).insertMany
        (allPositions coords (annotated marks notes) layers count).toList =
      allPositions coords (annotated marks notes) layers count := by
  apply Std.ExtTreeSet.ext_mem
  intro p
  rw [Std.ExtTreeSet.mem_insertMany_list, List.contains_iff_mem, Std.ExtTreeSet.mem_toList,
    mem_foldl_insert]
  refine or_iff_right_of_imp ?_
  rw [mem_allPositions]
  rintro (hp | hp)
  · exact .inl ⟨l, hl, hp⟩
  · exact .inr ⟨i, hi, hp⟩

theorem bounds_framed {layers : Array Layer} {count i : Nat} {l : Layer} (hl : l ∈ layers)
    (hi : i < count) (glyphs : List Primitive) :
    (framed (allPositions coords (annotated marks notes) layers count) (pointsOn coords marks notes i)
        glyphs l).bounds =
      (Bounds.around? (allPositions coords (annotated marks notes) layers count)).getD .origin := by
  show (Bounds.around? (Std.ExtTreeSet.insertMany _ _)).getD .origin = _
  rw [insertMany_allPositions hl hi]

end Frame

/-- A qubit with a flip, a correction or a note on a layer stands at a point in the end. -/
def History.Reserves (h : History) (flips : List Mark) (i : Nat) (p : Point) : Prop :=
  ∃ q, ((∃ m ∈ flips, m.layer = i ∧ m.qubit = q) ∨ (i, q) ∈ h.annotations) ∧
    h.plane.coords.position q = p

theorem Walk.mem_pointsOn {style : DetectorStyle} {ops : List Operation} {w : Walk}
    (h : ops.foldlM (Walk.step style) Walk.start = .ok w) (flips : List Mark) (i : Nat) (p : Point) :
    p ∈ Frame.pointsOn w.current.coords (flips ++ w.corrections.toList) w.notes i ↔
      History.Reserves ops flips i p := by
  have hcoords : w.current.coords = (History.plane ops).coords :=
    (Walk.follows_of_foldlM h).accounts.coords
  have hannotated (q : Qubit) :
      (i, q) ∈ Frame.annotated (flips ++ w.corrections.toList) w.notes ↔
        (∃ m ∈ flips, m.layer = i ∧ m.qubit = q) ∨ (i, q) ∈ History.annotations ops := by
    rw [← (Walk.annotates_of_foldlM h).mem, Walk.annotations, Frame.mem_annotated,
      Frame.mem_annotated, ← or_assoc]
    simp only [List.mem_append, or_and_right, exists_or]
  simp only [Frame.mem_pointsOn, hannotated, hcoords, History.Reserves]

/-- The positions of a run that ends in a walk. -/
def Walk.positions (w : Walk) (flips : List Mark) : PointSet :=
  Frame.allPositions w.current.coords (Frame.annotated (flips ++ w.corrections.toList) w.notes) w.layers
    (Frame.shown w.layers).size

theorem Walk.mem_positions {style : DetectorStyle} {ops : List Operation} {w : Walk}
    (h : ops.foldlM (Walk.step style) Walk.start = .ok w) (flips : List Mark) (p : Point) :
    p ∈ w.positions flips ↔
      (∃ site ∈ History.footprint ops, site.position = p) ∨
        ∃ i q, i < (Frame.shown w.layers).size ∧
          ((∃ m ∈ flips, m.layer = i ∧ m.qubit = q) ∨ (i, q) ∈ History.annotations ops) ∧
          (History.plane ops).coords.position q = p := by
  have hcovers := Walk.covers_of_foldlM h
  unfold positions
  rw [Frame.mem_allPositions]
  refine or_congr ?_ ?_
  · constructor
    · rintro ⟨l, hl, hp⟩
      obtain ⟨i, hi⟩ := Array.getElem?_of_mem hl
      exact ⟨⟨i, p⟩, (hcovers.mem_used hi p).mp hp, rfl⟩
    · rintro ⟨⟨i, p'⟩, hsite, rfl⟩
      obtain ⟨used, hused, hp⟩ := (hcovers.footprint i p').mp hsite
      obtain ⟨l, hl, rfl⟩ := Option.map_eq_some_iff.mp (Array.getElem?_map.symm.trans hused)
      exact ⟨l, Array.mem_of_getElem? hl, hp⟩
  · simp only [Walk.mem_pointsOn h, History.Reserves]
    constructor
    · rintro ⟨i, hi, q, hq, hp⟩
      exact ⟨i, q, hi, hq, hp⟩
    · rintro ⟨i, q, hi, hq, hp⟩
      exact ⟨i, hi, q, hq, hp⟩

theorem Walk.bounds_of_mem_frames {style : DetectorStyle} {ops : List Operation} {w : Walk}
    (h : ops.foldlM (Walk.step style) Walk.start = .ok w) (flips : List Mark) {f : Frame}
    (hf : f ∈ (Frame.ofWalk w flips).1) : Bounds.around? (w.positions flips) = some f.bounds := by
  obtain ⟨i, hi⟩ := List.getElem?_of_mem hf
  have hframe := Frame.getElem?_frames_ofWalk w flips i
  dsimp only at hframe
  rw [hi, eq_comm, Option.map_eq_some_iff] at hframe
  obtain ⟨l, hl, rfl⟩ := hframe
  have hsize : i < (Frame.shown w.layers).size := (Array.getElem?_eq_some_iff.mp hl).1
  have hlayer : l ∈ w.layers := by
    rw [Frame.getElem?_shown _ hsize] at hl
    exact Array.mem_of_getElem? hl
  rw [Frame.bounds_framed hlayer hsize]
  -- some layer is drawn on, or none would be shown
  obtain ⟨p, hp⟩ : ∃ p, p ∈ w.positions flips := by
    by_contra hnone
    rw [not_exists] at hnone
    have hempty : ∀ l ∈ w.layers, l.isEmpty = true := by
      intro l hl
      rw [((Walk.covers_of_foldlM h).sound l hl).empty]
      intro p hp
      refine hnone p ?_
      unfold positions
      rw [Frame.mem_allPositions]
      exact .inl ⟨l, hl, hp⟩
    have hnone := Frame.size_shown_of_empty hempty
    omega
  show Bounds.around? (w.positions flips) = some ((Bounds.around? (w.positions flips)).getD .origin)
  unfold Bounds.around?
  split
  next hnil =>
    rw [← Std.ExtTreeSet.mem_toList, hnil] at hp
    cases hp
  next => rfl

/-! ### Renderings -/

/-- **All frames share one view box.** It is the box around the positions at which the run drew its
gates and measurements and around the final positions of the qubits that have a flip, a correction or
a note on a layer that is shown. If the coordinates are numbers, it is the rectangle that touches a
position on each side, made 32 larger on every side, and it is not the one that stands in for no
position at all. -/
theorem frames_share_view_box {config : Config} {c : Circuit} {known : Option FaultMechanism}
    {search : Option FaultSearch} {r : Rendering} (h : render config c known search = .ok r) :
    ∃ s : PointSet,
      (∀ p, p ∈ s ↔
        (∃ site ∈ History.footprint c.executed, site.position = p) ∨
          ∃ i q, i < r.diagram.frames.length ∧
            ((∃ m ∈ (Overlay.resolve c known search).1.flips, m.layer = i ∧ m.qubit = q) ∨
              (i, q) ∈ History.annotations c.executed) ∧
            (History.plane c.executed).coords.position q = p) ∧
      ∀ f ∈ r.diagram.frames, Bounds.around? s = some f.bounds ∧
        (Bounds.Numbered s →
          ∃ b : Bounds, b.Tight s ∧
            f.bounds = ⟨b.minX - 32, b.minY - 32, b.maxX + 32, b.maxY + 32⟩ ∧
            f.bounds ≠ ⟨0, 0, 0, 0⟩) := by
  obtain ⟨style, w, hw, hframes⟩ := exists_walk_of_render h
  rw [Walk.of, Circuit.run_eq_foldlM] at hw
  refine ⟨w.positions (Overlay.resolve c known search).1.flips, ?_, ?_⟩
  · rw [hframes, Frame.length_frames_ofWalk]
    exact Walk.mem_positions hw _
  · intro f hf
    rw [hframes] at hf
    have hbounds := Walk.bounds_of_mem_frames hw _ hf
    refine ⟨hbounds, fun hnumbered => ?_⟩
    obtain ⟨b, htight, hpad⟩ := Bounds.exists_tight_of_around? hnumbered hbounds
    exact ⟨b, htight, hpad, hpad ▸ htight.pad_ne_origin hnumbered⟩

/-- A qubit that was placed, and three that only have a note, a correction and a flip. -/
theorem frames_share_view_box_with_notes :
    let place : Operation := ⟨"QUBIT_COORDS", .qubitCoords, [.qubit 0 false], [2, 3]⟩
    let measure : Operation := ⟨"M", .single .m, [.qubit 0 false], []⟩
    let tick : Operation := ⟨"TICK", .tick, [], []⟩
    let noise : Operation := ⟨"X_ERROR", .noise .xError, [.qubit 1 false], [0.5]⟩
    let correct : Operation := ⟨"CX", .pair .cx, [.record (-1), .qubit 2 false], []⟩
    let c : Circuit := .ofOperations [place, measure, tick, measure, noise, correct]
    let m : FaultMechanism := ⟨[⟨[⟨1, [⟨5, .x⟩]⟩], [.detector 0]⟩]⟩
    ∃ (r : Rendering) (s : PointSet), render .default c (some m) none = .ok r ∧
      r.diagram.frames.length = 2 ∧ Bounds.Numbered s ∧
      (∀ p, p ∈ s ↔ p ∈ ([⟨.known 64, .known 96⟩, ⟨.known 32, .known 0⟩, ⟨.known 64, .known 0⟩,
        ⟨.known 160, .known 0⟩] : List Point)) ∧
      ∀ f ∈ r.diagram.frames, f.bounds = ⟨0, -32, 192, 128⟩ := by
  intro place measure tick noise correct c m
  obtain ⟨r, hr⟩ : ∃ r, render .default c (some m) none = .ok r :=
    exists_eq_ok_of_isSome (by decide +kernel)
  have hlength : r.diagram.frames.length = 2 := by
    rw [length_frames_of_render hr]
    decide
  obtain ⟨s, hs, hbounds⟩ := frames_share_view_box hr
  have hflips : (Overlay.resolve c (some m) none).1.flips = [⟨5, 1, .flip .x⟩] := rfl
  have hannotations : History.annotations c.executed = [(1, 1), (1, 2)] := rfl
  have hfootprint : History.footprint c.executed =
      [⟨0, ⟨.known 64, .known 96⟩⟩, ⟨1, ⟨.known 64, .known 96⟩⟩] := by decide +kernel
  have hfinal : ([1, 2, 5] : List Qubit).map (History.plane c.executed).coords.position =
      [⟨.known 32, .known 0⟩, ⟨.known 64, .known 0⟩, ⟨.known 160, .known 0⟩] := by decide +kernel
  simp only [List.map_cons, List.cons.injEq] at hfinal
  obtain ⟨hnoted, hcorrected, hflipped, -⟩ := hfinal
  let points : List Point := [⟨.known 64, .known 96⟩, ⟨.known 32, .known 0⟩, ⟨.known 64, .known 0⟩,
    ⟨.known 160, .known 0⟩]
  have hmem (p : Point) : p ∈ s ↔ p ∈ points := by
    simp [hs, hlength, hflips, hannotations, hfootprint, points, or_and_right, exists_or, hnoted,
      hcorrected, hflipped, eq_comm]
    constructor
    · rintro (rfl | ⟨i, -, ⟨-, rfl⟩ | ⟨-, rfl⟩ | ⟨-, rfl⟩⟩) <;> simp
    · rintro (rfl | rfl | rfl | rfl)
      · exact .inl rfl
      · exact .inr ⟨1, le_rfl, .inr (.inl ⟨rfl, rfl⟩)⟩
      · exact .inr ⟨1, le_rfl, .inr (.inr ⟨rfl, rfl⟩)⟩
      · exact .inr ⟨1, le_rfl, .inl ⟨rfl, rfl⟩⟩
  have hnumbered : Bounds.Numbered s := by
    have hpoints : ∀ p ∈ points, p.x.isNaN = false ∧ p.y.isNaN = false := by decide
    exact fun p hp => hpoints p ((hmem p).mp hp)
  refine ⟨r, s, hr, hlength, hnumbered, hmem, fun f hf => ?_⟩
  obtain ⟨b, htight, hbox, -⟩ := (hbounds f hf).2 hnumbered
  have hsides : ∀ p ∈ points,
      ((∀ q ∈ points, p.x ≤ q.x) → p.x = 32) ∧ ((∀ q ∈ points, p.y ≤ q.y) → p.y = 0) ∧
        ((∀ q ∈ points, q.x ≤ p.x) → p.x = 160) ∧ ((∀ q ∈ points, q.y ≤ p.y) → p.y = 96) := by
    decide
  simp only [← hmem] at hsides
  have hminX : b.minX = 32 := by
    obtain ⟨⟨p, hp, hx⟩, hleast⟩ := htight.left
    rw [← hx] at hleast ⊢
    exact (hsides p hp).1 hleast
  have hminY : b.minY = 0 := by
    obtain ⟨⟨p, hp, hy⟩, hleast⟩ := htight.top
    rw [← hy] at hleast ⊢
    exact (hsides p hp).2.1 hleast
  have hmaxX : b.maxX = 160 := by
    obtain ⟨⟨p, hp, hx⟩, hgreatest⟩ := htight.right
    rw [← hx] at hgreatest ⊢
    exact (hsides p hp).2.2.1 hgreatest
  have hmaxY : b.maxY = 96 := by
    obtain ⟨⟨p, hp, hy⟩, hgreatest⟩ := htight.bottom
    rw [← hy] at hgreatest ⊢
    exact (hsides p hp).2.2.2 hgreatest
  rw [hbox, hminX, hminY, hmaxX, hmaxY]
  decide +kernel

end CircuitFrames
