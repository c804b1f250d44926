import CircuitFrames.Proofs.Diagram.Layers
import CircuitFrames.Proofs.Diagram.ViewBox
import CircuitFrames.Proofs.Layout.Axes

/-!
# Idle positions and axes

A frame has a small gray circle at every position of the run that is neither drawn at nor annotated
on its layer, and nothing else that it draws is such a circle. Behind them stand the labels of the
axes, which come of the positions of the run alone and so are the same on all frames
(`frames_mark_idle`).
-/

namespace CircuitFrames

open Svg (Primitive)
open Numeral (Addable)

/-! ### Positions have no signed zeros -/

theorem AxisPlace.addable_scale {factor : Float} {a : AxisPlace}
    (h : (a.scale factor).value.isNaN = false) : Addable (a.scale factor).value := by
  cases a with
  | known x =>
    exact ⟨h, fun hzero => Numeral.addable_zero.signed (Numeral.isNegativeZero_of_add hzero).2⟩
  | lost =>
    replace h : lost.value.isNaN = false := h
    cases h

namespace History

theorem exists_position_of_mem_footprint {h : History} {site : Site} (hsite : site ∈ h.footprint) :
    ∃ (m : CoordinateMap) (q : Qubit), m.position q = site.position := by
  induction h using List.reverseRecOn with
  | nil => cases hsite
  | append_singleton h o ih =>
    rw [footprint_snoc, List.mem_append] at hsite
    rcases hsite with hsite | hsite
    · exact ih hsite
    · obtain ⟨-, q, -, hq⟩ := mem_drawnSites.mp hsite
      exact ⟨_, q, hq⟩

end History

theorem Walk.placed_positions {style : DetectorStyle} {ops : List Operation} {w : Walk}
    (h : ops.foldlM (Walk.step style) Walk.start = .ok w) (flips : List Mark)
    (hnumbered : Bounds.Numbered (w.positions flips)) : Layer.Placed (w.positions flips) := by
  intro p hp
  obtain ⟨hx, hy⟩ := hnumbered p hp
  obtain ⟨m, q, rfl⟩ : ∃ (m : CoordinateMap) (q : Qubit), m.position q = p := by
    rcases (Walk.mem_positions h flips p).mp hp with ⟨site, hsite, rfl⟩ | ⟨-, q, -, -, hq⟩
    · exact History.exists_position_of_mem_footprint hsite
    · exact ⟨_, q, hq⟩
  exact ⟨AxisPlace.addable_scale hx, AxisPlace.addable_scale hy⟩

/-! ### Markers of idle positions -/

/-- Whether a primitive is a gray circle of radius 5. -/
def marksIdle : Primitive → Bool
  | .circle _ _ r fill _ => r == 5 && fill == "gray"
  | _ => false

theorem Bare.marksIdle {p : Primitive} (h : Bare p) : marksIdle p = false := by
  cases h with
  | circle cx cy r stroke hfill =>
    rw [CircuitFrames.marksIdle, beq_eq_false_iff_ne.mpr hfill, Bool.and_false]
  | line => rfl

theorem marksIdle_box (q : Point) (label fill color : String) :
    ∀ p ∈ Glyph.box q label fill color, marksIdle p = false := by
  intro p hp
  rcases List.mem_pair.mp hp with rfl | rfl <;> rfl

theorem marksIdle_label (look : Walk.LabelStyle) (q : Point) (slot : Nat) :
    ∀ p ∈ Walk.label look q slot, marksIdle p = false := by
  intro p hp
  unfold Walk.label at hp
  split at hp
  · rcases List.mem_pair.mp hp with rfl | rfl <;> rfl
  · obtain rfl := List.mem_singleton.mp hp
    rfl

theorem Walk.marksIdle_of_foldlM {style : DetectorStyle} {ops : List Operation} {w : Walk}
    (h : ops.foldlM (Walk.step style) Walk.start = .ok w) {l : Layer} (hl : l ∈ w.layers) :
    ∀ p ∈ l.primitives.toList, marksIdle p = false := by
  refine forall_mem_layers_of_foldlM (Q := fun ps => ∀ p ∈ ps, marksIdle p = false) ⟨nofun, ?_, ?_⟩
    h l hl
  · intro ps coords o hps
    exact List.forall_mem_append.mpr ⟨hps, Operation.forall_mem_glyphs (fun _ => Bare.marksIdle)
      (fun _ _ q => marksIdle_box q _ _) coords o⟩
  · intro ps w o p slot hps
    exact List.forall_mem_append.mpr ⟨hps, marksIdle_label _ p slot⟩

/-! ### Frames -/

namespace Frame

/-- The positions that are not used, in order. -/
def idle (positions used : PointSet) : List Point :=
  positions.toList.filter (! used.contains ·)

theorem mem_idle {positions used : PointSet} {p : Point} :
    p ∈ idle positions used ↔ p ∈ positions ∧ p ∉ used := by
  rw [idle, List.mem_filter, Std.ExtTreeSet.mem_toList, Bool.not_eq_true', ← Bool.not_eq_true,
    Std.ExtTreeSet.contains_iff_mem]

theorem pairwise_idle (positions used : PointSet) :
    (idle positions used).Pairwise fun p q => Point.order p q = .lt :=
  positions.ordered_toList.filter _

/-- The labels of some columns and rows, the columns first. -/
def axes (b : Bounds) (xs ys : List Float) : List Primitive :=
  xs.map (Layer.columnLabel b) ++ ys.map (Layer.rowLabel b)

theorem marksIdle_axes (b : Bounds) (xs ys : List Float) : ∀ p ∈ axes b xs ys, marksIdle p = false := by
  intro p hp
  rcases List.mem_append.mp hp with hp | hp <;> obtain ⟨_, -, rfl⟩ := List.mem_map.mp hp <;> rfl

theorem primitives_framed {positions : PointSet} {points : List Point} {l : Layer} {b : Bounds}
    (hused : (points.foldl (·.insert ·) l.used).insertMany positions.toList = positions)
    (hbounds : Bounds.around? positions = some b) (glyphs : List Primitive) :
    (framed positions points glyphs l).primitives =
      l.primitives.toList ++
          ((idle positions (points.foldl (·.insert ·) l.used)).map Layer.idleMarker ++
            axes b (Layer.columns positions) (Layer.rows positions)) ++
        glyphs := by
  rw [framed, padding, hused, hbounds]
  rfl

theorem filter_marksIdle {drawn labels glyphs : List Primitive}
    (hdrawn : ∀ p ∈ drawn, marksIdle p = false) (hlabels : ∀ p ∈ labels, marksIdle p = false)
    (hglyphs : ∀ p ∈ glyphs, marksIdle p = false) (points : List Point) :
    (drawn ++ (points.map Layer.idleMarker ++ labels) ++ glyphs).filter marksIdle =
      points.map Layer.idleMarker := by
  have hnone {ps : List Primitive} (hps : ∀ p ∈ ps, marksIdle p = false) : ps.filter marksIdle = [] := by
    rw [List.filter_eq_nil_iff]
    intro p hp
    rw [hps p hp]
    exact nofun
  have hall : (points.map Layer.idleMarker).filter marksIdle = points.map Layer.idleMarker := by
    rw [List.filter_eq_self, List.forall_mem_map]
    exact fun _ _ => rfl
  rw [List.filter_append, List.filter_append, List.filter_append, hnone hdrawn, hnone hlabels,
    hnone hglyphs, hall, List.nil_append, List.append_nil, List.append_nil]

end Frame

/-- A frame of a run, split up into what the walk drew, the markers, the axes, and what is written on
top. -/
theorem Walk.exists_idle_of_foldlM {style : DetectorStyle} {ops : List Operation} {w : Walk}
    (h : ops.foldlM (Walk.step style) Walk.start = .ok w) (flips : List Mark) {i : Nat} {f : Frame}
    (hf : (Frame.ofWalk w flips).1[i]? = some f) :
    ∃ (l : Layer) (idles : List Point), w.layers[i]? = some l ∧
      f.primitives = l.primitives.toList ++
          (idles.map Layer.idleMarker ++ Frame.axes f.bounds (Layer.columns (w.positions flips))
            (Layer.rows (w.positions flips))) ++
        Frame.glyphsOn w.current.coords (flips ++ w.corrections.toList) w.notes i ∧
      (idles.Pairwise fun p q => Point.order p q = .lt) ∧
      (∀ p, p ∈ idles ↔ p ∈ w.positions flips ∧ (⟨i, p⟩ : Site) ∉ History.footprint ops ∧
        ¬History.Reserves ops flips i p) ∧
      f.primitives.filter marksIdle = idles.map Layer.idleMarker := by
  have hbounds := Walk.bounds_of_mem_frames h flips (List.mem_of_getElem? hf)
  have hframe := Frame.getElem?_frames_ofWalk w flips i
  dsimp only at hframe
  rw [hf, eq_comm, Option.map_eq_some_iff] at hframe
  obtain ⟨l, hl, rfl⟩ := hframe
  have hi : i < (Frame.shown w.layers).size := (Array.getElem?_eq_some_iff.mp hl).1
  rw [Frame.getElem?_shown _ hi] at hl
  have hmem : l ∈ w.layers := Array.mem_of_getElem? hl
  have hprimitives := Frame.primitives_framed (Frame.insertMany_allPositions hmem hi) hbounds
    (Frame.glyphsOn w.current.coords (flips ++ w.corrections.toList) w.notes i)
  refine ⟨l, _, hl, hprimitives, Frame.pairwise_idle _ _, fun p => ?_, ?_⟩
  · rw [Frame.mem_idle, Frame.mem_foldl_insert, (Walk.covers_of_foldlM h).mem_used hl,
      Walk.mem_pointsOn h, not_or]
    rfl
  · rw [hprimitives]
    exact Frame.filter_marksIdle (Walk.marksIdle_of_foldlM h hmem) (Frame.marksIdle_axes _ _ _)
      (Frame.forall_mem_glyphsOn (fun _ _ => rfl) (fun _ _ => rfl) i) _

/-- **Idle positions and axes.** The positions of a run are those at which it drew its gates and
measurements, and those at which the qubits with a flip, a correction or a note on a shown layer stand in
the end. If their coordinates are numbers, there are one list of columns and one of rows for all frames,
each distinct coordinate of a position once and in ascending order. A frame shows what the walk drew on
its layer; then a gray circle of radius 5 at each position of the run that is neither drawn at nor
annotated on this layer, in order; then the grid values of all columns, 5 above the lower edge, and of all
rows, 5 from the left edge; then the marks and notes. Nothing else on it looks like such a circle. -/
theorem frames_mark_idle {config : Config} {c : Circuit} {known : Option FaultMechanism}
    {search : Option FaultSearch} {r : Rendering} (h : render config c known search = .ok r) :
    let flips := (Overlay.resolve c known search).1.flips
    ∃ style w s, Walk.of style c = .ok w ∧ r.diagram.frames = (Frame.ofWalk w flips).1 ∧
      (∀ p, p ∈ s ↔ (∃ site ∈ History.footprint c.executed, site.position = p) ∨
        ∃ i < r.diagram.frames.length, History.Reserves c.executed flips i p) ∧
      (Bounds.Numbered s → ∃ (b : Bounds) (xs ys : List Float),
        (xs.Pairwise (· < ·) ∧ ∀ x, x ∈ xs ↔ ∃ p ∈ s, p.x = x) ∧
        (ys.Pairwise (· < ·) ∧ ∀ y, y ∈ ys ↔ ∃ p ∈ s, p.y = y) ∧
        ∀ (i : Nat) (f : Frame), r.diagram.frames[i]? = some f →
          f.bounds = b ∧ ∃ (l : Layer) (idles : List Point), w.layers[i]? = some l ∧
            f.primitives = l.primitives.toList ++
                (idles.map (fun p => .circle p.x p.y 5 "gray" (some "black")) ++
                  (xs.map (fun x => .text x (b.maxY - 5) (Numeral.plain (x / 32 + 0)) "black" 24 .middle
                      .auto) ++
                    ys.map (fun y => .text (b.minX + 5) y (Numeral.plain (y / 32 + 0)) "black" 24 .start
                      .middle))) ++
              Frame.glyphsOn w.current.coords (flips ++ w.corrections.toList) w.notes i ∧
            (idles.Pairwise fun p q => Point.order p q = .lt) ∧
            (∀ p, p ∈ idles ↔ p ∈ s ∧ (⟨i, p⟩ : Site) ∉ History.footprint c.executed ∧
              ¬History.Reserves c.executed flips i p) ∧
            f.primitives.filter marksIdle =
              idles.map fun p => .circle p.x p.y 5 "gray" (some "black")) := by
  intro flips
  obtain ⟨style, w, hw, hframes⟩ := exists_walk_of_render h
  have hrun := hw
  rw [Walk.of, Circuit.run_eq_foldlM] at hrun
  refine ⟨style, w, w.positions flips, hw, hframes, fun p => ?_, fun hnumbered => ?_⟩
  · rw [Walk.mem_positions hrun, hframes, Frame.length_frames_ofWalk]
    refine or_congr_right ⟨?_, ?_⟩
    · rintro ⟨i, q, hi, hq, hp⟩
      exact ⟨i, hi, q, hq, hp⟩
    · rintro ⟨i, hi, q, hq, hp⟩
      exact ⟨i, q, hi, hq, hp⟩
  · have hplaced := Walk.placed_positions hrun flips hnumbered
    refine ⟨(Bounds.around? (w.positions flips)).getD .origin, Layer.columns (w.positions flips),
      Layer.rows (w.positions flips), Layer.columns_spec hplaced, Layer.rows_spec hplaced,
      fun i f hf => ?_⟩
    rw [hframes] at hf
    have hbounds : (Bounds.around? (w.positions flips)).getD .origin = f.bounds := by
      rw [Walk.bounds_of_mem_frames hrun flips (List.mem_of_getElem? hf)]
      rfl
    rw [hbounds]
    exact ⟨rfl, Walk.exists_idle_of_foldlM hrun flips hf⟩

/-- Two qubits of the run are idle on the first of two layers, one of which has only a note later. -/
theorem frames_mark_idle_before_tick :
    let place : Operation := ⟨"QUBIT_COORDS", .qubitCoords, [.qubit 0 false], [2, 3]⟩
    let measure (q : Qubit) : Operation := ⟨"M", .single .m, [.qubit q false], []⟩
    let tick : Operation := ⟨"TICK", .tick, [], []⟩
    let noise : Operation := ⟨"X_ERROR", .noise .xError, [.qubit 5 false], [0.5]⟩
    let c : Circuit := .ofOperations [place, measure 0, tick, measure 1, noise]
    let idle (x y : Float) : Primitive := .circle x y 5 "gray" (some "black")
    let column (x : Float) (content : String) : Primitive :=
      .text x 123 content "black" 24 .middle .auto
    let row (y : Float) (content : String) : Primitive := .text 5 y content "black" 24 .start .middle
    ∃ (r : Rendering) (f : Frame) (before after : List Primitive),
      render .default c none none = .ok r ∧ r.diagram.frames[0]? = some f ∧
      f.bounds = ⟨0, -32, 192, 128⟩ ∧
      f.primitives = before ++
        [idle 32 0, idle 160 0, column 32 "1", column 64 "2", column 160 "5", row 0 "0", row 96 "3"] ++
          after ∧
      f.primitives.filter marksIdle = [idle 32 0, idle 160 0] := by
  intro place measure tick noise c idle column row
  obtain ⟨r, hr, hbox⟩ : ∃ r, render .default c none none = .ok r ∧
      decide (r.diagram.frames[0]?.map Frame.bounds = some ⟨0, -32, 192, 128⟩) = true :=
    exists_eq_ok_of_any (by decide +kernel)
  obtain ⟨f, hf, hbounds⟩ := Option.map_eq_some_iff.mp (of_decide_eq_true hbox)
  have hlength : r.diagram.frames.length = 2 := by
    rw [length_frames_of_render hr]
    decide
  have hfootprint : History.footprint c.executed =
      [⟨0, ⟨.known 64, .known 96⟩⟩, ⟨1, ⟨.known 32, .known 0⟩⟩] := by decide +kernel
  have hnoted : (History.plane c.executed).coords.position 5 = ⟨.known 160, .known 0⟩ := by
    decide +kernel
  have hreserved (i : Nat) (p : Point) :
      History.Reserves c.executed [] i p ↔ i = 1 ∧ p = ⟨.known 160, .known 0⟩ := by
    have hannotations : History.annotations c.executed = [(1, 5)] := rfl
    simp [History.Reserves, hannotations, hnoted, eq_comm]
  obtain ⟨style, w, s, -, -, hs, hframes⟩ := frames_mark_idle hr
  have hflips : (Overlay.resolve c none none).1.flips = [] := rfl
  let points : List Point := [⟨.known 64, .known 96⟩, ⟨.known 32, .known 0⟩, ⟨.known 160, .known 0⟩]
  have hmem (p : Point) : p ∈ s ↔ p ∈ points := by
    simp [hs, hfootprint, hflips, hreserved, hlength, points, or_assoc, eq_comm]
  have hnumbered : Bounds.Numbered s := by
    have hpoints : ∀ p ∈ points, p.x.isNaN = false ∧ p.y.isNaN = false := by decide
    exact fun p hp => hpoints p ((hmem p).mp hp)
  obtain ⟨b, xs, ys, ⟨hascending, hxs⟩, ⟨hascending', hys⟩, hall⟩ := hframes hnumbered
  obtain ⟨rfl, l, idles, -, hprimitives, hordered, hidles, hmarks⟩ := hall 0 f hf
  obtain rfl : xs = [32, 64, 160] := by
    refine Layer.eq_of_ascending (by decide) hascending (by decide) fun x => ?_
    simp [hxs, hmem, points, Point.x, AxisPlace.value, eq_comm, or_left_comm]
  obtain rfl : ys = [0, 96] := by
    refine Layer.eq_of_ascending (by decide) hascending' (by decide) fun y => ?_
    simp [hys, hmem, points, Point.y, AxisPlace.value, eq_comm, or_comm]
  obtain rfl : idles = [⟨.known 32, .known 0⟩, ⟨.known 160, .known 0⟩] := by
    refine Point.eq_of_ordered hordered (by decide) fun p => ?_
    rw [hidles, hmem, hfootprint, hflips, hreserved]
    constructor
    · rintro ⟨hp, hdrawn, -⟩
      refine (List.mem_cons.mp hp).resolve_left ?_
      rintro rfl
      exact hdrawn List.mem_cons_self
    · intro hp
      rcases List.mem_pair.mp hp with rfl | rfl <;> exact ⟨by decide, by decide, by decide⟩
  have haxes : [32, 64, 160].map (fun x => .text x (128 - 5) (Numeral.plain (x / 32 + 0)) "black" 24
        .middle .auto) ++
      [0, 96].map (fun y => .text (0 + 5) y (Numeral.plain (y / 32 + 0)) "black" 24 .start .middle) =
      [column 32 "1", column 64 "2", column 160 "5", row 0 "0", row 96 "3"] := by decide +kernel
  rw [hbounds, haxes] at hprimitives
  exact ⟨r, f, _, _, hr, hf, hbounds, hprimitives, hmarks⟩

end CircuitFrames
