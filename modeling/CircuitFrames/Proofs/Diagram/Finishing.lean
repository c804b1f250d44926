import CircuitFrames.Diagram.Frame
import CircuitFrames.Proofs.Layout.Points

/-!
# Finished layers

The finisher goes over all layers again and again: it reserves positions, fills in idle markers and
axes, lays on the marks and then the notes. Seen from one layer all of that is one thing
(`getElem?_frames_ofWalk`): the primitives of the layer come first, then what its used positions ask
for, then the glyphs of what is written on it (`Walk.writing`).
-/

namespace CircuitFrames

open Svg (Primitive)

/-! ### The notes of a layer -/

theorem map_eq_map_of_map_eq {α β γ : Type} {f : α → β} {g : α → γ}
    (h : ∀ a b, f a = f b → g a = g b) {as bs : List α} (hf : as.map f = bs.map f) :
    as.map g = bs.map g := by
  induction as generalizing bs with
  | nil =>
    rw [List.map_nil, eq_comm, List.map_eq_nil_iff] at hf
    rw [hf]
  | cons a as ih =>
    cases bs with
    | nil => cases hf
    | cons b bs =>
      rw [List.map_cons, List.map_cons, List.cons.injEq] at hf
      rw [List.map_cons, List.map_cons, h a b hf.1, ih hf.2]

namespace Note

theorem order_eq_eq {m n : Note} :
    order m n = .eq ↔
      m.qubit = n.qubit ∧ m.layer = n.layer ∧ codeRank m.channel = codeRank n.channel := by
  unfold order
  rw [compareLex_eq_eq, compareLex_eq_eq]
  simp [compareOn]

theorem mem_iff_exists_mem_toList {s : NoteSet} {n : Note} :
    n ∈ s ↔ ∃ m ∈ s.toList, order m n = .eq := by
  let agrees : BEq Note := ⟨fun a b => order a b == .eq⟩
  have hagrees (a b : Note) : (a == b) = true ↔ order a b = .eq := by
    show (order a b == Ordering.eq) = true ↔ _
    exact beq_iff_eq
  have hlawful : @Std.LawfulBEqCmp Note agrees order :=
    @Std.LawfulBEqCmp.mk _ agrees _ (hagrees _ _).symm
  have hcontains := @Std.ExtTreeSet.contains_toList Note order s agrees hlawful _ n
  rw [Std.ExtTreeSet.mem_iff_contains, ← hcontains, List.contains_iff_exists_mem_beq]
  constructor
  · rintro ⟨m, hm, h⟩
    exact ⟨m, hm, Std.OrientedCmp.eq_symm ((hagrees n m).mp h)⟩
  · rintro ⟨m, hm, h⟩
    exact ⟨m, hm, (hagrees n m).mpr (Std.OrientedCmp.eq_symm h)⟩

/-- The place of a note among the notes of its layer. -/
def place (n : Note) : ℕ ×ₗ ℕ :=
  toLex (n.qubit.toNat, codeRank n.channel)

theorem place_lt {m n : Note} (hlayer : m.layer = n.layer) (h : order m n = .lt) :
    m.place < n.place := by
  unfold order compareLex compareOn at h
  rw [Ordering.then_eq_lt, Ordering.then_eq_lt] at h
  rw [place, place, Prod.Lex.toLex_lt_toLex]
  rcases h with hqubit | ⟨hqubit, hlayers | ⟨-, hcode⟩⟩
  · exact .inl (UInt32.lt_iff_toNat_lt.mp (Std.compare_eq_lt.mp hqubit))
  · exact absurd hlayer (Nat.ne_of_lt (Nat.compare_eq_lt.mp hlayers))
  · have hqubit' : m.qubit = n.qubit := Std.LawfulEqCmp.compare_eq_iff_eq.mp hqubit
    exact .inr ⟨congrArg UInt32.toNat hqubit', Nat.compare_eq_lt.mp hcode⟩

/-- The notes of a layer, in order. -/
def onLayer (s : NoteSet) (i : Nat) : List Note :=
  s.toList.filter (·.layer = i)

theorem mem_map_place_onLayer {s : NoteSet} {i : Nat} {x : ℕ ×ₗ ℕ} :
    x ∈ (onLayer s i).map place ↔ ∃ q c, (⟨q, i, c⟩ : Note) ∈ s ∧ place ⟨q, i, c⟩ = x := by
  rw [List.mem_map]
  constructor
  · rintro ⟨n, hn, rfl⟩
    obtain ⟨hmem, hlayer⟩ := List.mem_filter.mp hn
    obtain rfl := of_decide_eq_true hlayer
    exact ⟨n.qubit, n.channel, mem_iff_exists_mem_toList.mpr ⟨n, hmem, Std.ReflCmp.compare_self⟩, rfl⟩
  · rintro ⟨q, c, hmem, rfl⟩
    obtain ⟨n, hn, h⟩ := mem_iff_exists_mem_toList.mp hmem
    obtain ⟨hqubit, hlayer, hcode⟩ := order_eq_eq.mp h
    refine ⟨n, List.mem_filter.mpr ⟨hn, decide_eq_true hlayer⟩, ?_⟩
    rw [place, hqubit, hcode]
    rfl

theorem pairwise_place_onLayer (s : NoteSet) (i : Nat) :
    ((onLayer s i).map place).Pairwise (· < ·) := by
  rw [List.pairwise_map]
  have hordered : (onLayer s i).Pairwise fun m n => order m n = .lt :=
    s.ordered_toList.filter _
  refine hordered.imp_of_mem ?_
  intro m n hm hn h
  apply place_lt _ h
  rw [of_decide_eq_true (List.mem_filter.mp hm).2, of_decide_eq_true (List.mem_filter.mp hn).2]

theorem map_place_onLayer_congr {s t : NoteSet} {i j : Nat}
    (h : ∀ q c, (⟨q, i, c⟩ : Note) ∈ s ↔ (⟨q, j, c⟩ : Note) ∈ t) :
    (onLayer s i).map place = (onLayer t j).map place := by
  apply (pairwise_place_onLayer s i).eq_of_mem_iff (pairwise_place_onLayer t j)
  intro x
  rw [mem_map_place_onLayer, mem_map_place_onLayer]
  apply exists₂_congr
  intro q c
  rw [h]
  rfl

theorem qubit_eq_of_place_eq {m n : Note} (h : m.place = n.place) : m.qubit = n.qubit :=
  UInt32.toNat_inj.mp (Prod.ext_iff.mp (toLex_inj.mp h)).1

theorem code_eq_of_place_eq {m n : Note} (h : m.place = n.place) :
    m.channel.code = n.channel.code := by
  have hrank : codeRank m.channel = codeRank n.channel := (Prod.ext_iff.mp (toLex_inj.mp h)).2
  generalize m.channel = c at hrank
  generalize n.channel = d at hrank
  cases c <;> cases d <;> first | rfl | cases hrank

end Note

/-! ### What is written on a layer -/

/-- The marks of a layer in their order, and its notes. -/
@[ext]
structure Writing where
  marks : List (Qubit × MarkKind)
  notes : Set (Qubit × NoiseChannel)

/-- What the corrections and the notes of a walk write on a layer. -/
def Walk.writing (w : Walk) (i : Nat) : Writing where
  marks := (w.corrections.toList.filter (·.layer = i)).map fun m => (m.qubit, m.kind)
  notes := {x | ⟨x.1, i, x.2⟩ ∈ w.notes}

namespace Frame

variable (coords : CoordinateMap) (marks : List Mark) (notes : NoteSet)

/-- The points that marks and notes take as used on a layer. -/
def pointsOn (i : Nat) : List Point :=
  ((marks.filter (·.layer = i)).map fun m => coords.position m.qubit) ++
    (Note.onLayer notes i).map fun n => coords.position n.qubit

/-- The glyphs of the marks and the notes on a layer. -/
def glyphsOn (i : Nat) : List Primitive :=
  (marks.filter (·.layer = i)).map (markGlyph coords) ++
    (Note.onLayer notes i).map (noteGlyph coords)

variable {coords marks notes}

theorem map_place_of_writing_eq {v w : Walk} {i j : Nat} (h : w.writing i = v.writing j) :
    (Note.onLayer w.notes i).map Note.place = (Note.onLayer v.notes j).map Note.place := by
  apply Note.map_place_onLayer_congr
  intro q c
  exact Set.ext_iff.mp (congrArg Writing.notes h) (q, c)

theorem pointsOn_congr {v w : Walk} {i j : Nat} (h : w.writing i = v.writing j) :
    pointsOn coords w.corrections.toList w.notes i =
      pointsOn coords v.corrections.toList v.notes j := by
  have hmarks := congrArg (List.map fun x => coords.position x.1) (congrArg Writing.marks h)
  unfold Walk.writing at hmarks
  rw [List.map_map, List.map_map] at hmarks
  unfold pointsOn
  refine congrArg₂ (· ++ ·) hmarks (map_eq_map_of_map_eq ?_ (map_place_of_writing_eq h))
  intro m n hplace
  rw [Note.qubit_eq_of_place_eq hplace]

theorem glyphsOn_congr {v w : Walk} {i j : Nat} (h : w.writing i = v.writing j) :
    glyphsOn coords w.corrections.toList w.notes i =
      glyphsOn coords v.corrections.toList v.notes j := by
  have hmarks := congrArg (List.map fun x => markGlyph coords ⟨x.1, 0, x.2⟩)
    (congrArg Writing.marks h)
  unfold Walk.writing at hmarks
  rw [List.map_map, List.map_map] at hmarks
  unfold glyphsOn
  refine congrArg₂ (· ++ ·) hmarks (map_eq_map_of_map_eq ?_ (map_place_of_writing_eq h))
  intro m n hplace
  rw [noteGlyph, noteGlyph, Note.qubit_eq_of_place_eq hplace, Note.code_eq_of_place_eq hplace]

/-! ### One layer of many -/

theorem getElem?_foldl_modify {α β : Type} (index : α → Nat) (f : α → β → β) (as : List α)
    (xs : Array β) (i : Nat) :
    (as.foldl (fun xs a => xs.modify (index a) (f a)) xs)[i]? =
      xs[i]?.map fun x => (as.filter (index · = i)).foldl (fun x a => f a x) x := by
  induction as generalizing xs with
  | nil => simp
  | cons a as ih =>
    rw [List.foldl_cons, ih, Array.getElem?_modify, List.filter_cons]
    by_cases ha : index a = i
    · rw [if_pos ha, if_pos (decide_eq_true ha), Option.map_map]
      rfl
    · rw [if_neg ha, if_neg (by simpa using ha)]

theorem toList_draw (l : Layer) (ps : List Primitive) :
    (l.draw ps).primitives.toList = l.primitives.toList ++ ps :=
  Array.toList_appendList

theorem draw_draw (l : Layer) (ps qs : List Primitive) : (l.draw ps).draw qs = l.draw (ps ++ qs) := by
  have h : ((l.draw ps).draw qs).primitives = (l.draw (ps ++ qs)).primitives := by
    apply Array.ext'
    rw [toList_draw, toList_draw, toList_draw, List.append_assoc]
  exact congrArg (fun primitives => { l with primitives := primitives }) h

theorem foldl_draw {α : Type} (glyph : α → Primitive) (as : List α) (l : Layer) :
    as.foldl (fun l a => l.draw [glyph a]) l = l.draw (as.map glyph) := by
  induction as generalizing l with
  | nil => simp [Layer.draw]
  | cons a as ih =>
    rw [List.foldl_cons, ih, draw_draw]
    rfl

theorem map_filter_annotated (i : Nat) :
    ((annotated marks notes).filter (·.1 = i)).map (fun x => coords.position x.2) =
      pointsOn coords marks notes i := by
  unfold annotated pointsOn Note.onLayer
  rw [List.filter_append, List.map_append, List.filter_map, List.filter_map, List.map_map,
    List.map_map]
  rfl

theorem getElem?_reserveAll (layers : Array Layer) (i : Nat) :
    (reserveAll coords (annotated marks notes) layers)[i]? =
      layers[i]?.map ((pointsOn coords marks notes i).foldl Layer.reserve) := by
  refine (getElem?_foldl_modify (fun x : Nat × Qubit => x.1)
    (fun x l => l.reserve (coords.position x.2)) _ layers i).trans ?_
  congr 1
  funext l
  rw [← map_filter_annotated, List.foldl_map]

theorem layers_add (d : Draft) (i : Nat) (p : Primitive) (e : Event) :
    (d.add i p e).layers = d.layers.modify i (·.draw [p]) := by
  unfold Draft.add
  split
  next => rfl
  next h =>
    apply Array.ext_getElem?
    intro j
    rw [Array.getElem?_modify]
    split
    next hij =>
      rw [← hij, Array.getElem?_eq_none (Nat.le_of_not_lt h)]
      rfl
    next => rfl

theorem getElem?_foldl_add {α : Type} (index : α → Nat) (glyph : α → Primitive)
    (otherwise : α → Event) (as : List α) (d : Draft) (i : Nat) :
    (as.foldl (fun d a => d.add (index a) (glyph a) (otherwise a)) d).layers[i]? =
      d.layers[i]?.map (·.draw ((as.filter (index · = i)).map glyph)) := by
  have hlayers : (as.foldl (fun d a => d.add (index a) (glyph a) (otherwise a)) d).layers =
      as.foldl (fun ls a => ls.modify (index a) (·.draw [glyph a])) d.layers := by
    induction as generalizing d with
    | nil => rfl
    | cons a as ih => rw [List.foldl_cons, ih, layers_add, List.foldl_cons]
  rw [hlayers]
  refine (getElem?_foldl_modify index (fun a l => l.draw [glyph a]) as d.layers i).trans ?_
  congr 1
  funext l
  exact foldl_draw glyph _ l

/-! ### Frames -/

/-- The markers and axes of a layer for the positions that it uses. -/
def padding (used positions : PointSet) : List Primitive :=
  (positions.toList.filter (! used.contains ·)).map Layer.idleMarker ++
    match Bounds.around? (used.insertMany positions.toList) with
    | none => []
    | some b =>
      (Layer.columns (used.insertMany positions.toList)).map (Layer.columnLabel b) ++
        (Layer.rows (used.insertMany positions.toList)).map (Layer.rowLabel b)

theorem forall_mem_padding {P : Primitive → Prop} (hidle : ∀ p, P (Layer.idleMarker p))
    (hcolumn : ∀ b x, P (Layer.columnLabel b x)) (hrow : ∀ b y, P (Layer.rowLabel b y))
    (used positions : PointSet) : ∀ p ∈ padding used positions, P p := by
  intro p hp
  unfold padding at hp
  rcases List.mem_append.mp hp with hp | hp
  · obtain ⟨q, -, rfl⟩ := List.mem_map.mp hp
    exact hidle q
  · split at hp
    · cases hp
    · rcases List.mem_append.mp hp with hp | hp <;> obtain ⟨x, -, rfl⟩ := List.mem_map.mp hp
      · exact hcolumn _ x
      · exact hrow _ x

theorem forall_mem_glyphsOn {P : Primitive → Prop} (hmark : ∀ coords m, P (markGlyph coords m))
    (hnote : ∀ coords n, P (noteGlyph coords n)) (i : Nat) :
    ∀ p ∈ glyphsOn coords marks notes i, P p := by
  intro p hp
  rcases List.mem_append.mp hp with hp | hp <;> obtain ⟨x, -, rfl⟩ := List.mem_map.mp hp
  · exact hmark coords x
  · exact hnote coords x

theorem toList_addIdles (l : Layer) (positions : PointSet) :
    (l.addIdles positions).primitives.toList =
      l.primitives.toList ++ padding l.used positions := by
  unfold Layer.addIdles padding Layer.bounds?
  dsimp only
  cases Bounds.around? (l.used.insertMany positions.toList) with
  | none =>
    rw [List.append_nil]
    exact toList_draw _ _
  | some b =>
    rw [toList_draw]
    show (l.draw _).primitives.toList ++ _ = _
    rw [toList_draw, List.append_assoc]

theorem used_addIdles (l : Layer) (positions : PointSet) :
    (l.addIdles positions).used = l.used.insertMany positions.toList := by
  unfold Layer.addIdles
  dsimp only
  split <;> rfl

/-- The frame of a layer: its primitives, what pads it, and the glyphs on it. -/
def framed (positions : PointSet) (points : List Point) (glyphs : List Primitive) (l : Layer) :
    Frame :=
  let used := points.foldl (·.insert ·) l.used
  ⟨l.primitives.toList ++ padding used positions ++ glyphs,
    (Bounds.around? (used.insertMany positions.toList)).getD .origin⟩

theorem foldl_reserve (points : List Point) (l : Layer) :
    points.foldl Layer.reserve l = { l with used := points.foldl (·.insert ·) l.used } := by
  induction points generalizing l with
  | nil => rfl
  | cons p points ih =>
    rw [List.foldl_cons, ih]
    rfl

theorem ofLayer_finished (l : Layer) (positions : PointSet) (points : List Point)
    (marks notes : List Primitive) :
    ofLayer ((((points.foldl Layer.reserve l).addIdles positions).draw marks).draw notes) =
      framed positions points (marks ++ notes) l := by
  rw [foldl_reserve, draw_draw, ofLayer, toList_draw, toList_addIdles]
  show Frame.mk _ ((Bounds.around? (Layer.addIdles _ _).used).getD .origin) = _
  rw [used_addIdles]
  rfl

/-- **A frame comes of its layer and of what is written on it**; of all else it needs to know the
positions of the run only. -/
theorem getElem?_frames_ofWalk (w : Walk) (flips : List Mark) (i : Nat) :
    let coords := w.current.coords
    let marks := flips ++ w.corrections.toList
    (ofWalk w flips).1[i]? =
      (shown w.layers)[i]?.map
        (framed (allPositions coords (annotated marks w.notes) w.layers (shown w.layers).size)
          (pointsOn coords marks w.notes i) (glyphsOn coords marks w.notes i)) := by
  intro coords marks
  have hnotes :=
    getElem?_foldl_add (fun n : Note => n.layer) (noteGlyph coords) .noteOnDiscardedLayer
  have hmarks :=
    getElem?_foldl_add (fun m : Mark => m.layer) (markGlyph coords) .markOnDiscardedLayer
  unfold ofWalk Draft.addNote Draft.addMark
  rw [List.getElem?_map, Array.getElem?_toList, hnotes, hmarks, Array.getElem?_map,
    getElem?_reserveAll]
  cases (shown w.layers)[i]? with
  | none => rfl
  | some l => exact congrArg some (ofLayer_finished l _ _ _ _)

theorem length_frames_ofWalk (w : Walk) (flips : List Mark) :
    (ofWalk w flips).1.length = (shown w.layers).size := by
  have hframes := getElem?_frames_ofWalk w flips
  apply Nat.le_antisymm
  · rw [← List.getElem?_eq_none_iff, hframes, Array.getElem?_eq_none (Nat.le_refl _)]
    rfl
  · have hend := hframes (ofWalk w flips).1.length
    rw [List.getElem?_eq_none (Nat.le_refl _), eq_comm, Option.map_eq_none_iff] at hend
    exact Array.getElem?_eq_none_iff.mp hend

/-! ### Positions and layers of a run -/

theorem mem_foldl_insertMany {p : Point} (layers : List Layer) (s : PointSet) :
    p ∈ layers.foldl (fun s l => s.insertMany l.used.toList) s ↔
      p ∈ s ∨ ∃ l ∈ layers, p ∈ l.used := by
  induction layers generalizing s with
  | nil => simp
  | cons l layers ih =>
    rw [List.foldl_cons, ih, Std.ExtTreeSet.mem_insertMany_list, List.contains_iff_mem,
      Std.ExtTreeSet.mem_toList, List.exists_mem_cons_iff, or_assoc]

theorem mem_allPositions {layers : Array Layer} {count : Nat} {p : Point} :
    p ∈ allPositions coords (annotated marks notes) layers count ↔
      (∃ l ∈ layers, p ∈ l.used) ∨ ∃ i < count, p ∈ pointsOn coords marks notes i := by
  unfold allPositions
  dsimp only
  rw [Std.ExtTreeSet.mem_insertMany_list, List.contains_iff_mem, ← Array.foldl_toList,
    mem_foldl_insertMany]
  have hpoints : p ∈ ((annotated marks notes).filter (·.1 < count)).map (fun x => coords.position x.2) ↔
      ∃ i < count, p ∈ pointsOn coords marks notes i := by
    simp only [← map_filter_annotated, List.mem_map, List.mem_filter, decide_eq_true_eq]
    constructor
    · rintro ⟨x, ⟨hx, hlt⟩, rfl⟩
      exact ⟨x.1, hlt, x, ⟨hx, rfl⟩, rfl⟩
    · rintro ⟨i, hlt, x, ⟨hx, rfl⟩, rfl⟩
      exact ⟨x, ⟨hx, hlt⟩, rfl⟩
  rw [hpoints]
  simp

/-- If the last layer that was closed is drawn on and the open one is not, the closed ones are
shown. -/
theorem shown_layers {w : Walk} (hopen : w.current.isEmpty = true)
    (hlast : w.closed.back?.any (! ·.isEmpty) = true) : shown w.layers = w.closed := by
  unfold shown Walk.layers
  rw [Array.push_eq_append, Array.popWhile_append_of_pos (by simpa using hopen)]
  rw [Option.any_eq_true] at hlast
  obtain ⟨l, hl, hdrawn⟩ := hlast
  obtain ⟨before, hclosed⟩ := Array.back?_eq_some_iff.mp hl
  rw [hclosed, Array.popWhile, dif_pos (by simp), if_neg (by simpa using hdrawn)]

end Frame

end CircuitFrames
