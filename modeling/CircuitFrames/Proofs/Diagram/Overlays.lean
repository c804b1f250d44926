import CircuitFrames.Proofs.Diagram.Layers
import CircuitFrames.Proofs.Diagram.ViewBox

/-!
# Every mark and every note is drawn or reported

The finisher drops layers, pads the others and then lays marks and notes over them, by the numbers of
their layers. None is lost on the way, drawn twice or drawn elsewhere: a mark or note is drawn once on
the frame of its layer, or reported once if there is no such frame
(`marks_and_notes_drawn_or_reported`). Marks and notes are told from all else on a frame by the sizes of
their fonts.
-/

namespace CircuitFrames

open Svg (Primitive)

/-! ### Notes by what is written -/

namespace Note

/-- What a note says: the qubit, the layer and the code. -/
def key (n : Note) : Qubit × Nat × String :=
  (n.qubit, n.layer, n.channel.code)

/-- What the notes of a set say. -/
def keys (s : NoteSet) : List (Qubit × Nat × String) :=
  s.toList.map key

variable {s : NoteSet} {m n : Note} {k : Qubit × Nat × String}

theorem codeRank_eq_iff {c d : NoiseChannel} : codeRank c = codeRank d ↔ c.code = d.code := by
  cases c <;> cases d <;> decide

theorem order_eq_iff_key_eq : order m n = .eq ↔ m.key = n.key := by
  rw [order_eq_eq, codeRank_eq_iff, key, key, Prod.mk.injEq, Prod.mk.injEq]

theorem mem_keys_iff : k ∈ keys s ↔ ∃ n ∈ s, n.key = k := by
  rw [keys, List.mem_map]
  constructor
  · rintro ⟨n, hn, hk⟩
    exact ⟨n, mem_iff_exists_mem_toList.mpr ⟨n, hn, Std.ReflCmp.compare_self⟩, hk⟩
  · rintro ⟨n, hn, rfl⟩
    obtain ⟨m, hm, h⟩ := mem_iff_exists_mem_toList.mp hn
    exact ⟨m, hm, order_eq_iff_key_eq.mp h⟩

theorem nodup_keys (s : NoteSet) : (keys s).Nodup := by
  have hordered : s.toList.Pairwise fun m n => order m n = .lt := s.ordered_toList
  rw [keys, List.Nodup, List.pairwise_map]
  refine hordered.imp ?_
  intro m n hlt hkey
  rw [order_eq_iff_key_eq.mpr hkey] at hlt
  cases hlt

theorem mem_keys_insert : k ∈ keys (s.insert n) ↔ k ∈ keys s ∨ k = n.key := by
  simp only [mem_keys_iff, Std.ExtTreeSet.mem_insert, order_eq_iff_key_eq]
  constructor
  · rintro ⟨m, hm | hm, rfl⟩
    · exact .inr hm.symm
    · exact .inl ⟨m, hm, rfl⟩
  · rintro (⟨m, hm, rfl⟩ | rfl)
    · exact ⟨m, .inr hm, rfl⟩
    · exact ⟨n, .inl rfl, rfl⟩

end Note

namespace History

/-- What the noise of an operation has to say. -/
def notedBy (past : History) (o : Operation) : List (Qubit × Nat × String) :=
  match o.kind with
  | .noise channel =>
    (o.targets.filterMap Target.touched?).map fun q => (q, past.ticks, channel.code)
  | _ => []

/-- What all noise has to say, as often as it says it. -/
def noted (h : History) : List (Qubit × Nat × String) :=
  along notedBy [] h

theorem noted_snoc (h : History) (o : Operation) : noted (h ++ [o]) = noted h ++ notedBy h o :=
  along_snoc h o notedBy

end History

namespace Walk

open Note (keys)

variable {style : DetectorStyle} {w w' : Walk} {o : Operation} {past : History}
  {k : Qubit × Nat × String}

theorem mem_keys_foldl_noteNoise (channel : NoiseChannel) (qs : List Qubit) (w : Walk) :
    k ∈ keys (qs.foldl (noteNoise channel) w).notes ↔
      k ∈ keys w.notes ∨ k ∈ qs.map fun q => (q, w.currentIndex, channel.code) := by
  induction qs generalizing w with
  | nil => simp
  | cons q qs ih =>
    have hinsert : k ∈ keys (noteNoise channel w q).notes ↔
        k ∈ keys w.notes ∨ k = (q, w.currentIndex, channel.code) := Note.mem_keys_insert
    rw [List.foldl_cons, ih, hinsert, or_assoc, List.map_cons, List.mem_cons]
    rfl

theorem Stepped.mem_keys (h : Stepped style w o w') (hfollows : Follows past w) :
    k ∈ keys w'.notes ↔ k ∈ keys w.notes ∨ k ∈ History.notedBy past o := by
  have hquiet (hnone : History.notedBy past o = []) (hsame : w'.notes = w.notes) :
      k ∈ keys w'.notes ↔ k ∈ keys w.notes ∨ k ∈ History.notedBy past o := by
    rw [hsame, hnone]
    simp
  cases h with
  | declared kind | shifted kind | ticked kind =>
    exact hquiet (by simp [History.notedBy, kind]) rfl
  | singles kind => exact hquiet (by simp [History.notedBy, kind]) (quiet_drawSingles w _ _).2
  | pairs kind => exact hquiet (by simp [History.notedBy, kind]) (notes_foldl_drawPair _ _ w)
  | products kind =>
    exact hquiet (by simp [History.notedBy, kind]) (Quiet.foldl quiet_drawProduct _ w).2
  | marking kind =>
    refine hquiet ?_ (quiet_markedUpTo style w o _).2
    rcases kind with kind | kind <;> simp [History.notedBy, kind]
  | @noted channel qs kind read =>
    rw [mem_keys_foldl_noteNoise, History.notedBy, kind, hfollows.currentIndex]
    dsimp only
    rw [Operation.filterMap_of_map_eq_some (o.touched_eq_ok.mp read)]

/-- A walk that follows a history, with notes that say what the history does. -/
structure Notes (past : History) (w : Walk) : Prop where
  follows : Follows past w
  mem : ∀ k, k ∈ keys w.notes ↔ k ∈ past.noted

theorem notes_start : Notes [] start where
  follows := follows_start
  mem := by
    intro k
    rw [Note.mem_keys_iff]
    simp [History.noted, History.along, start]

theorem Notes.step (h : Notes past w) (hstep : Stepped style w o w') : Notes (past ++ [o]) w' where
  follows := h.follows.step hstep
  mem := by
    intro k
    rw [hstep.mem_keys h.follows, h.mem, History.noted_snoc, List.mem_append]

/-- The notes of a run say what its noise does, each thing once. -/
theorem perm_keys_of_foldlM {ops : List Operation} (h : ops.foldlM (step style) start = .ok w) :
    (keys w.notes).Perm (History.noted ops).dedup := by
  have hnotes : Notes ops w :=
    foldlM_keeps (P := Notes) (fun _ _ _ _ h hstep => h.step (stepped_of_step hstep)) notes_start h
  rw [List.perm_ext_iff_of_nodup (Note.nodup_keys w.notes) (List.nodup_dedup _)]
  intro k
  rw [hnotes.mem, List.mem_dedup]

end Walk

/-! ### What is reported -/

namespace Frame

theorem size_add (d : Draft) (i : Nat) (p : Primitive) (e : Event) :
    (d.add i p e).layers.size = d.layers.size := by
  rw [layers_add, Array.size_modify]

theorem size_foldl_add {α : Type} (index : α → Nat) (glyph : α → Primitive) (otherwise : α → Event)
    (as : List α) (d : Draft) :
    (as.foldl (fun d a => d.add (index a) (glyph a) (otherwise a)) d).layers.size = d.layers.size := by
  induction as generalizing d with
  | nil => rfl
  | cons a as ih => rw [List.foldl_cons, ih, size_add]

theorem events_foldl_add {α : Type} (index : α → Nat) (glyph : α → Primitive)
    (otherwise : α → Event) (as : List α) (d : Draft) :
    (as.foldl (fun d a => d.add (index a) (glyph a) (otherwise a)) d).events.toList =
      d.events.toList ++ (as.filter (d.layers.size ≤ index ·)).map otherwise := by
  induction as generalizing d with
  | nil => simp
  | cons a as ih =>
    rw [List.foldl_cons, ih, size_add, List.filter_cons]
    by_cases ha : index a < d.layers.size
    · simp [Draft.add, if_pos ha, Nat.not_le_of_lt ha]
    · simp [Draft.add, if_neg ha, Nat.le_of_not_lt ha]

theorem size_reserveAll (coords : CoordinateMap) (places : List (Nat × Qubit))
    (layers : Array Layer) : (reserveAll coords places layers).size = layers.size := by
  unfold reserveAll
  induction places generalizing layers with
  | nil => rfl
  | cons place places ih => rw [List.foldl_cons, ih, Array.size_modify]

theorem events_ofWalk (w : Walk) (flips : List Mark) :
    (ofWalk w flips).2 =
      ((flips ++ w.corrections.toList).filter ((ofWalk w flips).1.length ≤ ·.layer)).map
          .markOnDiscardedLayer ++
        (w.notes.toList.filter ((ofWalk w flips).1.length ≤ ·.layer)).map .noteOnDiscardedLayer := by
  have hnotes :=
    events_foldl_add (fun n : Note => n.layer) (noteGlyph w.current.coords) .noteOnDiscardedLayer
  have hmarks :=
    events_foldl_add (fun m : Mark => m.layer) (markGlyph w.current.coords) .markOnDiscardedLayer
  have hsize := size_foldl_add (fun m : Mark => m.layer) (markGlyph w.current.coords)
    .markOnDiscardedLayer
  rw [length_frames_ofWalk]
  unfold ofWalk Draft.addNote Draft.addMark
  dsimp only
  rw [hnotes, hmarks, hsize, Array.size_map, size_reserveAll]
  rfl

/-! ### What is drawn -/

variable {coords : CoordinateMap} {marks : List Mark} {notes : NoteSet}

theorem sized_padding (used positions : PointSet) : ∀ p ∈ padding used positions, Sized p := by
  refine forall_mem_padding (fun _ => nofun) (fun _ _ => ?_) (fun _ _ => ?_) used positions
  · rintro s ⟨⟩
    decide
  · rintro s ⟨⟩
    decide

theorem filter_sized {ps : List Primitive} (h : ∀ p ∈ ps, Sized p) {s : Nat} (hs : s ∉ drawnSizes) :
    ps.filter (fontSize? · = some s) = [] := by
  rw [List.filter_eq_nil_iff]
  intro p hp hsize
  exact hs (h p hp s (of_decide_eq_true hsize))

/-- In a font size that no walk uses there are glyphs of marks and notes only. -/
theorem filter_framed {l : Layer} (hl : ∀ p ∈ l.primitives.toList, Sized p) {s : Nat}
    (hs : s ∉ drawnSizes) (positions : PointSet) (points : List Point) (glyphs : List Primitive) :
    (framed positions points glyphs l).primitives.filter (fontSize? · = some s) =
      glyphs.filter (fontSize? · = some s) := by
  unfold framed
  dsimp only
  rw [List.filter_append, List.filter_append, filter_sized hl hs, filter_sized (sized_padding _ _) hs,
    List.nil_append, List.nil_append]

theorem filter_glyphs {α : Type} {glyph : α → Primitive} {size : Nat}
    (h : ∀ a, fontSize? (glyph a) = some size) (as : List α) (s : Nat) :
    (as.map glyph).filter (fontSize? · = some s) = if size = s then as.map glyph else [] := by
  split
  next hs =>
    rw [List.filter_eq_self, List.forall_mem_map]
    intro a _
    rw [h, hs, decide_eq_true rfl]
  next hs =>
    rw [List.filter_eq_nil_iff, List.forall_mem_map]
    intro a _ hsize
    rw [h] at hsize
    exact hs (Option.some.inj (of_decide_eq_true hsize))

theorem filter_marks (i : Nat) :
    (glyphsOn coords marks notes i).filter (fontSize? · = some 64) =
      (marks.filter (·.layer = i)).map (markGlyph coords) := by
  rw [glyphsOn, List.filter_append, filter_glyphs (fun _ => rfl) _ 64, filter_glyphs (fun _ => rfl) _ 64]
  exact List.append_nil _

theorem filter_notes (i : Nat) :
    (glyphsOn coords marks notes i).filter (fontSize? · = some 12) =
      (notes.toList.filter (·.layer = i)).map (noteGlyph coords) := by
  rw [glyphsOn, List.filter_append, filter_glyphs (fun _ => rfl) _ 12, filter_glyphs (fun _ => rfl) _ 12]
  exact List.nil_append _

end Frame

/-- What is written for a mark, and in which colour. -/
def MarkKind.inked : MarkKind → String × String
  | .flip .x => ("X", "red")
  | .flip .y => ("Y", "red")
  | .flip .z => ("Z", "red")
  | .correction => ("C", "yellow")

theorem Frame.markGlyph_eq (coords : CoordinateMap) (m : Mark) :
    markGlyph coords m = .text (coords.position m.qubit).x (coords.position m.qubit).y m.kind.inked.1
      m.kind.inked.2 64 .middle .middle := by
  obtain ⟨q, layer, kind⟩ := m
  rcases kind with ⟨_ | _ | _⟩ | _ <;> rfl

/-- **Every mark and every note is drawn once or reported once.** The notes of a walk say each thing
once that the executed noise says, however often it says it. Of the flips, the corrections and the
notes, those for whose layer there is no frame are reported, in order. The frame of a layer begins with
what the walk left there, unchanged. In font size 64 it has the marks of its layer, one each: the letter
of a flip in red, a yellow C for a correction, in the middle of where its qubit stands in the end. In font
size 12 it has the notes, one each: the code of the channel in red, ending 16 to the left of its
qubit. -/
theorem marks_and_notes_drawn_or_reported {style : DetectorStyle} {c : Circuit} {w : Walk}
    (h : Walk.of style c = .ok w) (flips : List Mark) :
    let marks := flips ++ w.corrections.toList
    let frames := (Frame.ofWalk w flips).1
    let coords := (History.plane c.executed).coords
    (Note.keys w.notes).Perm (History.noted c.executed).dedup ∧
      (Frame.ofWalk w flips).2 =
        (marks.filter (frames.length ≤ ·.layer)).map .markOnDiscardedLayer ++
          (w.notes.toList.filter (frames.length ≤ ·.layer)).map .noteOnDiscardedLayer ∧
      ∀ (i : Nat) (f : Frame), frames[i]? = some f →
        ∃ l, w.layers[i]? = some l ∧ l.primitives.toList <+: f.primitives ∧
          f.primitives.filter (fontSize? · = some 64) =
            (marks.filter (·.layer = i)).map (fun m =>
              .text (coords.position m.qubit).x (coords.position m.qubit).y m.kind.inked.1 m.kind.inked.2
                64 .middle .middle) ∧
          f.primitives.filter (fontSize? · = some 12) =
            (w.notes.toList.filter (·.layer = i)).map (fun n =>
              .text ((coords.position n.qubit).x - 16) (coords.position n.qubit).y n.channel.code "red"
                12 .finish .middle) := by
  intro marks frames coords
  rw [Walk.of, Circuit.run_eq_foldlM] at h
  refine ⟨Walk.perm_keys_of_foldlM h, Frame.events_ofWalk w flips, fun i f hf => ?_⟩
  have hcoords : w.current.coords = coords := (Walk.follows_of_foldlM h).accounts.coords
  have hframe := Frame.getElem?_frames_ofWalk w flips i
  dsimp only at hframe
  rw [hf, eq_comm, Option.map_eq_some_iff, hcoords] at hframe
  obtain ⟨l, hl, rfl⟩ := hframe
  rw [Frame.getElem?_shown _ (Array.getElem?_eq_some_iff.mp hl).1] at hl
  have hsized := Walk.sized_of_foldlM h (Array.mem_of_getElem? hl)
  refine ⟨l, hl, ⟨_, (List.append_assoc _ _ _).symm⟩, ?_, ?_⟩
  · rw [Frame.filter_framed hsized (by decide), Frame.filter_marks]
    exact List.map_congr_left fun m _ => Frame.markGlyph_eq coords m
  · rw [Frame.filter_framed hsized (by decide), Frame.filter_notes]
    exact List.map_congr_left fun _ _ => rfl

/-- Two channels with one code, one of them twice, a correction, and a flip and a note behind the only
frame. -/
theorem marks_and_notes_drawn_or_reported_behind_frame :
    let noise (channel : NoiseChannel) (q : Qubit) : Operation :=
      ⟨channel.name, .noise channel, [.qubit q false, .pauli .z q true], [0.5]⟩
    let c : Circuit := .ofOperations [⟨"M", .single .m, [.qubit 0 false], []⟩,
      ⟨"CX", .pair .cx, [.record (-1), .qubit 2 false], []⟩,
      noise .correlatedError 1, noise .elseCorrelatedError 1, noise .xError 1,
      ⟨"TICK", .tick, [], []⟩, noise .zError 0]
    let style : DetectorStyle := ⟨fun _ => false, ∅⟩
    ∃ w f, Walk.of style c = .ok w ∧ (Frame.ofWalk w [⟨5, 0, .flip .x⟩, ⟨5, 7, .flip .z⟩]).1 = [f] ∧
      (History.noted c.executed).length = 8 ∧
      (Note.keys w.notes).Perm [(1, 0, "E"), (1, 0, "X"), (0, 1, "Z")] ∧
      f.primitives.filter (fontSize? · = some 64) =
        [.text 160 0 "X" "red" 64 .middle .middle, .text 64 0 "C" "yellow" 64 .middle .middle] ∧
      f.primitives.filter (fontSize? · = some 12) =
        [.text 16 0 "E" "red" 12 .finish .middle, .text 16 0 "X" "red" 12 .finish .middle] ∧
      (Frame.ofWalk w [⟨5, 0, .flip .x⟩, ⟨5, 7, .flip .z⟩]).2 =
        [.markOnDiscardedLayer ⟨5, 7, .flip .z⟩, .noteOnDiscardedLayer ⟨0, 1, .zError⟩] := by
  intro noise c style
  let drawn (w : Walk) : Bool :=
    (Frame.ofWalk w [⟨5, 0, .flip .x⟩, ⟨5, 7, .flip .z⟩]).1.length == 1 &&
      w.corrections.toList == [⟨2, 0, .correction⟩] &&
      w.notes.toList == [⟨0, 1, .zError⟩, ⟨1, 0, .correlatedError⟩, ⟨1, 0, .xError⟩]
  obtain ⟨w, hw, hdrawn⟩ : ∃ w, Walk.of style c = .ok w ∧ drawn w = true :=
    exists_eq_ok_of_any (by decide +kernel)
  simp only [drawn, Bool.and_eq_true, beq_iff_eq] at hdrawn
  obtain ⟨⟨hlength, hcorrections⟩, hnotes⟩ := hdrawn
  obtain ⟨f, hf⟩ := List.length_eq_one_iff.mp hlength
  obtain ⟨hperm, hevents, hframes⟩ :=
    marks_and_notes_drawn_or_reported hw [⟨5, 0, .flip .x⟩, ⟨5, 7, .flip .z⟩]
  rw [hlength, hcorrections, hnotes] at hevents
  rw [hcorrections, hnotes] at hframes
  obtain ⟨l, -, -, hmarks, hcodes⟩ := hframes 0 f (by rw [hf]; rfl)
  have hplaces : ([1, 2, 5] : List Qubit).map (History.plane c.executed).coords.position =
      [⟨.known 32, .known 0⟩, ⟨.known 64, .known 0⟩, ⟨.known 160, .known 0⟩] := by decide +kernel
  simp only [List.map_cons, List.cons.injEq] at hplaces
  obtain ⟨hnoted, hcorrected, hflipped, -⟩ := hplaces
  refine ⟨w, f, hw, hf, rfl, hperm.trans ?_, hmarks.trans ?_, hcodes.trans ?_, hevents⟩
  · decide
  · simp [hflipped, hcorrected, MarkKind.inked, Point.x, Point.y, AxisPlace.value]
  · have hleft : (32 : Float) - 16 = 16 := by decide +kernel
    simp [hnoted, NoiseChannel.code, Point.x, Point.y, AxisPlace.value, hleft]

end CircuitFrames
