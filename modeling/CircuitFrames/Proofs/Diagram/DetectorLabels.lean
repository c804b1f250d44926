import CircuitFrames.Diagram.Render
import CircuitFrames.Proofs.Circuit.Shift
import CircuitFrames.Proofs.Diagram.Counts
import CircuitFrames.Proofs.Diagram.Finishing
import CircuitFrames.Proofs.Diagram.Lookback

/-!
# Labels of detectors

Coordinates of detectors are collected ahead of the walk, which finds them again by nothing but the
number of a detector. Both number the detectors alike (`nextDetector_of_foldlM`,
`mem_detectorCoordinates`), so every label that a detector makes shows its own number and its own
coordinates, moved by the shifts before it (`detectors_labelled`).
-/

namespace CircuitFrames

open Svg (Primitive)

/-! ### The shifts of a history -/

namespace ShiftVector

/-- The shift after an operation. -/
def after (shift : ShiftVector) (o : Operation) : ShiftVector :=
  if o.kind = .shiftCoords then shift.accumulate o.args else shift

end ShiftVector

namespace History

/-- The shift in one component: all deltas for it, added up in order. -/
def shiftAt (h : History) (i : Nat) : Float :=
  ((h.filter (·.kind = .shiftCoords)).filterMap (·.args[i]?)).foldl (· + ·) 0

/-- The arguments of an operation behind the history, each moved by its component of the shift. -/
def movedArgs (h : History) (o : Operation) : List Float :=
  o.args.mapIdx fun i a => a + h.shiftAt i

/-- The label of a detector behind the history, with its coordinates or without them. -/
def detectorLabel (h : History) (coordinates : Bool) (o : Operation) : String :=
  let number := "D" ++ toString (h.countP Operation.isDetector)
  if coordinates = true ∧ o.args ≠ [] then
    number ++ "(" ++ ",".intercalate ((h.movedArgs o).map Numeral.plain) ++ ")"
  else number

/-- Whether a measurement of the history was recorded on a layer. -/
def recordedOn (h : History) (layer j : Nat) : Bool :=
  h.sites[j]?.map Site.layer == some layer

theorem getD_foldl_after (h : History) (shift : ShiftVector) (i : Nat) :
    (h.foldl ShiftVector.after shift).getD i 0 =
      ((h.filter (·.kind = .shiftCoords)).filterMap (·.args[i]?)).foldl (· + ·) (shift.getD i 0) := by
  induction h generalizing shift with
  | nil => rfl
  | cons o h ih =>
    rw [List.foldl_cons, ih, ShiftVector.after, List.filter_cons]
    by_cases hkind : o.kind = .shiftCoords
    · rw [if_pos hkind, if_pos (decide_eq_true hkind), List.filterMap_cons,
        ShiftVector.getD_accumulate]
      cases o.args[i]? <;> rfl
    · rw [if_neg hkind, if_neg (by simpa using hkind)]

theorem move_foldl_after (h : History) (o : Operation) :
    (h.foldl ShiftVector.after []).move o.args = h.movedArgs o := by
  rw [ShiftVector.move_eq_mapIdx, movedArgs]
  congr 1
  funext i a
  rw [getD_foldl_after]
  rfl

theorem shiftAt_of_length_le {h : History} {i : Nat}
    (hshort : ∀ s ∈ h, s.kind = .shiftCoords → s.args.length ≤ i) : h.shiftAt i = 0 := by
  have hnone : (h.filter (·.kind = .shiftCoords)).filterMap (·.args[i]?) = [] := by
    rw [List.filterMap_eq_nil_iff]
    intro s hs
    obtain ⟨hmem, hkind⟩ := List.mem_filter.mp hs
    exact List.getElem?_eq_none (hshort s hmem (of_decide_eq_true hkind))
  rw [shiftAt, hnone]
  rfl

end History

/-! ### Numbered coordinates -/

namespace Circuit

theorem numberedCoordinates_after (shift : ShiftVector) (next : Nat) (o : Operation)
    (rest : List Operation) :
    numberedCoordinates shift next (o :: rest) =
      (if o.isDetector = true ∧ o.args ≠ [] then [(next, shift.move o.args)] else []) ++
        numberedCoordinates (shift.after o) (next + if o.isDetector = true then 1 else 0) rest := by
  rw [numberedCoordinates_cons, ShiftVector.after, Operation.isDetector]
  by_cases hshift : o.kind = .shiftCoords
  · simp [hshift]
  · by_cases hdetector : o.kind = .detector
    · by_cases hargs : o.args = [] <;> simp [hdetector, hargs]
    · simp [hshift, hdetector]

theorem numberedCoordinates_append (shift : ShiftVector) (next : Nat)
    (ops more : List Operation) :
    numberedCoordinates shift next (ops ++ more) =
      numberedCoordinates shift next ops ++
        numberedCoordinates (ops.foldl ShiftVector.after shift)
          (next + ops.countP Operation.isDetector) more := by
  induction ops generalizing shift next with
  | nil => rfl
  | cons o ops ih =>
    rw [List.cons_append, numberedCoordinates_after, numberedCoordinates_after, ih,
      List.append_assoc, List.foldl_cons, List.countP_cons, Nat.add_assoc,
      Nat.add_comm (ops.countP _)]

theorem bounds_of_mem_numberedCoordinates {shift : ShiftVector} {next : Nat} {ops : List Operation}
    {entry : Nat × List Float} (h : entry ∈ numberedCoordinates shift next ops) :
    next ≤ entry.1 ∧ entry.1 < next + ops.countP Operation.isDetector := by
  induction ops generalizing shift next with
  | nil => cases h
  | cons o ops ih =>
    rw [numberedCoordinates_after, List.mem_append] at h
    rw [List.countP_cons]
    rcases h with h | h
    · split at h
      next hlisted =>
        obtain rfl := List.mem_singleton.mp h
        rw [if_pos hlisted.1]
        dsimp only
        omega
      next => cases h
    · have := ih h
      omega

theorem pairwise_numberedCoordinates (shift : ShiftVector) (next : Nat) (ops : List Operation) :
    (numberedCoordinates shift next ops).Pairwise (·.1 < ·.1) := by
  induction ops generalizing shift next with
  | nil => exact .nil
  | cons o ops ih =>
    rw [numberedCoordinates_after]
    split
    next hlisted =>
      rw [if_pos hlisted.1]
      refine List.pairwise_cons.mpr ⟨fun entry hentry => ?_, ih _ _⟩
      exact (bounds_of_mem_numberedCoordinates hentry).1
    next => exact ih _ _

/-- **Coordinates are listed under the numbers of their detectors**, for the detectors that have
any. -/
theorem mem_detectorCoordinates {c : Circuit} {pre post : History} {o : Operation}
    (hc : c.executed = pre ++ o :: post) (ho : o.kind = .detector) (coords : List Float) :
    (pre.countP Operation.isDetector, coords) ∈ c.detectorCoordinates ↔
      o.args ≠ [] ∧ coords = pre.movedArgs o := by
  have hdetector : o.isDetector = true := by rw [Operation.isDetector, ho]; rfl
  rw [detectorCoordinates, hc, numberedCoordinates_append, Nat.zero_add, numberedCoordinates_after,
    List.mem_append, List.mem_append, pre.move_foldl_after o, if_pos hdetector]
  constructor
  · rintro (h | h | h)
    · have := (bounds_of_mem_numberedCoordinates h).2
      omega
    · split at h
      next hlisted =>
        cases List.mem_singleton.mp h
        exact ⟨hlisted.2, rfl⟩
      next => cases h
    · have := (bounds_of_mem_numberedCoordinates h).1
      omega
  · rintro ⟨hargs, rfl⟩
    rw [if_pos ⟨hdetector, hargs⟩]
    exact .inr (.inl (List.mem_singleton_self _))

theorem getElem?_ofList_detectorCoordinates (c : Circuit) (n : Nat) (coords : List Float) :
    (Std.ExtTreeMap.ofList c.detectorCoordinates)[n]? = some coords ↔
      (n, coords) ∈ c.detectorCoordinates := by
  have hdistinct : c.detectorCoordinates.Pairwise fun a b => ¬compare a.1 b.1 = .eq :=
    (pairwise_numberedCoordinates [] 0 c.executed).imp fun hlt heq => by
      rw [Nat.compare_eq_eq] at heq
      omega
  have hlisted {coords : List Float} (h : (n, coords) ∈ c.detectorCoordinates) :
      (Std.ExtTreeMap.ofList c.detectorCoordinates)[n]? = some coords :=
    Std.ExtTreeMap.getElem?_ofList_of_mem Std.ReflCmp.compare_self hdistinct h
  refine ⟨fun h => ?_, hlisted⟩
  by_cases hn : ∃ listed, (n, listed) ∈ c.detectorCoordinates
  · obtain ⟨listed, hmem⟩ := hn
    rw [hlisted hmem] at h
    rwa [← Option.some.inj h]
  · have hnone : (c.detectorCoordinates.map Prod.fst).contains n = false := by
      simpa [List.contains_eq_mem] using hn
    rw [Std.ExtTreeMap.getElem?_ofList_of_contains_eq_false hnone] at h
    cases h

end Circuit

namespace Walk

variable {past : History} {w : Walk} {o : Operation}

/-! ### What the lookbacks of an operation add to a layer -/

theorem filterMap_content?_label (look : LabelStyle) (p : Point) (slot : Nat) :
    (label look p slot).filterMap Primitive.content? = [look.content] := by
  unfold label
  cases look.highlighted <;> rfl

theorem reached?_upTo (past : History) (ho : o.kind = .detector ∨ o.kind = .observableInclude)
    (n : Nat) (k : Int32) : (past ++ [o.upTo n]).reached? k = past.reached? k :=
  past.reached?_snoc_of_not_producing (o := o.upTo n) (producesMeasurements_of_labels ho) k

theorem recordedOn_upTo (past : History) (ho : o.kind = .detector ∨ o.kind = .observableInclude)
    (n i : Nat) : (past ++ [o.upTo n]).recordedOn i = past.recordedOn i := by
  have hmeasure : (o.upTo n).kind.producesMeasurements = false := producesMeasurements_of_labels ho
  unfold History.recordedOn
  rw [History.sites_snoc, History.sitesOf_of_not_producing past hmeasure, List.append_nil]

theorem Follows.contents_markLookback (h : Follows past w) (look : LabelStyle) (name : String)
    {k : Int32} {j : Nat} (hk : past.reached? k = some j) {i : Nat} {l : Layer}
    (hl : w.layers[i]? = some l) :
    ∃ l' more, (markLookback look name w k).layers[i]? = some l' ∧
      l'.primitives.toList = l.primitives.toList ++ more ∧
      more.filterMap Primitive.content? =
        if past.recordedOn i j = true then [look.content] else [] := by
  obtain ⟨site, -, hsite, -, hlayers⟩ := h.layers_markLookback look name hk
  have howner : past.recordedOn i j = true ↔ site.layer = i := by
    simp [History.recordedOn, hsite]
  rw [hlayers, Array.getElem?_modify, hl]
  by_cases hi : site.layer = i
  · rw [if_pos hi, if_pos (howner.mpr hi)]
    exact ⟨_, _, rfl, Frame.toList_draw l _, filterMap_content?_label look _ _⟩
  · rw [if_neg hi, if_neg (mt howner.mp hi)]
    exact ⟨l, [], rfl, (List.append_nil _).symm, rfl⟩

/-- One text for every lookback that reaches a measurement of the layer, and no other. -/
theorem Follows.contents_markedUpTo (style : DetectorStyle) (h : Follows past w)
    (ho : o.kind = .detector ∨ o.kind = .observableInclude) {ks : List Int32}
    (hks : o.lookbacks = .ok ks) {i : Nat} {l : Layer} (hl : w.layers[i]? = some l) (n : Nat) :
    ∃ l' more, (markedUpTo style w o (ks.take n)).layers[i]? = some l' ∧
      l'.primitives.toList = l.primitives.toList ++ more ∧
      more.filterMap Primitive.content? =
        List.replicate (((ks.take n).filterMap past.reached?).countP (past.recordedOn i))
          (lookOf style w o).content := by
  induction n with
  | zero =>
    refine ⟨l, [], ?_, (List.append_nil _).symm, rfl⟩
    rw [List.take_zero, markedUpTo, List.foldl_nil, layers_opened, hl]
  | succ n ih =>
    obtain ⟨l', more, hl', hmore, hcontents⟩ := ih
    rw [List.take_add_one]
    cases hk : ks[n]? with
    | none =>
      rw [Option.toList_none, List.append_nil]
      exact ⟨l', more, hl', hmore, hcontents⟩
    | some k =>
      have hfollows : Follows (past ++ [o.upTo n]) (markedUpTo style w o (ks.take n)) :=
        h.marking (o := o.upTo n) ho (lookbacks_upTo hks n)
      rw [Option.toList_some, markedUpTo_append, List.foldl_cons, List.foldl_nil,
        List.filterMap_append]
      cases hj : past.reached? k with
      | none =>
        have hnone : (past ++ [o.upTo n]).reached? k = none := (reached?_upTo past ho n k).trans hj
        rw [(hfollows.markLookback_of_none _ _ hnone).1, List.filterMap_cons_none hj,
          List.filterMap_nil, List.append_nil]
        exact ⟨l', more, hl', hmore, hcontents⟩
      | some j =>
        have hreached : (past ++ [o.upTo n]).reached? k = some j :=
          (reached?_upTo past ho n k).trans hj
        obtain ⟨l'', added, hl'', hadded, hcontent⟩ :=
          hfollows.contents_markLookback (lookOf style w o) o.name hreached hl'
        refine ⟨l'', more ++ added, hl'', ?_, ?_⟩
        · rw [hadded, hmore, List.append_assoc]
        · rw [List.filterMap_append, hcontents, hcontent, recordedOn_upTo past ho n i,
            List.filterMap_cons_some hj, List.filterMap_nil, List.countP_append,
            List.countP_singleton, List.replicate_add]
          cases past.recordedOn i j <;> rfl

/-! ### Labels of detectors -/

theorem nextDetector_of_foldlM {style : DetectorStyle} {ops : List Operation}
    (h : ops.foldlM (step style) start = .ok w) :
    w.nextDetector = ops.countP Operation.isDetector := by
  have hstart : start.nextDetector = ([] : History).countP Operation.isDetector := rfl
  refine foldlM_keeps (P := fun past w => w.nextDetector = past.countP Operation.isDetector)
    (fun past o s t hs hstep => ?_) hstart h
  have hcount : t.nextDetector = s.nextDetector + if o.isDetector then 1 else 0 :=
    congrArg Tally.detectors (tally_of_step hstep)
  rw [hcount, hs, List.countP_append, List.countP_singleton]

theorem content_detectorLabel (style : DetectorStyle) (w : Walk) :
    (w.detectorLabel style).content =
      match style.coordinates[w.nextDetector]? with
      | none => "D" ++ toString w.nextDetector
      | some coords =>
        "D" ++ toString w.nextDetector ++ "(" ++ ",".intercalate (coords.map Numeral.plain) ++ ")" := by
  unfold detectorLabel
  cases style.highlighted w.nextDetector <;> rfl

theorem content_lookOf (config : Config) (overlay : Overlay) {c : Circuit} {pre post : History}
    (hc : c.executed = pre ++ o :: post) (ho : o.kind = .detector)
    (hnumber : w.nextDetector = pre.countP Operation.isDetector) :
    (lookOf (.of config overlay c) w o).content =
      pre.detectorLabel config.labelDetectorCoordinates o := by
  have hlisted (coords : List Float) :
      (Std.ExtTreeMap.ofList c.detectorCoordinates)[w.nextDetector]? = some coords ↔
        o.args ≠ [] ∧ coords = pre.movedArgs o := by
    rw [Circuit.getElem?_ofList_detectorCoordinates, hnumber, Circuit.mem_detectorCoordinates hc ho]
  rw [lookOf, if_pos ho, content_detectorLabel, DetectorStyle.of, History.detectorLabel, ← hnumber]
  dsimp only
  cases config.labelDetectorCoordinates with
  | false =>
    rw [if_neg nofun]
    rfl
  | true =>
    rw [if_pos rfl]
    by_cases hargs : o.args = []
    · have hnone : (Std.ExtTreeMap.ofList c.detectorCoordinates)[w.nextDetector]? = none :=
        Option.eq_none_iff_forall_ne_some.mpr fun coords h => ((hlisted coords).mp h).1 hargs
      rw [hnone, if_neg fun h => h.2 hargs]
    · rw [(hlisted _).mpr ⟨hargs, rfl⟩, if_pos ⟨rfl, hargs⟩]

/-- **A detector is labelled with its number and its coordinates.** Where a run executes a detector,
the next number of the walk is the number of detectors executed before, under which the circuit lists
the arguments of this detector, if it has any, each with the deltas of all shifts so far added to it. All
texts that the operation draws are the same label, one for each lookback that reaches a measurement of
the layer, and they stay: the number, followed by these coordinates if they are to be written and there
are any. A component that no shift has moved is the argument itself, except that a negative zero loses
its sign. -/
theorem detectors_labelled {config : Config} {overlay : Overlay} {c : Circuit}
    (hw : Walk.of (.of config overlay c) c = .ok w) {pre post : History}
    (hc : c.executed = pre ++ o :: post) (ho : o.kind = .detector) :
    (∃ before after, pre.foldlM (step (.of config overlay c)) start = .ok before ∧
        step (.of config overlay c) before o = .ok after ∧
        post.foldlM (step (.of config overlay c)) after = .ok w ∧ after.Extends w ∧
        before.nextDetector = pre.countP Operation.isDetector ∧
        ∀ (i : Nat) (l : Layer), before.layers[i]? = some l → ∃ l' more,
          after.layers[i]? = some l' ∧ l'.primitives.toList = l.primitives.toList ++ more ∧
          more.filterMap Primitive.content? =
            List.replicate ((pre.marksOf o).countP (pre.recordedOn i))
              (pre.detectorLabel config.labelDetectorCoordinates o)) ∧
      (∀ coords, (pre.countP Operation.isDetector, coords) ∈ c.detectorCoordinates ↔
        o.args ≠ [] ∧ coords = pre.movedArgs o) ∧
      ∀ (i : Nat) (a : Float), o.args[i]? = some a →
        (∀ s ∈ pre, s.kind = .shiftCoords → s.args.length ≤ i) →
        (pre.movedArgs o)[i]? = some (if a = -0 then 0 else a) := by
  refine ⟨?_, Circuit.mem_detectorCoordinates hc ho, fun i a ha hshort => ?_⟩
  · rw [Walk.of, Circuit.run_eq_foldlM, hc] at hw
    obtain ⟨before, after, hpre, hstep, hpost⟩ := foldlM_split hw
    have hnumber := nextDetector_of_foldlM hpre
    refine ⟨before, after, hpre, hstep, hpost, extends_of_foldlM hpost, hnumber, fun i l hl => ?_⟩
    obtain ⟨ks, hks, rfl⟩ := eq_markedUpTo_of_step (.inl ho) hstep
    have hmarked := (follows_of_foldlM hpre).contents_markedUpTo (.of config overlay c) (.inl ho) hks hl
      ks.length
    rw [List.take_length, content_lookOf config overlay hc ho hnumber,
      ← History.marksOf_of_lookbacks pre (.inl ho) hks] at hmarked
    exact hmarked
  · rw [History.movedArgs, List.getElem?_mapIdx, ha, History.shiftAt_of_length_le hshort]
    show some (a + 0) = _
    rw [Numeral.add_zero_eq_ite]

/-- The second round of a block has moved the first coordinate twice. -/
theorem detectors_labelled_second_round :
    let measure : Operation := ⟨"M", .single .m, [.qubit 0 false], []⟩
    let shift : Operation := ⟨"SHIFT_COORDS", .shiftCoords, [], [2]⟩
    let detector : Operation := ⟨"DETECTOR", .detector, [.record (-1)], [1, 5]⟩
    let config : Config := ⟨500, 500, none, true⟩
    let c : Circuit := .repeated 2 (.op measure (.op shift (.op detector .nil))) .nil
    let pre : History := [measure, shift, detector, measure, shift]
    ∃ (w before after : Walk) (l l' : Layer) (more : List Primitive),
      Walk.of (.of config .empty c) c = .ok w ∧ c.executed = pre ++ detector :: [] ∧
      detector.kind = .detector ∧ pre.foldlM (step (.of config .empty c)) start = .ok before ∧
      step (.of config .empty c) before detector = .ok after ∧ before.nextDetector = 1 ∧
      before.layers[0]? = some l ∧ after.layers[0]? = some l' ∧
      l'.primitives.toList = l.primitives.toList ++ more ∧
      more.filterMap Primitive.content? = ["D1(5,5)"] ∧ (1, [5, 5]) ∈ c.detectorCoordinates := by
  intro measure shift detector config c pre
  obtain ⟨w, hw⟩ : ∃ w, Walk.of (.of config .empty c) c = .ok w := ⟨_, rfl⟩
  have hc : c.executed = pre ++ detector :: [] := rfl
  obtain ⟨⟨before, after, hpre, hstep, -, -, hnumber, hlabels⟩, hlisted, -⟩ :=
    detectors_labelled hw hc rfl
  obtain ⟨l, hl⟩ : ∃ l, before.layers[0]? = some l :=
    ⟨_, Array.getElem?_eq_getElem (by simp [layers])⟩
  obtain ⟨l', more, hl', hmore, hcontents⟩ := hlabels 0 l hl
  have hmarks : (pre.marksOf detector).countP (pre.recordedOn 0) = 1 := rfl
  have hlabel : pre.detectorLabel true detector = "D1(5,5)" := by decide +kernel
  have hmoved : pre.movedArgs detector = [5, 5] := by decide +kernel
  rw [hmarks, hlabel] at hcontents
  exact ⟨w, before, after, l, l', more, hw, hc, rfl, hpre, hstep, hnumber, hl, hl', hmore, hcontents,
    (hlisted _).mpr ⟨List.cons_ne_nil _ _, hmoved.symm⟩⟩

/-- A negative zero that no shift has moved is shown without its sign. -/
theorem negative_zero_unsigned :
    let measure : Operation := ⟨"M", .single .m, [.qubit 0 false], []⟩
    let detector : Operation := ⟨"DETECTOR", .detector, [.record (-1)], [-0]⟩
    let config : Config := ⟨500, 500, none, true⟩
    let c : Circuit := .op measure (.op detector .nil)
    ∃ w l, Walk.of (.of config .empty c) c = .ok w ∧ w.layers[0]? = some l ∧
      l.primitives.toList.filterMap Primitive.content? = ["M", "D0(0)"] ∧
      "D0(" ++ Numeral.plain (-0) ++ ")" ≠ "D0(0)" := by
  exact ⟨_, _, rfl, rfl, rfl, by decide +kernel⟩

end Walk

end CircuitFrames
