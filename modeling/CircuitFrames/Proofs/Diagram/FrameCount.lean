import CircuitFrames.Diagram.Render
import CircuitFrames.Proofs.Diagram.Footprint

/-!
# How many frames there are

The layers behind the last one that is drawn on are not shown, so the last operation that draws
decides how many frames there are: one more than there are ticks before it (`frames_counted`). All
that is written on a layer besides has no say in it.
-/

namespace CircuitFrames

/-! ### The last operation that draws -/

namespace History

/-- The number of frames of a history: none if nothing draws, else one more than the ticks before the
last operation that does. -/
def frameCount : History → Nat
  | [] => 0
  | o :: rest =>
    match frameCount rest with
    | 0 => if o.draws then 1 else 0
    | n + 1 => if o.isTick then n + 2 else n + 1

theorem frameCount_of_none {h : History} (hnone : ∀ o ∈ h, o.draws = false) : frameCount h = 0 := by
  induction h with
  | nil => rfl
  | cons o rest ih =>
    obtain ⟨ho, hrest⟩ := List.forall_mem_cons.mp hnone
    rw [frameCount, ih hrest]
    simp [ho]

theorem frameCount_of_last {before after : History} {o : Operation} (ho : o.draws = true)
    (hafter : ∀ p ∈ after, p.draws = false) :
    frameCount (before ++ o :: after) = before.ticks + 1 := by
  induction before with
  | nil =>
    rw [List.nil_append, frameCount, frameCount_of_none hafter]
    simp [ho, ticks]
  | cons p before ih =>
    rw [List.cons_append, frameCount, ih]
    cases hp : p.isTick <;> simp [ticks, hp]

theorem frameCount_filter (h : History) :
    frameCount (h.filter fun o => o.isTick || o.draws) = frameCount h := by
  induction h with
  | nil => rfl
  | cons o rest ih =>
    rw [List.filter_cons, frameCount]
    split
    next => rw [frameCount, ih]
    next ho =>
      simp only [Bool.or_eq_true, not_or, Bool.not_eq_true] at ho
      rw [ih]
      cases frameCount rest <;> simp [ho]

theorem exists_last_draws (h : History) :
    (∀ o ∈ h, o.draws = false) ∨
      ∃ before o after, h = before ++ o :: after ∧ o.draws = true ∧ ∀ p ∈ after, p.draws = false := by
  induction h with
  | nil => exact .inl nofun
  | cons o rest ih =>
    rcases ih with hnone | ⟨before, p, after, rfl, hp, hafter⟩
    · cases ho : o.draws with
      | true => exact .inr ⟨[], o, rest, rfl, ho, hnone⟩
      | false => exact .inl (List.forall_mem_cons.mpr ⟨ho, hnone⟩)
    · exact .inr ⟨o :: before, p, after, rfl, hp, hafter⟩

end History

/-! ### Layers that are shown -/

namespace Frame

theorem toList_shown (layers : Array Layer) :
    (shown layers).toList = layers.toList.rdropWhile Layer.isEmpty := by
  obtain ⟨ls⟩ := layers
  simp [shown, List.rdropWhile]

theorem size_shown_of_empty {layers : Array Layer} (h : ∀ l ∈ layers, l.isEmpty = true) :
    (shown layers).size = 0 := by
  rw [← Array.length_toList, toList_shown, List.rdropWhile_eq_nil_iff.mpr, List.length_nil]
  simpa using h

theorem size_shown_of_last {layers : Array Layer} {n : Nat} {l : Layer} (hl : layers[n]? = some l)
    (hdrawn : l.isEmpty = false)
    (hafter : ∀ i l', n < i → layers[i]? = some l' → l'.isEmpty = true) :
    (shown layers).size = n + 1 := by
  have hl' : layers.toList[n]? = some l := by rw [Array.getElem?_toList, hl]
  have hsplit : layers.toList = (layers.toList.take n ++ [l]) ++ layers.toList.drop (n + 1) := by
    have htake : layers.toList.take (n + 1) = layers.toList.take n ++ [l] := by
      rw [List.take_add_one, hl']
      rfl
    rw [← htake, List.take_append_drop]
  have hempty : ∀ l ∈ (layers.toList.drop (n + 1)).reverse, l.isEmpty = true := by
    intro l hl
    obtain ⟨i, hi⟩ := List.getElem?_of_mem (List.mem_reverse.mp hl)
    rw [List.getElem?_drop, Array.getElem?_toList] at hi
    exact hafter _ _ (by omega) hi
  have hn : n < layers.toList.length := (List.getElem?_eq_some_iff.mp hl').1
  rw [← Array.length_toList, toList_shown, hsplit, List.rdropWhile, List.reverse_append,
    List.dropWhile_append_of_pos hempty, ← List.rdropWhile,
    List.rdropWhile_concat_neg _ _ _ (by simp [hdrawn]), List.length_append,
    List.length_take_of_le (Nat.le_of_lt hn), List.length_singleton]

theorem getElem?_shown (layers : Array Layer) {i : Nat} (hi : i < (shown layers).size) :
    (shown layers)[i]? = layers[i]? := by
  rw [← Array.length_toList, toList_shown] at hi
  rw [← Array.getElem?_toList, ← Array.getElem?_toList, toList_shown]
  obtain ⟨rest, hrest⟩ := List.rdropWhile_prefix Layer.isEmpty layers.toList
  rw [← hrest, List.getElem?_append_left]
  rwa [hrest]

end Frame

/-! ### Layers of a run -/

namespace History

theorem along_eq_nil {α : Type} {contribute : History → Operation → List α} {ops : List Operation}
    (h : ∀ o ∈ ops, ∀ past, contribute past o = []) (past : History) :
    along contribute past ops = [] := by
  induction ops generalizing past with
  | nil => rfl
  | cons o ops ih =>
    obtain ⟨ho, hops⟩ := List.forall_mem_cons.mp h
    rw [along, ho, ih hops, List.append_nil]

theorem footprint_of_last {before after : History} {o : Operation}
    (hafter : ∀ p ∈ after, p.drawn = []) :
    footprint (before ++ o :: after) = footprint before ++ drawnSites before o := by
  have hrest := along_eq_nil (fun p hp past => drawnSites_of_drawn_eq_nil (h := past) (hafter p hp))
  rw [footprint, along_append, List.nil_append, along, hrest, List.append_nil]
  rfl

end History

namespace Walk

variable {style : DetectorStyle} {ops : List Operation} {w : Walk}

theorem drawn_eq_nil_iff_of_foldlM {s : Walk} (h : ops.foldlM (step style) s = .ok w) {o : Operation}
    (ho : o ∈ ops) : o.drawn = [] ↔ o.draws = false := by
  obtain ⟨before, after, rfl⟩ := List.append_of_mem ho
  obtain ⟨b, a, -, hstep, -⟩ := foldlM_split h
  have hdraws := (stepped_of_step hstep).draws_iff
  rw [← not_iff_not, ← Ne, ← hdraws, Bool.not_eq_false]

/-- As many layers of a run are shown as its history has frames. -/
theorem size_shown_of_foldlM (h : ops.foldlM (step style) start = .ok w) :
    (Frame.shown w.layers).size = History.frameCount ops := by
  have hcovers := covers_of_foldlM h
  have hdrawn {o : Operation} (ho : o ∈ ops) := drawn_eq_nil_iff_of_foldlM h ho
  rcases History.exists_last_draws ops with hnone | ⟨before, o, after, rfl, ho, hafter⟩
  · rw [History.frameCount_of_none hnone]
    have hfootprint : History.footprint ops = [] := History.along_eq_nil
      (fun o ho past => History.drawnSites_of_drawn_eq_nil ((hdrawn ho).mpr (hnone o ho))) []
    apply Frame.size_shown_of_empty
    intro l hl
    obtain ⟨i, hi⟩ := Array.getElem?_of_mem hl
    rw [hcovers.isEmpty_iff hi, hfootprint]
    exact fun _ => List.not_mem_nil
  · rw [History.frameCount_of_last ho hafter]
    obtain ⟨b, a, hb, -, -⟩ := foldlM_split h
    have hfootprint : History.footprint (before ++ o :: after) = _ :=
      History.footprint_of_last fun p hp => (hdrawn (by simp [hp])).mpr (hafter p hp)
    obtain ⟨q, hq⟩ : ∃ q, q ∈ o.drawn := by
      apply List.exists_mem_of_ne_nil
      rw [Ne, hdrawn (by simp), ho]
      exact Bool.true_eq_false.mp
    have hsite : (⟨History.ticks before, (History.plane before).coords.position q⟩ : Site) ∈
        History.footprint (before ++ o :: after) := by
      rw [hfootprint]
      exact List.mem_append_right _ (History.mem_drawnSites.mpr ⟨rfl, q, hq, rfl⟩)
    obtain ⟨used, hused, -⟩ := (hcovers.footprint _ _).mp hsite
    obtain ⟨l, hl, rfl⟩ := Option.map_eq_some_iff.mp (Array.getElem?_map.symm.trans hused)
    apply Frame.size_shown_of_last hl
    · rw [← Bool.not_eq_true, hcovers.isEmpty_iff hl]
      exact fun hempty => hempty _ hsite
    · intro i l' hi hl'
      rw [hcovers.isEmpty_iff hl']
      intro p hp
      rw [hfootprint, List.mem_append] at hp
      rcases hp with hp | hp
      · exact absurd ((covers_of_foldlM hb).layer_le hp) (Nat.not_le_of_lt hi)
      · exact absurd (History.mem_drawnSites.mp hp).1 (Nat.ne_of_gt hi)

end Walk

/-! ### Renderings -/

theorem exists_walk_of_render {config : Config} {c : Circuit} {known : Option FaultMechanism}
    {search : Option FaultSearch} {r : Rendering} (h : render config c known search = .ok r) :
    ∃ style w, Walk.of style c = .ok w ∧
      r.diagram.frames = (Frame.ofWalk w (Overlay.resolve c known search).1.flips).1 := by
  unfold render at h
  cases hvalid : config.validate with
  | error e =>
    rw [hvalid] at h
    cases h
  | ok settled =>
    rw [hvalid] at h
    dsimp only at h
    cases hw : Walk.of (.of settled (Overlay.resolve c known search).1 c) c with
    | error e =>
      rw [hw] at h
      cases h
    | ok w =>
      rw [hw] at h
      cases h
      exact ⟨_, w, hw, rfl⟩

theorem length_frames_of_render {config : Config} {c : Circuit} {known : Option FaultMechanism}
    {search : Option FaultSearch} {r : Rendering} (h : render config c known search = .ok r) :
    r.diagram.frames.length = History.frameCount c.executed := by
  obtain ⟨style, w, hw, hframes⟩ := exists_walk_of_render h
  rw [Walk.of, Circuit.run_eq_foldlM] at hw
  rw [hframes, Frame.length_frames_ofWalk, Walk.size_shown_of_foldlM hw]

/-- **The last operation that draws decides how many frames there are.** There is none if nothing
draws, else there is one more than ticks run before the last operation that does. Whatever else runs,
and under whatever settings and faults, circuits that tick and draw alike have equally many. -/
theorem frames_counted {config : Config} {c : Circuit} {known : Option FaultMechanism}
    {search : Option FaultSearch} {r : Rendering} (h : render config c known search = .ok r) :
    ((∀ o ∈ c.executed, o.draws = false) → r.diagram.frames.length = 0) ∧
      (∀ before o after, c.executed = before ++ o :: after → o.draws = true →
        (∀ p ∈ after, p.draws = false) → r.diagram.frames.length = History.ticks before + 1) ∧
      ∀ (config' : Config) (c' : Circuit) (known' : Option FaultMechanism)
        (search' : Option FaultSearch) (r' : Rendering),
        render config' c' known' search' = .ok r' →
        c'.executed.filter (fun o => o.isTick || o.draws) =
          c.executed.filter (fun o => o.isTick || o.draws) →
        r'.diagram.frames.length = r.diagram.frames.length := by
  have hlength := length_frames_of_render h
  refine ⟨?_, ?_, ?_⟩
  · intro hnone
    rw [hlength, History.frameCount_of_none hnone]
  · intro before o after hsplit ho hafter
    rw [hlength, hsplit, History.frameCount_of_last ho hafter]
  · intro config' c' known' search' r' h' hsame
    rw [hlength, length_frames_of_render h', ← History.frameCount_filter c'.executed, hsame,
      History.frameCount_filter]

/-- A tick, a label, a note, a correction and a flip behind the last gate, and an empty layer between
the first two. -/
theorem frames_counted_behind_gap :
    let tick : Operation := ⟨"TICK", .tick, [], []⟩
    let measure : Operation := ⟨"M", .single .m, [.qubit 0 false], []⟩
    let product : Operation := ⟨"MPP", .pauliProduct, [.pauli .x 1 false], []⟩
    let detector : Operation := ⟨"DETECTOR", .detector, [.record (-1)], []⟩
    let noise : Operation := ⟨"X_ERROR", .noise .xError, [.qubit 1 false], [0.5]⟩
    let correct : Operation := ⟨"CX", .pair .cx, [.record (-1), .qubit 2 false], []⟩
    let c : Circuit := .op measure (.repeated 2 (.op tick .nil) (.op product
      (.op tick (.op detector (.op noise (.op correct .nil))))))
    let m : FaultMechanism := ⟨[⟨[⟨3, [⟨5, .x⟩]⟩], [.detector 0]⟩]⟩
    ∃ r, render .default c (some m) none = .ok r ∧ r.diagram.frames.length = 3 := by
  intro tick measure product detector noise correct c m
  obtain ⟨r, hr⟩ : ∃ r, render .default c (some m) none = .ok r :=
    exists_eq_ok_of_isSome (by decide +kernel)
  obtain ⟨-, hlast, -⟩ := frames_counted hr
  refine ⟨r, hr, hlast [measure, tick, tick] product [tick, detector, noise, correct] rfl rfl ?_⟩
  decide

end CircuitFrames
