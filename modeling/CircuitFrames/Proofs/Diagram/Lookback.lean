import CircuitFrames.Proofs.Diagram.Books

/-!
# Where lookbacks resolve

The books of a walk account for the history of its run (`Follows`): whatever the operations so far,
every measurement has its owner, and the layer that owns it has its position. So a lookback that
reaches a measurement always ends in a label on the layer and at the position at which the
measurement was recorded, no matter what was declared, ticked or labelled since, and the label
stays (`lookbacks_resolve`).
-/

namespace CircuitFrames

open Svg (Primitive)

/-! ### Books that account for a history -/

/-- Books that account for a number of ticks, a plane, measurements and labels. -/
structure Accounts (b : Books) (ticks : Nat) (plane : Plane) (sites : List Site)
    (marked : List Nat) : Prop where
  size : b.places.size = ticks + 1
  shift : b.shift = plane.shift
  coords : b.coords = plane.coords
  owners : b.owners.toList = sites.map Site.layer
  places : ∀ (i : Nat) (s : Site), sites[i]? = some s →
    ∃ kept, b.places[s.layer]? = some kept ∧ kept[i]? = some s.position
  labels : ∀ i, b.labels.getD i 0 = marked.count i

namespace Accounts

variable {b : Books} {ticks : Nat} {plane : Plane} {sites : List Site} {marked : List Nat}

theorem start : Accounts Walk.start.books 0 .blank [] [] where
  size := Walk.size_places _
  shift := rfl
  coords := rfl
  owners := rfl
  places := by
    intro i s hs
    cases hs
  labels := by
    intro i
    exact Std.ExtTreeMap.getD_empty

theorem turn (h : Accounts b ticks plane sites marked) :
    Accounts b.turn (ticks + 1) plane sites marked where
  size := by
    show (b.places.push ∅).size = _
    rw [Array.size_push, h.size]
  shift := h.shift
  coords := h.coords
  owners := h.owners
  places := by
    intro i s hs
    obtain ⟨kept, hkept, hi⟩ := h.places i s hs
    refine ⟨kept, ?_, hi⟩
    show (b.places.push ∅)[s.layer]? = _
    have hlt : s.layer < b.places.size := (Array.getElem?_eq_some_iff.mp hkept).1
    rw [Array.getElem?_push, if_neg (Nat.ne_of_lt hlt), hkept]
  labels := h.labels

theorem record (h : Accounts b ticks plane sites marked) (q : Qubit) :
    Accounts (b.record q) ticks plane (sites ++ [⟨ticks, plane.coords.position q⟩]) marked := by
  have hcount : b.owners.size = sites.length := by
    rw [← Array.length_toList, h.owners, List.length_map]
  have hlast : b.places.size - 1 = ticks := by
    rw [h.size]
    rfl
  refine { shift := h.shift, coords := h.coords, labels := h.labels, size := ?_, owners := ?_,
           places := ?_ }
  · show (b.places.modify _ _).size = _
    rw [Array.size_modify, h.size]
  · show (b.owners.push _).toList = _
    rw [Array.toList_push, h.owners, hlast, List.map_append]
    rfl
  · intro i s hs
    show ∃ kept, (b.places.modify (b.places.size - 1) _)[s.layer]? = some kept ∧ _
    rw [Array.getElem?_modify, hlast, hcount, h.coords]
    by_cases hi : i < sites.length
    · -- an earlier measurement keeps its position: the new one has another number
      rw [List.getElem?_append_left hi] at hs
      obtain ⟨kept, hkept, hpos⟩ := h.places i s hs
      rw [hkept]
      split
      · refine ⟨_, rfl, ?_⟩
        rw [Std.ExtTreeMap.getElem?_insert, if_neg, hpos]
        rw [Nat.compare_eq_eq]
        omega
      · exact ⟨kept, rfl, hpos⟩
    · have hlt := (List.getElem?_eq_some_iff.mp hs).1
      rw [List.length_append, List.length_singleton] at hlt
      obtain rfl : i = sites.length := by omega
      rw [List.getElem?_append_right (Nat.le_refl _), Nat.sub_self] at hs
      cases hs
      have hopen : ticks < b.places.size := by
        rw [h.size]
        exact Nat.lt_succ_self _
      rw [if_pos rfl, Array.getElem?_eq_getElem hopen]
      exact ⟨_, rfl, Std.ExtTreeMap.getElem?_insert_self⟩

theorem foldl_record (h : Accounts b ticks plane sites marked) (qs : List Qubit) :
    Accounts (qs.foldl Books.record b) ticks plane
      (sites ++ qs.map fun q => ⟨ticks, plane.coords.position q⟩) marked := by
  induction qs generalizing b sites with
  | nil => simpa using h
  | cons q qs ih =>
    have := ih (h.record q)
    rwa [List.append_assoc] at this

theorem mark (h : Accounts b ticks plane sites marked) (i : Nat) :
    Accounts (b.mark i) ticks plane sites (marked ++ [i]) := by
  refine { h with labels := ?_ }
  intro j
  show (b.labels.insert i (b.labels.getD i 0 + 1)).getD j 0 = _
  rw [Std.ExtTreeMap.getD_insert, List.count_append, h.labels, h.labels]
  by_cases hj : i = j
  · subst hj
    rw [if_pos (Nat.compare_eq_eq.mpr rfl), List.count_singleton_self]
  · rw [if_neg (mt Nat.compare_eq_eq.mp hj), List.count_singleton, if_neg (by simpa using hj),
      Nat.add_zero]

theorem foldl_mark (h : Accounts b ticks plane sites marked) (is : List Nat) :
    Accounts (is.foldl Books.mark b) ticks plane sites (marked ++ is) := by
  induction is generalizing b marked with
  | nil => simpa using h
  | cons i is ih =>
    have := ih (h.mark i)
    rwa [List.append_assoc] at this

end Accounts

/-! ### Following a run -/

namespace Walk

/-- A walk whose books account for the history of its run. -/
structure Follows (past : History) (w : Walk) : Prop where
  accounts : Accounts w.books past.ticks past.plane past.sites past.marked
  length : past.sites.length = past.recorded

variable {past : History} {w : Walk}

theorem follows_start : Follows [] start :=
  ⟨.start, rfl⟩

theorem Follows.timeline_length (h : Follows past w) : w.timeline.length = past.recorded := by
  rw [← h.length, Timeline.length, ← Array.length_toList]
  exact (congrArg List.length h.accounts.owners).trans (List.length_map ..)

theorem Follows.resolve? (h : Follows past w) (k : Int32) :
    w.timeline.resolve? k.toInt = past.reached? k := by
  rw [Timeline.resolve?, h.timeline_length]
  rfl

theorem books_foldl_markLookback (look : LabelStyle) (name : String) (ks : List Int32) (w : Walk) :
    (ks.foldl (markLookback look name) w).books =
      (ks.filterMap fun k => w.timeline.resolve? k.toInt).foldl Books.mark w.books := by
  induction ks generalizing w with
  | nil => rfl
  | cons k ks ih =>
    have hstep := w.books_markLookback look name k
    have htimeline : (markLookback look name w k).timeline = w.timeline := by
      have : (markLookback look name w k).books.owners = w.books.owners := by
        rw [hstep]
        split <;> rfl
      exact congrArg Timeline.mk this
    rw [List.foldl_cons, ih, htimeline, hstep]
    rw [List.filterMap_cons]
    cases w.timeline.resolve? k.toInt with
    | none => rfl
    | some i => rfl

theorem books_opened (o : Operation) : (opened w o).books = w.books := by
  unfold opened
  split <;> rfl

theorem layers_opened (o : Operation) : (opened w o).layers = w.layers := by
  unfold opened
  split <;> rfl

theorem events_opened (o : Operation) : (opened w o).events = w.events := by
  unfold opened
  split <;> rfl

theorem timeline_opened (o : Operation) : (opened w o).timeline = w.timeline := by
  unfold opened
  split <;> rfl

theorem Follows.snoc (h : Follows past w) {w' : Walk} {o : Operation}
    (hlength : o.measured.length = o.numMeasurements)
    (hbooks : Accounts w'.books (past.ticks + if o.isTick then 1 else 0) (past.plane.after o)
      (past.sites ++ past.sitesOf o) (past.marked ++ past.marksOf o)) :
    Follows (past ++ [o]) w' := by
  constructor
  · rwa [History.ticks_snoc, History.plane_snoc, History.sites_snoc, History.marked_snoc]
  · rw [History.sites_snoc, History.recorded_snoc, List.length_append, History.length_sitesOf,
      h.length, hlength]

theorem Follows.snoc_of_not_producing (h : Follows past w) {w' : Walk} {o : Operation}
    (hmeasure : o.kind.producesMeasurements = false)
    (hbooks : Accounts w'.books (past.ticks + if o.isTick then 1 else 0) (past.plane.after o)
      past.sites (past.marked ++ past.marksOf o)) : Follows (past ++ [o]) w' := by
  refine h.snoc (Operation.length_measured_of_not_producing hmeasure) ?_
  rwa [History.sitesOf_of_not_producing past hmeasure, List.append_nil]

theorem Follows.quiet (h : Follows past w) {w' : Walk} {o : Operation}
    (hmeasure : o.kind.producesMeasurements = false) (htick : o.isTick = false)
    (hmark : o.isMarking = false)
    (hbooks : Accounts w'.books past.ticks (past.plane.after o) past.sites past.marked) :
    Follows (past ++ [o]) w' := by
  refine h.snoc_of_not_producing hmeasure ?_
  rwa [htick, History.marksOf_of_not_marking past hmark, List.append_nil]

theorem Follows.measuring (h : Follows past w) {w' : Walk} {o : Operation}
    (hkind : o.kind = .pauliProduct ∨ ∃ gate, o.kind = .single gate)
    (hlength : o.measured.length = o.numMeasurements)
    (hbooks : w'.books = o.measured.foldl Books.record w.books) : Follows (past ++ [o]) w' := by
  have htick : o.isTick = false := by
    unfold Operation.isTick
    rcases hkind with hkind | ⟨gate, hkind⟩ <;> rw [hkind] <;> rfl
  have hmark : o.isMarking = false := by
    unfold Operation.isMarking
    rcases hkind with hkind | ⟨gate, hkind⟩ <;> rw [hkind] <;> rfl
  have hplane : past.plane.after o = past.plane := by
    unfold Plane.after
    rcases hkind with hkind | ⟨gate, hkind⟩ <;> rw [hkind]
  refine h.snoc hlength ?_
  rw [htick, hplane, History.marksOf_of_not_marking past hmark, List.append_nil, hbooks]
  exact h.accounts.foldl_record o.measured

theorem producesMeasurements_of_labels {k : Kind} (hk : k = .detector ∨ k = .observableInclude) :
    k.producesMeasurements = false := by
  rcases hk with rfl | rfl <;> rfl

theorem Follows.marking (h : Follows past w) {style : DetectorStyle} {o : Operation}
    (hkind : o.kind = .detector ∨ o.kind = .observableInclude) {ks : List Int32}
    (hks : o.lookbacks = .ok ks) : Follows (past ++ [o]) (markedUpTo style w o ks) := by
  have hmeasure := producesMeasurements_of_labels hkind
  have htick : o.isTick = false := by
    unfold Operation.isTick
    rcases hkind with hkind | hkind <;> rw [hkind] <;> rfl
  have hplane : past.plane.after o = past.plane := by
    unfold Plane.after
    rcases hkind with hkind | hkind <;> rw [hkind]
  refine h.snoc_of_not_producing hmeasure ?_
  rw [past.marksOf_of_lookbacks hkind hks, htick, hplane, markedUpTo, books_foldl_markLookback, books_opened, timeline_opened,
    funext fun k => h.resolve? k]
  exact h.accounts.foldl_mark _

/-- Whatever a step does, the books of the walk account for it. -/
theorem Follows.step (h : Follows past w) {style : DetectorStyle} {o : Operation} {w' : Walk}
    (hstep : Stepped style w o w') : Follows (past ++ [o]) w' := by
  have hquiet {k : Kind} (hkind : o.kind = k) (hmeasure : k.producesMeasurements = false)
      (htick : (k == .tick) = false) (hmark : (k == .detector || k == .observableInclude) = false)
      (hbooks : Accounts w'.books past.ticks (past.plane.after o) past.sites past.marked) :
      Follows (past ++ [o]) w' :=
    h.quiet (by rw [hkind, hmeasure]) (by rw [Operation.isTick, hkind, htick])
      (by rw [Operation.isMarking, hkind, hmark]) hbooks
  cases hstep with
  | @declared g qs kind place read =>
    refine hquiet kind rfl rfl rfl ?_
    have hg : past.plane.shift.moved? o.args = some g := by
      rw [← h.accounts.shift]
      exact place
    have hplane : past.plane.after o =
        { past.plane with coords := qs.foldl (·.declare · g) past.plane.coords } := by
      unfold Plane.after
      rw [kind]
      dsimp only
      rw [hg, Operation.filterMap_of_map_eq_some (o.qubits_eq_ok.mp read)]
    rw [hplane, books_declare]
    refine { h.accounts with coords := ?_ }
    show qs.foldl (·.declare · g) w.books.coords = _
    rw [h.accounts.coords]
  | shifted kind =>
    refine hquiet kind rfl rfl rfl ?_
    have hplane : past.plane.after o =
        { past.plane with shift := past.plane.shift.accumulate o.args } := by
      unfold Plane.after
      rw [kind]
    rw [hplane]
    refine { h.accounts with shift := ?_ }
    show w.books.shift.accumulate o.args = _
    rw [h.accounts.shift]
  | @singles gate qs kind read =>
    refine h.measuring (.inr ⟨gate, kind⟩) (Operation.length_measured_single kind read) ?_
    rw [books_drawSingles, Operation.measured_single kind read]
  | @pairs gate actions kind read =>
    refine hquiet kind rfl rfl rfl ?_
    rw [books_foldl w fun w action => w.books_drawPair gate action, Plane.after, kind]
    exact h.accounts
  | @products ps kind read =>
    refine h.measuring (.inl kind) (Operation.length_measured_products kind read) ?_
    rw [books_foldl_drawProduct, Operation.measured_products kind read]
  | ticked kind =>
    have hmark : o.isMarking = false := by
      rw [Operation.isMarking, kind]
      rfl
    refine h.snoc_of_not_producing (by rw [kind]; rfl) ?_
    rw [books_advance, History.marksOf_of_not_marking past hmark, List.append_nil, Operation.isTick,
      Plane.after, kind]
    exact h.accounts.turn
  | marking kind read => exact h.marking kind read
  | @noted channel qs kind read =>
    refine hquiet kind rfl rfl rfl ?_
    rw [books_foldl w fun w q => w.books_noteNoise channel q, Plane.after, kind]
    exact h.accounts

theorem follows_of_foldlM {style : DetectorStyle} {ops : List Operation}
    (h : ops.foldlM (Walk.step style) start = .ok w) : Follows ops w :=
  foldlM_keeps (P := Follows) (fun _ _ _ _ h hstep => h.step (stepped_of_step hstep)) follows_start h

/-! ### One lookback -/

/-- The text of a label at a site, below `slot` others. -/
def labelText (look : LabelStyle) (site : Site) (slot : Nat) : Primitive :=
  .text (site.position.x + 16 + 1) (site.position.y - 16 + Float.ofNat slot * 15) look.content
    look.color 16 .start .hanging

/-- From `s` to `t` a walk gains the label of a site and nothing else: one text, perhaps with a box
behind it, on the layer of the site. It is still there in the end, in `w`. -/
structure Labelled (look : LabelStyle) (site : Site) (slot : Nat) (s t w : Walk) : Prop where
  events : t.events = s.events
  drawn : ∃ backing : List Primitive, (∀ p ∈ backing, p.content? = none) ∧
    t.layers = s.layers.modify site.layer (·.draw (backing ++ [labelText look site slot])) ∧
    ∃ before after more, s.layers[site.layer]? = some before ∧ w.layers[site.layer]? = some after ∧
      after.primitives.toList =
        before.primitives.toList ++ backing ++ [labelText look site slot] ++ more

theorem label_eq (look : LabelStyle) (site : Site) (slot : Nat) :
    ∃ backing : List Primitive, (∀ p ∈ backing, p.content? = none) ∧
      label look site.position slot = backing ++ [labelText look site slot] := by
  unfold label
  cases look.highlighted with
  | true =>
    refine ⟨[_], ?_, rfl⟩
    intro p hp
    rw [List.mem_singleton] at hp
    rw [hp]
    rfl
  | false => exact ⟨[], nofun, rfl⟩

theorem Follows.exists_site (h : Follows past w) {j : Nat} (hj : j < past.recorded) :
    ∃ site l, past.sites[j]? = some site ∧ w.timeline.layerOf? j = some site.layer ∧
      w.layers[site.layer]? = some l ∧ l.measurementPosition? j = some site.position := by
  rw [← h.length] at hj
  have hsite : past.sites[j]? = some past.sites[j] := List.getElem?_eq_getElem hj
  obtain ⟨kept, hkept, hpos⟩ := h.accounts.places j _ hsite
  have howner : w.timeline.layerOf? j = some past.sites[j].layer := by
    show w.books.owners[j]? = _
    rw [← Array.getElem?_toList, h.accounts.owners, List.getElem?_map, hsite]
    rfl
  obtain ⟨l, hl, rfl⟩ : ∃ l, w.layers[past.sites[j].layer]? = some l ∧ l.measurements = kept := by
    have hkept' : (w.layers.map Layer.measurements)[past.sites[j].layer]? = some kept := hkept
    rw [Array.getElem?_map, Option.map_eq_some_iff] at hkept'
    exact hkept'
  exact ⟨past.sites[j], l, hsite, howner, hl, hpos⟩

theorem Follows.layers_markLookback (h : Follows past w) (look : LabelStyle) (name : String)
    {k : Int32} {j : Nat} (hk : past.reached? k = some j) :
    ∃ site l, past.sites[j]? = some site ∧ w.layers[site.layer]? = some l ∧
      (markLookback look name w k).layers = w.layers.modify site.layer
        (·.draw (label look site.position (past.marked.count j))) := by
  obtain ⟨site, l, hsite, howner, hl, hpos⟩ := h.exists_site (past.lt_recorded_of_reached? hk)
  refine ⟨site, l, hsite, hl, ?_⟩
  have hslot : w.labels.getD j 0 = past.marked.count j := h.accounts.labels j
  unfold markLookback
  rw [h.resolve?, hk]
  dsimp only
  rw [howner]
  dsimp only
  rw [layers_onLayer, hslot]
  refine modify_congr hl ?_
  rw [hpos]

theorem Follows.events_markLookback (h : Follows past w) (look : LabelStyle) (name : String)
    {k : Int32} {j : Nat} (hk : past.reached? k = some j) :
    (markLookback look name w k).events = w.events := by
  unfold markLookback
  rw [h.resolve?, hk]
  dsimp only
  split
  · rfl
  · unfold onLayer
    split <;> rfl

theorem Follows.markLookback_of_none (h : Follows past w) (look : LabelStyle) (name : String)
    {k : Int32} (hk : past.reached? k = none) :
    (markLookback look name w k).layers = w.layers ∧
      (markLookback look name w k).events =
        w.events.push (.danglingLookback name k.toInt past.recorded) := by
  unfold markLookback
  rw [h.resolve?, hk]
  dsimp only
  rw [h.timeline_length]
  exact ⟨rfl, rfl⟩

theorem Follows.labelled (h : Follows past w) (look : LabelStyle) (name : String) {k : Int32}
    {j : Nat} (hk : past.reached? k = some j) {w' : Walk}
    (hlater : Extends (markLookback look name w k) w') :
    ∃ site, past.sites[j]? = some site ∧
      Labelled look site (past.marked.count j) w (markLookback look name w k) w' := by
  obtain ⟨site, l, hsite, hl, hlayers⟩ := h.layers_markLookback look name hk
  obtain ⟨backing, hbacking, hlabel⟩ := label_eq look site (past.marked.count j)
  rw [hlabel] at hlayers
  refine ⟨site, hsite, h.events_markLookback look name hk, backing, hbacking, hlayers, ?_⟩
  have hdrawn : (markLookback look name w k).layers[site.layer]? =
      some (l.draw (backing ++ [labelText look site (past.marked.count j)])) := by
    rw [hlayers, Array.getElem?_modify, if_pos rfl, hl]
    rfl
  obtain ⟨l', more, hl', hmore⟩ := hlater _ _ hdrawn
  refine ⟨l, l', more.toList, hl, hl', ?_⟩
  rw [hmore, Layer.draw]
  simp

/-! ### Whole runs -/

theorem markedUpTo_succ {style : DetectorStyle} {o : Operation} {ks : List Int32}
    (hks : o.lookbacks = .ok ks) {i : Nat} {k : Int32} (hi : o.targets[i]? = some (.record k)) :
    markedUpTo style w o (ks.take (i + 1)) =
      markLookback (lookOf style w o) o.name (markedUpTo style w o (ks.take i)) k := by
  have hk : ks[i]? = some k := by
    have hread := congrArg (·[i]?) (o.lookbacks_eq_ok.mp hks)
    simp only [List.getElem?_map, hi, Option.map_some] at hread
    cases h : ks[i]? with
    | none =>
      rw [h] at hread
      cases hread
    | some k' =>
      rw [h] at hread
      cases hread
      rfl
  rw [List.take_add_one, hk, markedUpTo_append]
  rfl

theorem extends_markedUpTo_take {style : DetectorStyle} {o : Operation} (ks : List Int32) (n : Nat) :
    Extends (markedUpTo style w o (ks.take n)) (markedUpTo style w o ks) := by
  have hsplit : markedUpTo style w o ks =
      (ks.drop n).foldl (markLookback (lookOf style w o) o.name)
        (markedUpTo style w o (ks.take n)) := by
    rw [← markedUpTo_append, List.take_append_drop]
  rw [hsplit]
  exact .foldl (fun w k => w.extends_markLookback _ _ k) _

theorem eq_markedUpTo_of_step {style : DetectorStyle} {o : Operation} {w' : Walk}
    (ho : o.kind = .detector ∨ o.kind = .observableInclude) (h : Walk.step style w o = .ok w') :
    ∃ ks, o.lookbacks = .ok ks ∧ w' = markedUpTo style w o ks := by
  cases stepped_of_step h with
  | marking kind read => exact ⟨_, read, rfl⟩
  | declared kind | shifted kind | singles kind | pairs kind | products kind | ticked kind
  | noted kind =>
    rcases ho with ho | ho <;> rw [ho] at kind <;> cases kind

/-- **Lookbacks resolve at the operation that refers to them.** Wherever a run executes a detector
or an observable, its targets are gone through one by one. A negative lookback that reaches a
measurement adds one text, on the layer and at the position at which the history of the run recorded
that measurement, below the labels that the history put there before; it is still there at the end
of the run. Any other lookback adds nothing and is reported once. -/
theorem lookbacks_resolve {style : DetectorStyle} {c : Circuit} (hw : Walk.of style c = .ok w)
    {pre post : History} {o : Operation} (hc : c.executed = pre ++ o :: post)
    (ho : o.kind = .detector ∨ o.kind = .observableInclude) :
    ∃ before after opened look,
      pre.foldlM (Walk.step style) start = .ok before ∧ Walk.step style before o = .ok after ∧
      post.foldlM (Walk.step style) after = .ok w ∧
      Walk.step style before (o.upTo 0) = .ok opened ∧ opened.layers = before.layers ∧
      opened.events = before.events ∧
      ∀ (i : Nat) (k : Int32), o.targets[i]? = some (.record k) →
        ∃ s t, Walk.step style before (o.upTo i) = .ok s ∧
          Walk.step style before (o.upTo (i + 1)) = .ok t ∧
          (k.toInt < 0 ∧ 0 ≤ pre.recorded + k.toInt →
            ∃ site, pre.sites[(pre.recorded + k.toInt).toNat]? = some site ∧
              Labelled look site
                ((pre ++ [o.upTo i]).marked.count (pre.recorded + k.toInt).toNat) s t w) ∧
          (¬(k.toInt < 0 ∧ 0 ≤ pre.recorded + k.toInt) →
            t.layers = s.layers ∧
              t.events = s.events.push (.danglingLookback o.name k.toInt pre.recorded)) := by
  rw [Walk.of, Circuit.run_eq_foldlM, hc] at hw
  obtain ⟨before, after, hpre, hstep, hpost⟩ := foldlM_split hw
  obtain ⟨ks, hks, rfl⟩ := eq_markedUpTo_of_step ho hstep
  refine ⟨before, _, markedUpTo style before o [], lookOf style before o, hpre, hstep, hpost,
    step_upTo ho hks hstep 0, layers_opened o, events_opened o, ?_⟩
  intro i k hi
  have hs := step_upTo ho hks hstep i
  have ht := step_upTo ho hks hstep (i + 1)
  rw [markedUpTo_succ hks hi] at ht
  refine ⟨_, _, hs, ht, ?_⟩
  have hfollows := (follows_of_foldlM hpre).step (stepped_of_step hs)
  have hmeasure : (o.upTo i).kind.producesMeasurements = false := producesMeasurements_of_labels ho
  have hreached := History.reached?_snoc_of_not_producing pre hmeasure k
  constructor
  · intro hk
    have hj : pre.reached? k = some (pre.recorded + k.toInt).toNat := if_pos hk
    have hlater : Extends (markedUpTo style before o (ks.take (i + 1)))
        (markedUpTo style before o ks) := extends_markedUpTo_take ks (i + 1)
    rw [markedUpTo_succ hks hi] at hlater
    obtain ⟨site, hsite, hlabelled⟩ := hfollows.labelled (lookOf style before o) o.name
      (hreached.trans hj) (hlater.trans (extends_of_foldlM hpost))
    rw [History.sites_snoc, History.sitesOf_of_not_producing pre hmeasure, List.append_nil] at hsite
    exact ⟨site, hsite, hlabelled⟩
  · intro hk
    have hj : pre.reached? k = none := if_neg hk
    have := hfollows.markLookback_of_none (lookOf style before o) o.name (hreached.trans hj)
    rwa [History.recorded_snoc, Operation.numMeasurements, hmeasure] at this

/-- The label of a product that a repeated block measured in its second round, below another, is put
two layers back, though its qubit was placed anew since. -/
theorem lookbacks_resolve_behind_rounds :
    let place (x : Float) : Operation := ⟨"QUBIT_COORDS", .qubitCoords, [.qubit 7 false], [x, 3]⟩
    let product : Operation :=
      ⟨"MPP", .pauliProduct, [.pauli .x 7 false, .combiner, .pauli .z 8 false], []⟩
    let tick : Operation := ⟨"TICK", .tick, [], []⟩
    let detector : Operation :=
      ⟨"DETECTOR", .detector, [.record (-1), .record (-2), .record (-1), .record (-3)], []⟩
    let c : Circuit :=
      .op (place 2) (.repeated 2 (.op product (.op tick .nil))
        (.op (place 9) (.op detector (.op tick .nil))))
    let pre : History := [place 2, product, tick, product, tick, place 9]
    ∃ w, Walk.of ⟨fun _ => false, ∅⟩ c = .ok w ∧ c.executed = pre ++ detector :: [tick] ∧
      detector.kind = .detector ∧
      ∃ look site l, pre.sites[1]? = some site ∧ site.layer = 1 ∧ w.layers[1]? = some l ∧
        labelText look site 1 ∈ l.primitives.toList := by
  intro place product tick detector c pre
  have hsites : pre.sites.map Site.layer = [0, 1] := by
    have hproduct : product.measured = [7] := by
      show Operation.leaders _ = _
      rw [Operation.leaders_pauli, Operation.leaders_combiner, List.drop_one, List.tail_cons,
        Operation.leaders_nil]
    simp only [pre, History.sites, History.along, History.sitesOf, hproduct]
    rfl
  have hc : c.executed = pre ++ detector :: [tick] := rfl
  obtain ⟨w, hw⟩ : ∃ w, Walk.of ⟨fun _ => false, ∅⟩ c = .ok w := ⟨_, rfl⟩
  obtain ⟨before, after, opened, look, -, -, -, -, -, -, hrecords⟩ :=
    lookbacks_resolve hw hc (.inl rfl)
  obtain ⟨s, t, -, -, hreached, -⟩ := hrecords 2 (-1) rfl
  obtain ⟨site, hsite, hlabelled⟩ := hreached (by decide)
  have hnumber : ((pre.recorded : Int) + (-1 : Int32).toInt).toNat = 1 := by decide
  rw [hnumber] at hsite hlabelled
  have hlayer : site.layer = 1 := by
    have hsecond : (pre.sites.map Site.layer)[1]? = some 1 := by
      rw [hsites]
      rfl
    rw [List.getElem?_map, hsite] at hsecond
    exact Option.some.inj hsecond
  obtain ⟨backing, -, -, b, l, more, -, hl, hprimitives⟩ := hlabelled.drawn
  refine ⟨w, hw, hc, rfl, look, site, l, hsite, hlayer, hlayer ▸ hl, ?_⟩
  rw [hprimitives]
  have hslot : (pre ++ [detector.upTo 2]).marked.count 1 = 1 := by decide
  rw [hslot]
  simp

end Walk

end CircuitFrames
