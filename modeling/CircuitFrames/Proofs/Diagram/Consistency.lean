import CircuitFrames.Proofs.Diagram.DetectorLabels
import CircuitFrames.Proofs.Diagram.Snapshots

/-!
# What the parts of a walk say of each other

A walk keeps its measurements in four places: the timeline has their owners, the layers their
positions, the used positions have these among others, and the stacks count their labels. What these
places say agrees whatever the operations (`Consistent`). For the owners, the positions and the keys of
the stacks this is so by themselves (`Books.Orderly`); that the stacks count what is drawn takes the
history of the run, which tells for every label the measurement and the place in its stack
(`Walk.Stacks`).
-/

namespace CircuitFrames

open Svg (Primitive)

/-! ### Books in order -/

namespace Books

/-- Books in which the owners go up, every kept position is that of a measurement of its own layer, and
only measurements are labelled. -/
structure Orderly (b : Books) : Prop where
  opened : 0 < b.places.size
  ascending : b.owners.toList.Pairwise (· ≤ ·)
  bounded : ∀ n ∈ b.owners.toList, n < b.places.size
  owned : ∀ (n : Nat) (kept : Std.ExtTreeMap Nat Point) (i : Nat) (p : Point),
    b.places[n]? = some kept → kept[i]? = some p → b.owners[i]? = some n
  labelled : ∀ i ∈ b.labels, i < b.owners.size

namespace Orderly

variable {b : Books}

theorem start : Walk.start.books.Orderly where
  opened := by simp
  ascending := .nil
  bounded := nofun
  owned := by
    intro n kept i p hkept hp
    obtain ⟨l, hl, rfl⟩ := Option.map_eq_some_iff.mp (Array.getElem?_map.symm.trans hkept)
    obtain rfl := Walk.eq_empty_of_mem_layers_start (Array.mem_of_getElem? hl)
    exact absurd hp (by simp [Layer.empty, Layer.under])
  labelled i hi := absurd hi Std.ExtTreeMap.not_mem_empty

theorem turn (h : b.Orderly) : b.turn.Orderly where
  opened := by simp [Books.turn]
  ascending := h.ascending
  bounded n hn := by
    show n < (b.places.push ∅).size
    rw [Array.size_push]
    exact Nat.lt_succ_of_lt (h.bounded n hn)
  owned := by
    intro n kept i p hkept hp
    replace hkept : (b.places.push ∅)[n]? = some kept := hkept
    rw [Array.getElem?_push] at hkept
    split at hkept
    · cases hkept
      simp at hp
    · exact h.owned n kept i p hkept hp
  labelled := h.labelled

theorem record (h : b.Orderly) (q : Qubit) : (b.record q).Orderly where
  opened := by
    show 0 < (b.places.modify _ _).size
    rw [Array.size_modify]
    exact h.opened
  ascending := by
    show (b.owners.push _).toList.Pairwise _
    rw [Array.toList_push, List.pairwise_append]
    refine ⟨h.ascending, List.pairwise_singleton _ _, fun n hn m hm => ?_⟩
    rw [List.mem_singleton.mp hm]
    exact Nat.le_sub_one_of_lt (h.bounded n hn)
  bounded := by
    intro n hn
    show n < (b.places.modify _ _).size
    rw [Array.size_modify]
    replace hn : n ∈ (b.owners.push (b.places.size - 1)).toList := hn
    rw [Array.toList_push, List.mem_append, List.mem_singleton] at hn
    rcases hn with hn | rfl
    · exact h.bounded n hn
    · exact Nat.sub_lt h.opened Nat.one_pos
  owned := by
    intro n kept i p hkept hp
    show (b.owners.push (b.places.size - 1))[i]? = some n
    replace hkept : (b.places.modify (b.places.size - 1)
      (·.insert b.owners.size (b.coords.position q)))[n]? = some kept := hkept
    have hold {kept : Std.ExtTreeMap Nat Point} (hkept : b.places[n]? = some kept)
        (hp : kept[i]? = some p) : (b.owners.push (b.places.size - 1))[i]? = some n := by
      have howner := h.owned n kept i p hkept hp
      have hlt := (Array.getElem?_eq_some_iff.mp howner).1
      rw [Array.getElem?_push, if_neg (Nat.ne_of_lt hlt), howner]
    rw [Array.getElem?_modify] at hkept
    split at hkept
    next hn =>
      obtain ⟨before, hbefore, rfl⟩ := Option.map_eq_some_iff.mp hkept
      rw [Std.ExtTreeMap.getElem?_insert] at hp
      split at hp
      next hi =>
        rw [Nat.compare_eq_eq] at hi
        rw [Array.getElem?_push, if_pos hi.symm, hn]
      next => exact hold hbefore hp
    next => exact hold hkept hp
  labelled i hi := by
    show i < (b.owners.push _).size
    rw [Array.size_push]
    exact Nat.lt_succ_of_lt (h.labelled i hi)

theorem foldl_record (h : b.Orderly) (qs : List Qubit) : (qs.foldl Books.record b).Orderly := by
  induction qs generalizing b with
  | nil => exact h
  | cons q qs ih => exact ih (h.record q)

theorem mark (h : b.Orderly) {i : Nat} (hi : i < b.owners.size) : (b.mark i).Orderly where
  opened := h.opened
  ascending := h.ascending
  bounded := h.bounded
  owned := h.owned
  labelled j hj := by
    rcases Std.ExtTreeMap.mem_insert.mp hj with hij | hj
    · rw [Nat.compare_eq_eq] at hij
      exact hij ▸ hi
    · exact h.labelled j hj

theorem foldl_mark (h : b.Orderly) {is : List Nat} (his : ∀ i ∈ is, i < b.owners.size) :
    (is.foldl Books.mark b).Orderly := by
  induction is generalizing b with
  | nil => exact h
  | cons i is ih =>
    obtain ⟨hi, his⟩ := List.forall_mem_cons.mp his
    exact ih (h.mark hi) his

end Orderly

end Books

theorem Timeline.lt_length_of_resolve? {t : Timeline} {offset : Int} {i : Nat}
    (h : t.resolve? offset = some i) : i < t.length := by
  unfold resolve? at h
  dsimp only at h
  split at h
  · cases h
    omega
  · cases h

namespace Walk

variable {style : DetectorStyle} {w w' : Walk} {o : Operation} {past ops : History}

theorem Stepped.orderly (hstep : Stepped style w o w') (h : w.books.Orderly) : w'.books.Orderly := by
  cases hstep with
  | declared =>
    rw [books_declare]
    exact { h with }
  | shifted => exact { h with }
  | singles =>
    rw [books_drawSingles]
    exact h.foldl_record _
  | @pairs gate actions =>
    rw [books_foldl w fun w action => w.books_drawPair gate action]
    exact h
  | products =>
    rw [books_foldl_drawProduct]
    exact h.foldl_record _
  | ticked =>
    rw [books_advance]
    exact h.turn
  | @marking ks =>
    rw [markedUpTo, books_foldl_markLookback, books_opened, timeline_opened]
    refine h.foldl_mark fun i hi => ?_
    obtain ⟨k, -, hk⟩ := List.mem_filterMap.mp hi
    exact Timeline.lt_length_of_resolve? hk
  | @noted channel =>
    rw [books_foldl w fun w q => w.books_noteNoise channel q]
    exact h

theorem orderly_of_foldlM (h : ops.foldlM (step style) start = .ok w) : w.books.Orderly :=
  foldlM_relates (R := fun s t => s.books.Orderly → t.books.Orderly) (fun _ => id)
    (fun _ _ _ h h' => h' ∘ h) (fun _ _ _ hstep => (stepped_of_step hstep).orderly) h .start

end Walk

/-! ### Labels and their slots -/

/-- Each of the labelled measurements with the number of those before it that are the same. -/
def slotsFrom (below : List Nat) : List Nat → List (Nat × Nat)
  | [] => []
  | i :: is => (i, below.count i) :: slotsFrom (below ++ [i]) is

theorem slotsFrom_append (below is js : List Nat) :
    slotsFrom below (is ++ js) = slotsFrom below is ++ slotsFrom (below ++ is) js := by
  induction is generalizing below with
  | nil => rw [List.nil_append, slotsFrom, List.nil_append, List.append_nil]
  | cons i is ih =>
    rw [List.cons_append, slotsFrom, ih, slotsFrom, List.cons_append, List.append_assoc]
    rfl

theorem map_fst_slotsFrom (below is : List Nat) : (slotsFrom below is).map Prod.fst = is := by
  induction is generalizing below with
  | nil => rfl
  | cons i is ih => rw [slotsFrom, List.map_cons, ih]

/-- The labels that come to a layer, each with its measurement and its slot, in order. -/
def labelsOn (sites : List Site) (marked : List Nat) (n : Nat) : List (Nat × Nat) :=
  (slotsFrom [] marked).filter fun m => sites[m.1]?.map Site.layer == some n

section

variable {sites more : List Site} {marked : List Nat} {n i : Nat}

theorem labelsOn_snoc {site : Site} (hsite : sites[i]? = some site) (marked : List Nat) (n : Nat) :
    labelsOn sites (marked ++ [i]) n = labelsOn sites marked n ++
      if site.layer = n then [(i, marked.count i)] else [] := by
  have hslot : slotsFrom marked [i] = [(i, marked.count i)] := rfl
  rw [labelsOn, slotsFrom_append, List.nil_append, List.filter_append, hslot, List.filter_singleton,
    labelsOn, hsite, Option.map_some]
  by_cases h : site.layer = n
  · rw [if_pos h, h, beq_self_eq_true]
    rfl
  · rw [if_neg h, beq_eq_false_iff_ne.mpr (mt Option.some.inj h)]
    rfl

theorem labelsOn_append (h : ∀ i ∈ marked, i < sites.length) :
    labelsOn (sites ++ more) marked n = labelsOn sites marked n := by
  refine List.filter_congr fun m hm => ?_
  have hi : m.1 ∈ marked := by
    rw [← map_fst_slotsFrom [] marked]
    exact List.mem_map_of_mem hm
  rw [List.getElem?_append_left (h m.1 hi)]

theorem countP_labelsOn (h : sites[i]?.map Site.layer = some n) :
    (labelsOn sites marked n).countP (·.1 == i) = marked.count i := by
  have hboth : (slotsFrom [] marked).countP (fun m => m.1 == i &&
      sites[m.1]?.map Site.layer == some n) = (slotsFrom [] marked).countP (·.1 == i) := by
    refine List.countP_congr fun m _ => ?_
    by_cases hm : m.1 = i
    · simp [hm, h]
    · simp [hm]
  rw [labelsOn, List.countP_filter, hboth, List.count]
  conv_rhs => rw [← map_fst_slotsFrom [] marked]
  rw [List.countP_map]
  rfl

theorem labelsOn_eq_nil (h : ∀ s ∈ sites, s.layer ≠ n) : labelsOn sites marked n = [] := by
  refine List.filter_eq_nil_iff.mpr fun m _ hm => ?_
  obtain ⟨s, hs, hlayer⟩ := Option.map_eq_some_iff.mp (beq_iff_eq.mp hm)
  exact h s (List.mem_of_getElem? hs) hlayer

end

/-- The text of the label in a slot at a measurement, whatever it looks like. -/
def LabelOf (sites : List Site) (text : Primitive) (m : Nat × Nat) : Prop :=
  ∃ look site, sites[m.1]? = some site ∧ text = Walk.labelText look site m.2

theorem LabelOf.append {sites more : List Site} {text : Primitive} {m : Nat × Nat}
    (h : LabelOf sites text m) : LabelOf (sites ++ more) text m := by
  obtain ⟨look, site, hsite, htext⟩ := h
  have hlt := (List.getElem?_eq_some_iff.mp hsite).1
  exact ⟨look, site, by rw [List.getElem?_append_left hlt, hsite], htext⟩

namespace Walk

/-- The texts of labels on each layer, the open layer last. -/
def texts (w : Walk) : Array (List Primitive) :=
  w.layers.map fun l => l.primitives.toList.filter isLabel

/-- The texts of labels on every layer are those of some labels, in order. -/
def Stacks (sites : List Site) (marked : List Nat) (w : Walk) : Prop :=
  ∀ (n : Nat) (texts : List Primitive), w.texts[n]? = some texts →
    List.Forall₂ (LabelOf sites) texts (labelsOn sites marked n)

variable {style : DetectorStyle} {w w' : Walk} {o : Operation} {past ops : History}
  {sites more : List Site} {marked : List Nat}

theorem filter_isLabel_label (look : LabelStyle) (site : Site) (slot : Nat) :
    (label look site.position slot).filter isLabel = [labelText look site slot] := by
  unfold label
  cases look.highlighted <;> rfl

theorem texts_of_layers_modify {f : Layer → Layer} {i : Nat}
    (h : w'.layers = w.layers.modify i f) (hf : ∀ l, (f l).primitives = l.primitives) :
    w'.texts = w.texts := by
  have hkept (l : Layer) :
      (f l).primitives.toList.filter isLabel = id (l.primitives.toList.filter isLabel) := by
    rw [hf]
    rfl
  rw [texts, h, map_modify id hkept, modify_id, texts]

theorem texts_advance (w : Walk) : w.advance.texts = w.texts.push [] := by
  show (w.layers.push w.current.successor).map _ = _
  rw [Array.map_push]
  rfl

theorem Stepped.texts_eq (h : Stepped style w o w') (htick : o.kind ≠ .tick)
    (hmark : o.isMarking = false) : w'.texts = w.texts := by
  have hgate (hgate : o.isGate = true) : w'.texts = w.texts := by
    have hinks := h.inks hgate
    have hglyphs : (o.glyphs w.current.coords).filter isLabel = [] :=
      List.filter_eq_nil_iff.mpr fun p hp => by simp [(Operation.unmarked_glyphs _ o p hp).sized]
    unfold texts layers
    rw [hinks.closed, Array.map_push, Array.map_push, hinks.current.primitives, List.filter_append,
      hglyphs, List.append_nil]
  cases h with
  | singles kind | pairs kind | products kind => exact hgate (by rw [Operation.isGate, kind])
  | declared => exact texts_of_layers_modify (w.layers_onCurrent _) fun l => by rw [foldl_declare]
  | shifted => rfl
  | ticked kind => exact absurd kind htick
  | marking kind =>
    rw [Operation.isMarking_iff.mpr kind] at hmark
    cases hmark
  | @noted channel qs =>
    exact foldl_relates (R := fun s t : Walk => t.texts = s.texts) (f := noteNoise channel)
      (fun _ => rfl) (fun _ _ _ h h' => h'.trans h) (fun _ _ => rfl) qs w

namespace Stacks

theorem start : Walk.start.Stacks [] [] := by
  intro n texts h
  obtain ⟨l, hl, rfl⟩ := Option.map_eq_some_iff.mp (Array.getElem?_map.symm.trans h)
  obtain rfl := eq_empty_of_mem_layers_start (Array.mem_of_getElem? hl)
  exact .nil

theorem of_texts_eq (h : w.Stacks sites marked) (htexts : w'.texts = w.texts) :
    w'.Stacks sites marked := by
  unfold Stacks
  rw [htexts]
  exact h

theorem append (h : w.Stacks sites marked) (hmarked : ∀ i ∈ marked, i < sites.length) :
    w.Stacks (sites ++ more) marked := by
  intro n texts htexts
  rw [labelsOn_append hmarked]
  exact (h n texts htexts).imp fun _ _ => .append

theorem push (h : w.Stacks sites marked) (hsites : ∀ s ∈ sites, s.layer < w.texts.size)
    (htexts : w'.texts = w.texts.push []) : w'.Stacks sites marked := by
  intro n texts hn
  rw [htexts, Array.getElem?_push] at hn
  split at hn
  next hnew =>
    cases hn
    rw [labelsOn_eq_nil fun s hs => by have := hsites s hs; omega]
    exact .nil
  next => exact h n texts hn

theorem mark (h : w.Stacks sites marked) {i : Nat} {site : Site} (hsite : sites[i]? = some site)
    {look : LabelStyle} (hlayers : w'.layers = w.layers.modify site.layer
      (·.draw (label look site.position (marked.count i)))) : w'.Stacks sites (marked ++ [i]) := by
  intro n texts hn
  obtain ⟨l', hl', rfl⟩ := Option.map_eq_some_iff.mp (Array.getElem?_map.symm.trans hn)
  rw [hlayers, Array.getElem?_modify] at hl'
  rw [labelsOn_snoc hsite]
  have hkept {l : Layer} (hl : w.layers[n]? = some l) :
      List.Forall₂ (LabelOf sites) (l.primitives.toList.filter isLabel) (labelsOn sites marked n) :=
    h n _ (by rw [Walk.texts, Array.getElem?_map, hl]; rfl)
  split at hl'
  next hlayer =>
    obtain ⟨l, hl, rfl⟩ := Option.map_eq_some_iff.mp hl'
    rw [if_pos hlayer, Frame.toList_draw, List.filter_append, filter_isLabel_label]
    exact List.rel_append (hkept hl) (.cons ⟨look, site, hsite, rfl⟩ .nil)
  next hlayer =>
    rw [if_neg hlayer, List.append_nil]
    exact hkept hl'

end Stacks

theorem Follows.stacks_markedUpTo (style : DetectorStyle) (h : Follows past w)
    (hstacks : w.Stacks past.sites past.marked)
    (ho : o.kind = .detector ∨ o.kind = .observableInclude) {ks : List Int32}
    (hks : o.lookbacks = .ok ks) (n : Nat) : (markedUpTo style w o (ks.take n)).Stacks past.sites
      (past.marked ++ (ks.take n).filterMap past.reached?) := by
  induction n with
  | zero =>
    rw [List.take_zero, List.filterMap_nil, List.append_nil]
    refine hstacks.of_texts_eq ?_
    rw [texts, markedUpTo, List.foldl_nil, layers_opened, texts]
  | succ n ih =>
    rw [List.take_add_one]
    cases hk : ks[n]? with
    | none =>
      rw [Option.toList_none, List.append_nil]
      exact ih
    | some k =>
      -- The first `n` lookbacks are those of an operation of its own, so what is known behind a whole
      -- operation tells the stack on which the next label comes.
      have hmeasure : (o.upTo n).kind.producesMeasurements = false := producesMeasurements_of_labels ho
      have hfollows : Follows (past ++ [o.upTo n]) (markedUpTo style w o (ks.take n)) :=
        h.marking (o := o.upTo n) ho (lookbacks_upTo hks n)
      have hmarked : History.marked (past ++ [o.upTo n]) =
          past.marked ++ (ks.take n).filterMap past.reached? := by
        rw [History.marked_snoc,
          History.marksOf_of_lookbacks past (o := o.upTo n) ho (lookbacks_upTo hks n)]
      have hsites : History.sites (past ++ [o.upTo n]) = past.sites := by
        rw [History.sites_snoc, History.sitesOf_of_not_producing past hmeasure, List.append_nil]
      rw [Option.toList_some, markedUpTo_append, List.foldl_cons, List.foldl_nil,
        List.filterMap_append]
      cases hj : past.reached? k with
      | none =>
        have hnone := (reached?_upTo past ho n k).trans hj
        rw [List.filterMap_cons_none hj, List.filterMap_nil, List.append_nil]
        refine ih.of_texts_eq ?_
        rw [texts, (hfollows.markLookback_of_none _ _ hnone).1, texts]
      | some j =>
        have hreached := (reached?_upTo past ho n k).trans hj
        obtain ⟨site, -, hsite, -, hlayers⟩ :=
          hfollows.layers_markLookback (lookOf style w o) o.name hreached
        rw [hsites] at hsite
        rw [hmarked] at hlayers
        rw [List.filterMap_cons_some hj, List.filterMap_nil, ← List.append_assoc]
        exact ih.mark hsite hlayers

theorem Follows.layer_lt (h : Follows past w) {site : Site} (hsite : site ∈ past.sites) :
    site.layer < w.layers.size := by
  obtain ⟨i, hi⟩ := List.getElem?_of_mem hsite
  obtain ⟨kept, hkept, -⟩ := h.accounts.places i site hi
  have hlt := (Array.getElem?_eq_some_iff.mp hkept).1
  rwa [size_places, ← size_layers] at hlt

/-- Whatever a step does, the labels on every layer are those of its history. -/
theorem Follows.stacks_step (h : Follows past w) (hstacks : w.Stacks past.sites past.marked)
    (hstep : Walk.step style w o = .ok w') :
    w'.Stacks (History.sites (past ++ [o])) (History.marked (past ++ [o])) := by
  rw [History.sites_snoc, History.marked_snoc]
  cases hmark : o.isMarking with
  | true =>
    have ho := Operation.isMarking_iff.mp hmark
    obtain ⟨ks, hks, rfl⟩ := eq_markedUpTo_of_step ho hstep
    have hall := h.stacks_markedUpTo style hstacks ho hks ks.length
    rw [List.take_length, ← History.marksOf_of_lookbacks past ho hks] at hall
    rwa [History.sitesOf_of_not_producing past (producesMeasurements_of_labels ho), List.append_nil]
  | false =>
    have hmarked : ∀ i ∈ past.marked, i < past.sites.length := fun i hi => by
      rw [h.length]
      exact past.lt_recorded_of_mem_marked hi
    rw [History.marksOf_of_not_marking past hmark, List.append_nil]
    refine Stacks.append ?_ hmarked
    by_cases htick : o.kind = .tick
    · rw [advance_of_step hstep htick]
      refine hstacks.push (fun site hsite => ?_) w.texts_advance
      rw [texts, Array.size_map]
      exact h.layer_lt hsite
    · exact hstacks.of_texts_eq ((stepped_of_step hstep).texts_eq htick hmark)

/-- **The labels on every layer are those of the run**, in order. -/
theorem stacks_of_foldlM (h : ops.foldlM (step style) start = .ok w) :
    w.Stacks ops.sites ops.marked :=
  (foldlM_keeps (P := fun (past : History) w => Follows past w ∧ w.Stacks past.sites past.marked)
    (fun _ _ _ _ hs hstep => ⟨hs.1.step (stepped_of_step hstep), hs.1.stacks_step hs.2 hstep⟩)
    ⟨follows_start, .start⟩ h).2

/-! ### The whole walk -/

/-- What the parts of a walk say of each other behind the operations of a run. -/
structure Consistent (ops : History) (w : Walk) : Prop where
  /-- The owners of the measurements go up. -/
  ascending : w.timeline.owners.toList.Pairwise (· ≤ ·)
  /-- No owner is ahead of the open layer. -/
  bounded : ∀ n ∈ w.timeline.owners.toList, n ≤ w.currentIndex
  /-- Every measurement has a position on the layer that owns it, and the position is used there. -/
  recorded : ∀ i < w.timeline.length, ∃ n l p, w.timeline.layerOf? i = some n ∧
    w.layers[n]? = some l ∧ l.measurementPosition? i = some p ∧ p ∈ l.used
  /-- No other layer has a position of it, and none has one of what has not been measured. -/
  owned : ∀ (n : Nat) (l : Layer) (i : Nat) (p : Point), w.layers[n]? = some l →
    l.measurementPosition? i = some p → i < w.timeline.length ∧ w.timeline.layerOf? i = some n
  /-- Nothing is drawn on a layer exactly if no position is used. -/
  drawn : ∀ l ∈ w.layers, l.primitives = #[] ↔ l.used = ∅
  /-- As many layers are closed as ticks were executed. -/
  closed : w.closed.size = ops.countP Operation.isTick
  /-- Only what has been measured has a stack. -/
  keys : ∀ i ∈ w.labels, i < w.timeline.length
  /-- The texts of labels on a layer are those of the labels that came to it, in order. -/
  labels : ∀ (n : Nat) (l : Layer), w.layers[n]? = some l →
    List.Forall₂ (LabelOf ops.sites) (l.primitives.toList.filter isLabel)
      (labelsOn ops.sites ops.marked n)
  /-- The stack of a measurement counts those among them that are at this measurement. -/
  counted : ∀ (i n : Nat), w.timeline.layerOf? i = some n →
    w.labels.getD i 0 = (labelsOn ops.sites ops.marked n).countP (·.1 == i)

/-- **The parts of a walk agree**, whatever operations it has gone through. -/
theorem consistent_of_foldlM (h : ops.foldlM (step style) start = .ok w) : Consistent ops w := by
  have hcovers := covers_of_foldlM h
  have hfollows := hcovers.follows
  have horderly := orderly_of_foldlM h
  constructor
  case ascending => exact horderly.ascending
  case bounded =>
    intro n hn
    have hlt := horderly.bounded n hn
    rw [size_places] at hlt
    exact Nat.le_of_lt_succ hlt
  case recorded =>
    intro i hi
    rw [hfollows.timeline_length] at hi
    obtain ⟨site, l, -, howner, hl, hp⟩ := hfollows.exists_site hi
    refine ⟨site.layer, l, site.position, howner, hl, hp, ?_⟩
    exact (hcovers.sound l (Array.mem_of_getElem? hl)).measured i site.position hp
  case owned =>
    intro n l i p hl hp
    have howner := horderly.owned n l.measurements i p
      (by rw [books, Array.getElem?_map, hl, Option.map_some]) hp
    exact ⟨(Array.getElem?_eq_some_iff.mp howner).1, howner⟩
  case drawn =>
    intro l hl
    rw [← Array.isEmpty_iff, Std.ExtTreeSet.eq_empty_iff_forall_not_mem]
    exact (hcovers.sound l hl).empty
  case closed => exact hfollows.currentIndex
  case keys => exact horderly.labelled
  case labels =>
    intro n l hl
    exact stacks_of_foldlM h n _ (by rw [texts, Array.getElem?_map, hl, Option.map_some])
  case counted =>
    intro i n howner
    rw [countP_labelsOn]
    · exact hfollows.accounts.labels i
    · rw [← List.getElem?_map, ← hfollows.accounts.owners, Array.getElem?_toList]
      exact howner

/-- A detector that looks twice to the measurement of its layer and once behind the tick. -/
theorem consistent_behind_tick :
    let measure : Operation := ⟨"M", .single .m, [.qubit 7 false], []⟩
    let tick : Operation := ⟨"TICK", .tick, [], []⟩
    let detector : Operation :=
      ⟨"DETECTOR", .detector, [.record (-1), .record (-2), .record (-1)], []⟩
    let ops : History := [measure, tick, measure, detector]
    ∃ w, ops.foldlM (step ⟨fun _ => false, ∅⟩) start = .ok w ∧ Consistent ops w ∧
      w.timeline.owners = #[0, 1] ∧ w.labels.getD 0 0 = 1 ∧ w.labels.getD 1 0 = 2 := by
  intro measure tick detector ops
  obtain ⟨w, hw, howners, hfirst, hsecond⟩ : ∃ w,
      ops.foldlM (step ⟨fun _ => false, ∅⟩) start = .ok w ∧ w.timeline.owners = #[0, 1] ∧
      w.labels.getD 0 0 = 1 ∧ w.labels.getD 1 0 = 2 := ⟨_, rfl, rfl, rfl, rfl⟩
  exact ⟨w, hw, consistent_of_foldlM hw, howners, hfirst, hsecond⟩

end Walk

end CircuitFrames
