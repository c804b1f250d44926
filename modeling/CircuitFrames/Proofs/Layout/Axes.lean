import CircuitFrames.Diagram.Layer
import CircuitFrames.Proofs.Layout.Boxes

/-!
# Axes

The points of a set stand in a list by the ranks of their coordinates, and ranks follow the order of
doubles. So the columns and the rows of a set are the coordinates of its points, each once and in
ascending order (`columns_spec`, `rows_spec`), if they are numbers and no zero among them has a sign.
-/

namespace CircuitFrames

open Numeral (Addable onLine)

/-! ### Places -/

theorem AxisPlace.onLine_le_of_rank_le {a b : AxisPlace} (ha : a.value.isNaN = false)
    (hb : b.value.isNaN = false) (h : a.rank ≤ b.rank) : onLine a.value ≤ onLine b.value := by
  cases a with
  | lost => cases ha
  | known x =>
    cases b with
    | lost => cases hb
    | known y => exact Numeral.onLine_le_of_rank_le ha hb (UInt64.le_iff_toNat_le.mp h)

theorem Point.rank_column_le {p q : Point} (h : order p q = .lt) : p.column.rank ≤ q.column.rank := by
  unfold order compareLex compareOn at h
  rw [Ordering.then_eq_lt] at h
  rcases h with hcolumn | ⟨hcolumn, -⟩
  · exact UInt64.le_of_lt (Std.compare_eq_lt.mp hcolumn)
  · have hequal : p.column.rank = q.column.rank := Std.LawfulEqCmp.compare_eq_iff_eq.mp hcolumn
    exact hequal ▸ UInt64.le_refl _

/-! ### Lists in ascending order -/

namespace Layer

theorem eq_of_ascending {xs ys : List Float} (hys : ∀ y ∈ ys, y.isNaN = false)
    (h : xs.Pairwise (· < ·)) (h' : ys.Pairwise (· < ·)) (hmem : ∀ x, x ∈ xs ↔ x ∈ ys) : xs = ys := by
  have hline {zs : List Float} (hzs : ∀ z ∈ zs, z ∈ ys) (hascending : zs.Pairwise (· < ·)) :
      zs.Pairwise fun x y => onLine x < onLine y := by
    refine hascending.imp_of_mem fun {x y} hx hy hlt => ?_
    exact (Numeral.lt_iff_onLine (hys x (hzs x hx)) (hys y (hzs y hy))).mp hlt
  have : Std.Antisymm fun x y : Float => onLine x < onLine y :=
    ⟨fun _ _ hlt hgt => absurd hgt hlt.not_gt⟩
  have : Std.Irrefl fun x y : Float => onLine x < onLine y := ⟨fun _ => lt_irrefl _⟩
  exact (hline (fun x => (hmem x).mp) h).eq_of_mem_iff (hline (fun _ hy => hy) h') hmem

theorem dedup_spec {xs : List Float} (hxs : ∀ x ∈ xs, Addable x)
    (hordered : xs.Pairwise fun x y => onLine x ≤ onLine y) :
    (dedup xs).Pairwise (fun x y => onLine x < onLine y) ∧ ∀ x, x ∈ dedup xs ↔ x ∈ xs := by
  induction xs with
  | nil => exact ⟨.nil, fun _ => Iff.rfl⟩
  | cons x xs ih =>
    obtain ⟨hx, hxs⟩ := List.forall_mem_cons.mp hxs
    obtain ⟨hleast, hordered⟩ := List.pairwise_cons.mp hordered
    obtain ⟨hascending, hmem⟩ := ih hxs hordered
    unfold dedup
    cases hrest : dedup xs with
    | nil =>
      rw [hrest] at hmem
      obtain rfl : xs = [] := List.eq_nil_iff_forall_not_mem.mpr fun y hy => by
        simpa using (hmem y).mpr hy
      exact ⟨List.pairwise_singleton _ _, fun _ => Iff.rfl⟩
    | cons y ys =>
      rw [hrest] at hascending hmem
      have hy : y ∈ xs := (hmem y).mp List.mem_cons_self
      dsimp only
      split
      next hequal =>
        have hplace := (Numeral.beq_iff_onLine hx.number (hxs y hy).number).mp hequal
        obtain rfl := Numeral.eq_of_onLine_eq hx (hxs y hy) hplace
        refine ⟨hascending, fun z => ?_⟩
        rw [hmem, List.mem_cons, or_iff_right_of_imp]
        rintro rfl
        exact hy
      next hdifferent =>
        have hbefore : onLine x < onLine y :=
          lt_of_le_of_ne (hleast y hy)
            (mt (Numeral.beq_iff_onLine hx.number (hxs y hy).number).mpr hdifferent)
        refine ⟨List.pairwise_cons.mpr ⟨fun z hz => ?_, hascending⟩, fun z => ?_⟩
        · rcases List.mem_cons.mp hz with rfl | hz
          · exact hbefore
          · exact hbefore.trans ((List.pairwise_cons.mp hascending).1 z hz)
        · rw [List.mem_cons, hmem, List.mem_cons]

theorem dedup_map_spec {α : Type} {f : α → AxisPlace} {as : List α}
    (has : ∀ a ∈ as, Addable (f a).value)
    (hordered : as.Pairwise fun a b => (f a).rank ≤ (f b).rank) :
    (dedup (as.map fun a => (f a).value)).Pairwise (· < ·) ∧
      ∀ x, x ∈ dedup (as.map fun a => (f a).value) ↔ ∃ a ∈ as, (f a).value = x := by
  have hline : (as.map fun a => (f a).value).Pairwise fun x y => onLine x ≤ onLine y := by
    rw [List.pairwise_map]
    refine hordered.imp_of_mem fun ha hb hle => ?_
    exact AxisPlace.onLine_le_of_rank_le (has _ ha).number (has _ hb).number hle
  have hnumbers : ∀ x ∈ as.map fun a => (f a).value, Addable x := List.forall_mem_map.mpr has
  obtain ⟨hascending, hmem⟩ := dedup_spec hnumbers hline
  refine ⟨hascending.imp_of_mem fun hx hy hlt => ?_, fun x => ?_⟩
  · rw [hmem] at hx hy
    exact (Numeral.lt_iff_onLine (hnumbers _ hx).number (hnumbers _ hy).number).mpr hlt
  · rw [hmem, List.mem_map]

/-- The coordinates of all points are numbers, and no zero among them has a sign. -/
def Placed (s : PointSet) : Prop :=
  ∀ p ∈ s, Addable p.x ∧ Addable p.y

variable {s : PointSet}

/-- **The columns of a set of points**: each first coordinate once, in ascending order. -/
theorem columns_spec (hs : Placed s) :
    (columns s).Pairwise (· < ·) ∧ ∀ x, x ∈ columns s ↔ ∃ p ∈ s, p.x = x := by
  have hnumbers : ∀ p ∈ s.toList, Addable p.column.value := by
    intro p hp
    exact (hs p (Std.ExtTreeSet.mem_toList.mp hp)).1
  have hordered : s.toList.Pairwise fun p q => p.column.rank ≤ q.column.rank := by
    have hpoints : s.toList.Pairwise fun p q => Point.order p q = .lt := s.ordered_toList
    exact hpoints.imp Point.rank_column_le
  obtain ⟨hascending, hmem⟩ := dedup_map_spec hnumbers hordered
  refine ⟨hascending, fun x => ?_⟩
  simp only [← Std.ExtTreeSet.mem_toList]
  exact hmem x

/-- The places of the rows, by rank. -/
def rankedRows (s : PointSet) : List AxisPlace :=
  (s.toList.map (·.row)).mergeSort fun a b => a.rank ≤ b.rank

theorem mem_rankedRows {a : AxisPlace} : a ∈ rankedRows s ↔ ∃ p ∈ s, p.row = a := by
  rw [rankedRows, List.mem_mergeSort, List.mem_map]
  simp only [Std.ExtTreeSet.mem_toList]

theorem pairwise_rankedRows (s : PointSet) : (rankedRows s).Pairwise fun a b => a.rank ≤ b.rank := by
  have htrans (a b c : AxisPlace) (hab : decide (a.rank ≤ b.rank) = true)
      (hbc : decide (b.rank ≤ c.rank) = true) : decide (a.rank ≤ c.rank) = true :=
    decide_eq_true (UInt64.le_trans (of_decide_eq_true hab) (of_decide_eq_true hbc))
  have htotal (a b : AxisPlace) : (decide (a.rank ≤ b.rank) || decide (b.rank ≤ a.rank)) = true := by
    simpa using UInt64.le_total a.rank b.rank
  exact (List.pairwise_mergeSort htrans htotal _).imp of_decide_eq_true

/-- **The rows of a set of points**: each second coordinate once, in ascending order. -/
theorem rows_spec (hs : Placed s) :
    (rows s).Pairwise (· < ·) ∧ ∀ y, y ∈ rows s ↔ ∃ p ∈ s, p.y = y := by
  have hnumbers : ∀ a ∈ rankedRows s, Addable a.value := by
    intro a ha
    obtain ⟨p, hp, rfl⟩ := mem_rankedRows.mp ha
    exact (hs p hp).2
  obtain ⟨hascending, hmem⟩ := dedup_map_spec (f := id) hnumbers (pairwise_rankedRows s)
  refine ⟨hascending, fun y => (hmem y).trans ?_⟩
  simp only [mem_rankedRows, id_eq]
  constructor
  · rintro ⟨a, ⟨p, hp, rfl⟩, rfl⟩
    exact ⟨p, hp, rfl⟩
  · rintro ⟨p, hp, rfl⟩
    exact ⟨p.row, ⟨p, hp, rfl⟩, rfl⟩

end Layer

end CircuitFrames
