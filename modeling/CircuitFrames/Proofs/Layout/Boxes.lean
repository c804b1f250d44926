import CircuitFrames.Layout.Bounds
import CircuitFrames.Proofs.Layout.Points
import CircuitFrames.Proofs.Numeral.Order

/-!
# View boxes are tight

The box around a set of points whose coordinates are numbers has one pitch more on each side than the
rectangle whose sides all touch a point (`exists_tight_of_around?`), and is never the rectangle at the
origin that stands in where there is no point (`Tight.pad_ne_origin`).
-/

namespace CircuitFrames.Bounds

open Numeral (onLine lt_iff_onLine le_iff_onLine)

/-! ### Least and greatest of a list -/

/-- Going through a list of numbers with a choice that prefers what comes first in some order ends at
an element before which no other comes. -/
theorem foldl_choice {β : Type} [LinearOrder β] (key : Float → β) {choice : Float → Float → Float}
    (hchoice : ∀ a b, a.isNaN = false → b.isNaN = false →
      choice a b = if key b < key a then b else a)
    {xs : List Float} {x : Float} (hxs : ∀ y ∈ x :: xs, y.isNaN = false) :
    xs.foldl choice x ∈ x :: xs ∧ ∀ y ∈ x :: xs, key (xs.foldl choice x) ≤ key y := by
  induction xs generalizing x with
  | nil => simp
  | cons a xs ih =>
    simp only [List.forall_mem_cons] at hxs ih ⊢
    obtain ⟨hx, ha, hrest⟩ := hxs
    rw [List.foldl_cons, hchoice x a hx ha]
    split
    next hless =>
      obtain ⟨hmem, hleast, hrest⟩ := ih ⟨ha, hrest⟩
      exact ⟨List.mem_cons_of_mem _ hmem, hleast.trans hless.le, hleast, hrest⟩
    next hless =>
      obtain ⟨hmem, hleast, hrest⟩ := ih ⟨hx, hrest⟩
      refine ⟨?_, hleast, hleast.trans (not_lt.mp hless), hrest⟩
      simp only [List.mem_cons] at hmem ⊢
      exact hmem.imp_right .inr

theorem smaller_eq (a b : Float) (ha : a.isNaN = false) (hb : b.isNaN = false) :
    smaller a b = if onLine b < onLine a then b else a := by
  simp only [smaller, ha, Bool.false_eq_true, false_or, lt_iff_onLine hb ha]

theorem larger_eq (a b : Float) (ha : a.isNaN = false) (hb : b.isNaN = false) :
    larger a b =
      if OrderDual.toDual (onLine b) < OrderDual.toDual (onLine a) then b else a := by
  simp only [larger, ha, Bool.false_eq_true, false_or, lt_iff_onLine ha hb, OrderDual.toDual_lt_toDual]

variable {s : PointSet} {first : Point} {rest : List Point} {f : Point → Float}

theorem foldl_choice_of_toList {β : Type} [LinearOrder β] (key : Float → β)
    {choice : Float → Float → Float}
    (hchoice : ∀ a b, a.isNaN = false → b.isNaN = false →
      choice a b = if key b < key a then b else a)
    (hlist : s.toList = first :: rest) (hs : ∀ p ∈ s, (f p).isNaN = false) :
    (∃ p ∈ s, f p = ((first :: rest).map f).foldl choice (f first)) ∧
      ∀ p ∈ s, key (((first :: rest).map f).foldl choice (f first)) ≤ key (f p) := by
  simp only [← Std.ExtTreeSet.mem_toList, hlist] at hs ⊢
  have hnumbers : ∀ x ∈ f first :: (first :: rest).map f, x.isNaN = false :=
    List.forall_mem_cons.mpr ⟨hs first List.mem_cons_self, List.forall_mem_map.mpr hs⟩
  obtain ⟨hmem, hleast⟩ := foldl_choice key hchoice hnumbers
  refine ⟨?_, fun p hp => hleast _ (List.mem_cons_of_mem _ (List.mem_map_of_mem hp))⟩
  rcases List.mem_cons.mp hmem with h | h
  · exact ⟨first, List.mem_cons_self, h.symm⟩
  · exact List.mem_map.mp h

theorem least_of_toList (hlist : s.toList = first :: rest) (hs : ∀ p ∈ s, (f p).isNaN = false) :
    (∃ p ∈ s, f p = ((first :: rest).map f).foldl smaller (f first)) ∧
      ∀ p ∈ s, ((first :: rest).map f).foldl smaller (f first) ≤ f p := by
  obtain ⟨⟨q, hq, hleast⟩, hbelow⟩ := foldl_choice_of_toList onLine smaller_eq hlist hs
  refine ⟨⟨q, hq, hleast⟩, fun p hp => ?_⟩
  rw [le_iff_onLine (hleast ▸ hs q hq) (hs p hp)]
  exact hbelow p hp

theorem greatest_of_toList (hlist : s.toList = first :: rest)
    (hs : ∀ p ∈ s, (f p).isNaN = false) :
    (∃ p ∈ s, f p = ((first :: rest).map f).foldl larger (f first)) ∧
      ∀ p ∈ s, f p ≤ ((first :: rest).map f).foldl larger (f first) := by
  obtain ⟨⟨q, hq, hgreatest⟩, habove⟩ :=
    foldl_choice_of_toList (fun x => OrderDual.toDual (onLine x)) larger_eq hlist hs
  refine ⟨⟨q, hq, hgreatest⟩, fun p hp => ?_⟩
  rw [le_iff_onLine (hs p hp) (hgreatest ▸ hs q hq)]
  exact habove p hp

/-! ### Rectangles around points -/

/-- All coordinates of the points are numbers. -/
def Numbered (s : PointSet) : Prop :=
  ∀ p ∈ s, p.x.isNaN = false ∧ p.y.isNaN = false

/-- A rectangle around points with a point on each of its sides. -/
structure Tight (b : Bounds) (s : PointSet) : Prop where
  left : (∃ p ∈ s, p.x = b.minX) ∧ ∀ p ∈ s, b.minX ≤ p.x
  top : (∃ p ∈ s, p.y = b.minY) ∧ ∀ p ∈ s, b.minY ≤ p.y
  right : (∃ p ∈ s, p.x = b.maxX) ∧ ∀ p ∈ s, p.x ≤ b.maxX
  bottom : (∃ p ∈ s, p.y = b.maxY) ∧ ∀ p ∈ s, p.y ≤ b.maxY

theorem foldl_extend (points : List Point) (b : Bounds) :
    points.foldl extend b =
      ⟨(points.map (·.x)).foldl smaller b.minX, (points.map (·.y)).foldl smaller b.minY,
        (points.map (·.x)).foldl larger b.maxX, (points.map (·.y)).foldl larger b.maxY⟩ := by
  induction points generalizing b with
  | nil => rfl
  | cons p points ih =>
    rw [List.foldl_cons, ih]
    rfl

variable {b : Bounds}

theorem exists_tight_of_around? (hs : Numbered s) (h : around? s = some b) :
    ∃ tight : Bounds, tight.Tight s ∧ b = tight.pad := by
  unfold around? at h
  split at h
  · cases h
  next first rest hlist =>
    cases h
    rw [foldl_extend]
    exact ⟨_, ⟨least_of_toList hlist fun p hp => (hs p hp).1,
      least_of_toList hlist fun p hp => (hs p hp).2,
      greatest_of_toList hlist fun p hp => (hs p hp).1,
      greatest_of_toList hlist fun p hp => (hs p hp).2⟩, rfl⟩

theorem Tight.pad_ne_origin (h : Tight b s) (hs : Numbered s) : b.pad ≠ origin := by
  obtain ⟨⟨⟨p, hp, hleft⟩, hleast⟩, -, ⟨⟨q, hq, hright⟩, -⟩, -⟩ := h
  have hminX : b.minX.isNaN = false := hleft ▸ (hs p hp).1
  have hmaxX : b.maxX.isNaN = false := hright ▸ (hs q hq).1
  intro horigin
  have hpos := Numeral.pos_of_sub_pitch hminX (congrArg minX horigin)
  have hneg := Numeral.neg_of_add_pitch hmaxX (congrArg maxX horigin)
  have hle := hleast q hq
  rw [hright] at hle
  rw [lt_iff_onLine rfl hminX] at hpos
  rw [lt_iff_onLine hmaxX rfl] at hneg
  rw [le_iff_onLine hminX hmaxX] at hle
  exact absurd (hpos.trans_le hle) hneg.not_gt

end CircuitFrames.Bounds
