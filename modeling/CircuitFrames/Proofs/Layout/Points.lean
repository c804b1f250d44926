import CircuitFrames.Layout.Point
import CircuitFrames.Proofs.Numeral.Rank

/-!
# Points are told apart by their order

The order of doubles ranks different doubles differently, and leaves the first rank to coordinates
that are lost. So points that compare equal are equal, and a set of points is known by its members.
-/

namespace CircuitFrames

/-! ### Places -/

theorem AxisPlace.rank_injective : Function.Injective AxisPlace.rank := by
  intro a b h
  cases a with
  | known x =>
    cases b with
    | known y => exact congrArg known (Numeral.rank_injective h)
    | lost => exact absurd h (Numeral.rank_ne_zero x)
  | lost =>
    cases b with
    | known y => exact absurd h.symm (Numeral.rank_ne_zero y)
    | lost => rfl

/-! ### Points -/

theorem Point.eq_of_order_eq {p q : Point} (h : order p q = .eq) : p = q := by
  obtain ⟨hcolumn, hrow⟩ := compareLex_eq_eq.mp h
  have hcolumns := AxisPlace.rank_injective (Std.LawfulEqCmp.compare_eq_iff_eq.mp hcolumn)
  have hrows := AxisPlace.rank_injective (Std.LawfulEqCmp.compare_eq_iff_eq.mp hrow)
  cases p
  cases q
  exact congrArg₂ Point.mk hcolumns hrows

instance : Std.LawfulEqCmp Point.order where
  eq_of_compare := Point.eq_of_order_eq

theorem Point.eq_of_ordered {ps qs : List Point} (h : ps.Pairwise fun p q => order p q = .lt)
    (h' : qs.Pairwise fun p q => order p q = .lt) (hmem : ∀ p, p ∈ ps ↔ p ∈ qs) : ps = qs := by
  have : Std.Antisymm fun p q : Point => order p q = .lt :=
    ⟨fun _ _ hlt hgt => absurd hgt (Std.OrientedCmp.not_lt_of_lt hlt)⟩
  have : Std.Irrefl fun p q : Point => order p q = .lt :=
    ⟨fun _ hlt => Std.OrientedCmp.not_lt_of_lt hlt hlt⟩
  exact h.eq_of_mem_iff h' hmem

end CircuitFrames
