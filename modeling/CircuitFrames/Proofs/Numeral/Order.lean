import CircuitFrames.Proofs.Numeral.Plain
import CircuitFrames.Proofs.Numeral.Sum

/-!
# The order of doubles

Doubles that are numbers are compared by their signs, exponents and significands, so they are ordered
as their places on a line are (`lt_iff_onLine`, `le_iff_onLine`), with both zeros at one place. Of
their sums only this is needed: what goes below zero or above it by a whole pitch does not land on
zero (`pos_of_sub_pitch`, `neg_of_add_pitch`).
-/

namespace CircuitFrames.Numeral

open Float.Model (UnpackedFloat Format)
open Float.Model.UnpackedFloat

/-! ### Places on a line -/

/-- The place of a value on a line; what is no number has none of its own. -/
def linePlace : UnpackedFloat → ℤ ×ₗ ℤ ×ₗ ℤ
  | .infinity .negative => toLex (-2, toLex (0, 0))
  | .finite .negative m q _ => toLex (-1, toLex (-q, -m))
  | .zero _ => toLex (0, toLex (0, 0))
  | .finite .positive m q _ => toLex (1, toLex (q, m))
  | .infinity .positive => toLex (2, toLex (0, 0))
  | .notANumber => toLex (0, toLex (0, 0))

theorem compare_natCast (m n : ℕ) : compare (m : ℤ) (n : ℤ) = compare m n := by
  rcases Nat.lt_trichotomy m n with h | rfl | h
  · rw [Nat.compare_eq_lt.mpr h, Int.compare_eq_lt]
    omega
  · rw [Nat.compare_eq_eq.mpr rfl, Int.compare_eq_eq]
  · rw [Nat.compare_eq_gt.mpr h, Int.compare_eq_gt]
    omega

theorem compare_neg (a b : ℤ) : compare (-a) (-b) = (compare a b).swap := by
  rw [← Std.OrientedCmp.eq_swap]
  rcases Int.lt_trichotomy a b with h | rfl | h
  · rw [Int.compare_eq_gt.mpr h, Int.compare_eq_gt]
    omega
  · rw [Int.compare_eq_eq.mpr rfl, Int.compare_eq_eq.mpr rfl]
  · rw [Int.compare_eq_lt.mpr h, Int.compare_eq_lt]
    omega

theorem compare_linePlace {u v : UnpackedFloat} (hu : u ≠ .notANumber) (hv : v ≠ .notANumber) :
    u.compare v = some (compare (linePlace u) (linePlace v)) := by
  have hsigned (a b c d e : ℤ) :
      compare (α := ℤ ×ₗ ℤ ×ₗ ℤ) (toLex (a, toLex (b, c))) (toLex (a, toLex (d, e))) =
        (compare b d).then (compare c e) := by
    show (compare a a).then ((compare b d).then (compare c e)) = _
    rw [Int.compare_eq_eq.mpr rfl]
    rfl
  cases u with
  | notANumber => exact absurd rfl hu
  | infinity s =>
    cases v with
    | notANumber => exact absurd rfl hv
    | infinity t => cases s <;> cases t <;> rfl
    | zero t => cases s <;> rfl
    | finite t n p hn => cases s <;> cases t <;> rfl
  | zero s =>
    cases v with
    | notANumber => exact absurd rfl hv
    | infinity t => cases t <;> rfl
    | zero t => rfl
    | finite t n p hn => cases t <;> rfl
  | finite s m q hm =>
    cases v with
    | notANumber => exact absurd rfl hv
    | infinity t => cases s <;> cases t <;> rfl
    | zero t => cases s <;> rfl
    | finite t n p hn =>
      cases s with
      | positive =>
        cases t with
        | negative => rfl
        | positive =>
          show some ((compare q p).then (compare m n)) = _
          rw [← compare_natCast, ← hsigned 1]
          rfl
      | negative =>
        cases t with
        | positive => rfl
        | negative =>
          show some ((compare q p).then (compare m n)).swap = _
          rw [Ordering.swap_then, ← compare_natCast, ← compare_neg, ← compare_neg, ← hsigned (-1)]
          rfl

/-- The place of a double on a line. -/
def onLine (x : Float) : ℤ ×ₗ ℤ ×ₗ ℤ :=
  linePlace x.toModel.unpack

variable {x y : Float}

theorem lt_iff_onLine (hx : x.isNaN = false) (hy : y.isNaN = false) : x < y ↔ onLine x < onLine y := by
  rw [isNaN_eq_false_iff] at hx hy
  rw [lt_iff_unpack, compare_linePlace hx hy, Option.some_inj, compare_lt_iff_lt]
  rfl

theorem le_iff_onLine (hx : x.isNaN = false) (hy : y.isNaN = false) : x ≤ y ↔ onLine x ≤ onLine y := by
  rw [isNaN_eq_false_iff] at hx hy
  have hle : x ≤ y ↔ (x.toModel.unpack.compare y.toModel.unpack).any (·.isLE) = true :=
    decide_eq_true_iff
  rw [hle, compare_linePlace hx hy, Option.any_some, ← Ordering.ne_gt_iff_isLE]
  exact compare_le_iff_le

theorem beq_self (hx : x.isNaN = false) : (x == x) = true := by
  rw [isNaN_eq_false_iff] at hx
  show (x.toModel.unpack.compare x.toModel.unpack == some .eq) = true
  rw [compare_linePlace hx hx, Std.compare_self]
  rfl

/-! ### A pitch away from zero -/

theorem unpack_pitch :
    (32 : Float).toModel.unpack = .finite .positive (2 ^ 52) (-47) (by decide) := by
  rfl

theorem unpack_sub (x y : Float) :
    (x - y).toModel.unpack =
      (Float.Model.pack (UnpackedFloat.sub Format.binary64 x.toModel.unpack y.toModel.unpack)).unpack :=
  rfl

theorem unpack_pack_ne_zero (s : Sign) {m : ℕ} {q : ℤ} (hm : 0 < m) (hlt : m < 2 ^ 53)
    (hq : -1074 ≤ q) (t : Sign) : (Float.Model.pack (.finite s m q hm)).unpack ≠ .zero t := by
  rcases unpack_pack_of_pos s hm hlt hq with h | ⟨s', k, p, hk, h⟩ <;> rw [h] <;> exact nofun

theorem unpack_pack_normalize_ne_zero {n q : ℤ} (hn : n ≠ 0) (hq : -1074 ≤ q) (t : Sign) :
    (Float.Model.pack (normalize Format.binary64 n q .positive)).unpack ≠ .zero t := by
  have hround (s : Sign) {m : ℕ} (hm : 0 < m) :
      (Float.Model.pack (round Format.binary64 s m q)).unpack ≠ .zero t := by
    obtain ⟨k, p, hk, hround, hlt, hp⟩ := round_finite s hm hq
    rw [hround]
    exact unpack_pack_ne_zero s hk hlt hp t
  unfold UnpackedFloat.normalize
  split
  next h => exact hround .negative (by have := Int.compare_eq_lt.mp h; omega)
  next h => exact absurd (Int.compare_eq_eq.mp h) hn
  next h => exact hround .positive (by have := Int.compare_eq_gt.mp h; omega)

theorem decreaseExponent_pos {m : ℕ} (hm : 0 < m) (q e : ℤ) :
    (0 : ℤ) < (decreaseExponent m q e).1 := by
  have hshifted : 0 < m <<< (q - e).toNat := by
    rw [Nat.shiftLeft_eq]
    exact Nat.mul_pos hm (Nat.two_pow_pos _)
  exact Int.natCast_pos.mpr hshifted

theorem sub_finite (format : Format) (u : UnpackedFloat) (s : Sign) {m : ℕ} (q : ℤ) (hm : 0 < m) :
    UnpackedFloat.sub format u (.finite s m q hm) =
      UnpackedFloat.add format u (.finite (-s) m q hm) := by
  cases u with
  | notANumber | infinity | zero => rfl
  | finite t k p hk =>
    have hopposite (n : ℕ) : s.apply n = -(-s).apply n := by
      cases s with
      | positive => exact (Int.neg_neg _).symm
      | negative => rfl
    show normalize _ (_ - _) _ _ = normalize _ (_ + _) _ _
    rw [hopposite, Int.sub_neg]

theorem exists_opposite_of_add (hx : x.isNaN = false) {s t : Sign} {m : ℕ} {q : ℤ} {hm : 0 < m}
    (hlt : m < 2 ^ 53) (hq : -1074 ≤ q)
    (h : (Float.Model.pack (UnpackedFloat.add Format.binary64 x.toModel.unpack
      (.finite s m q hm))).unpack = .zero t) :
    ∃ k p hk, x.toModel.unpack = .finite (-s) k p hk := by
  rw [isNaN_eq_false_iff] at hx
  cases hu : x.toModel.unpack with
  | notANumber => exact absurd hu hx
  | infinity =>
    rw [hu] at h
    exact absurd ((unpack_pack_infinity _).symm.trans h) nofun
  | zero =>
    rw [hu] at h
    exact absurd h (unpack_pack_ne_zero _ hm hlt hq _)
  | finite s' k p hk =>
    rw [hu] at h
    have hleast := (canonical_of_unpack hu).least
    have hfirst := decreaseExponent_pos hk p (min p q)
    have hsecond := decreaseExponent_pos hm q (min p q)
    -- of equal signs the significands add up
    have hequal (hsum : s'.apply (decreaseExponent k p (min p q)).1 +
        s.apply (decreaseExponent m q (min p q)).1 ≠ 0) : False :=
      unpack_pack_normalize_ne_zero hsum (by omega) t h
    cases s <;> cases s'
    case positive.negative | negative.positive => exact ⟨k, p, hk, rfl⟩
    case positive.positive | negative.negative =>
      refine (hequal ?_).elim
      simp only [Sign.apply]
      omega

theorem pos_of_sub_pitch (hx : x.isNaN = false) (h : x - 32 = 0) : 0 < x := by
  have hunpack : (x - 32).toModel.unpack = (0 : Float).toModel.unpack := by rw [h]
  rw [unpack_sub, unpack_pitch, unpack_zero, sub_finite] at hunpack
  obtain ⟨m, q, hm, hu⟩ := exists_opposite_of_add hx (by decide) (by decide) hunpack
  rw [lt_iff_unpack, unpack_zero, hu]
  rfl

theorem neg_of_add_pitch (hx : x.isNaN = false) (h : x + 32 = 0) : x < 0 := by
  have hunpack : (x + 32).toModel.unpack = (0 : Float).toModel.unpack := by rw [h]
  rw [unpack_add, unpack_pitch, unpack_zero] at hunpack
  obtain ⟨m, q, hm, hu⟩ := exists_opposite_of_add hx (by decide) (by decide) hunpack
  rw [lt_iff_unpack, unpack_zero, hu]
  rfl

end CircuitFrames.Numeral
