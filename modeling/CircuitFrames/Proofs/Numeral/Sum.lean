import CircuitFrames.Proofs.Numeral.Double

/-!
# Sums of doubles

What adding up coordinates relies on: zero adds nothing to a double that is not the negative zero
(`add_zero_eq`), and the sum of two numbers, one of them finite, is a number again (`unpack_add_spec`).
A sum is the negative zero only if both summands are (`isNegativeZero_of_add`), and one that is no
number makes the sum none.
-/

namespace CircuitFrames.Numeral

open Float.Model (UnpackedFloat Format totalExponent)
open Float.Model.UnpackedFloat

/-- The double is the zero with a sign. -/
def IsNegativeZero (x : Float) : Prop :=
  x.toModel.unpack = .zero .negative

/-! ### Rounding a positive significand -/

theorem mantissa_shiftRight (em : ExtendedMantissa) (n : Nat) :
    (em >>> n).mantissa = em.mantissa / 2 ^ n := by
  show (n.repeat ExtendedMantissa.shiftRightOne em).mantissa = _
  induction n with
  | zero => rw [Nat.pow_zero, Nat.div_one]; rfl
  | succ n ih =>
    show (n.repeat ExtendedMantissa.shiftRightOne em).mantissa / 2 = _
    rw [ih, Nat.div_div_eq_div_mul, Nat.pow_succ]

theorem mantissa_le_roundedMantissa (em : ExtendedMantissa) : em.mantissa ≤ em.roundedMantissa := by
  unfold ExtendedMantissa.roundedMantissa
  cases em.accuracy with
  | exact => exact Nat.le_refl _
  | inexact o =>
    cases o with
    | lt => exact Nat.le_refl _
    | eq => exact Nat.le_add_right ..
    | gt => exact Nat.le_add_right ..

theorem shiftToTargetExponent_bounds {m : Nat} {q : Int} (hm : 0 < m) (hq : -1074 ≤ q) :
    0 < (shiftToTargetExponent Format.binary64 m q .exact).1.mantissa ∧
      (shiftToTargetExponent Format.binary64 m q .exact).1.mantissa < 2 ^ 53 ∧
      -1074 ≤ (shiftToTargetExponent Format.binary64 m q .exact).2 := by
  have htarget : Format.binary64.targetExponent (totalExponent m q) =
      max ((m.log2 : Int) + 1 + q - 53) (-1074) := rfl
  unfold shiftToTargetExponent shiftToExponent
  rw [htarget]
  dsimp only
  generalize hshift : (max ((m.log2 : Int) + 1 + q - 53) (-1074) - q).toNat = shift
  rw [mantissa_shiftRight]
  show 0 < m / 2 ^ shift ∧ m / 2 ^ shift < 2 ^ 53 ∧ _
  have hlow : 2 ^ m.log2 ≤ m := Nat.log2_self_le (by omega)
  have hhigh : m < 2 ^ (m.log2 + 1) := Nat.lt_log2_self
  refine ⟨?_, ?_, by omega⟩
  · -- no shift passes the leading bit
    have hle : 2 ^ shift ≤ 2 ^ m.log2 := Nat.pow_le_pow_right (by decide) (by omega)
    exact Nat.div_pos (hle.trans hlow) (Nat.two_pow_pos shift)
  · rw [Nat.div_lt_iff_lt_mul (Nat.two_pow_pos shift), ← Nat.pow_add]
    exact hhigh.trans_le (Nat.pow_le_pow_right (by decide) (by omega))

theorem roundWithAccuracy_finite (s : Sign) {m : Nat} {q : Int} (hm : 0 < m) (hq : -1074 ≤ q) :
    ∃ k p hk, roundWithAccuracy Format.binary64 s m q .exact = .finite s k p hk ∧ k < 2 ^ 53 ∧
      -1074 ≤ p := by
  have hfirst := shiftToTargetExponent_bounds hm hq
  have hrounded := hfirst.1.trans_le (mantissa_le_roundedMantissa _)
  have hsecond := shiftToTargetExponent_bounds hrounded hfirst.2.2
  refine ⟨_, _, hsecond.1, ?_, hsecond.2⟩
  unfold roundWithAccuracy
  dsimp only
  rw [dif_neg (Nat.ne_of_gt hsecond.1)]

theorem round_finite (s : Sign) {m : Nat} {q : Int} (hm : 0 < m) (hq : -1074 ≤ q) :
    ∃ k p hk, round Format.binary64 s m q = .finite s k p hk ∧ k < 2 ^ 53 ∧ -1074 ≤ p := by
  have htarget : -1074 ≤ Format.binary64.targetExponent (totalExponent m q) := le_max_right _ _
  unfold UnpackedFloat.round decreaseExponent
  dsimp only
  refine roundWithAccuracy_finite s ?_ (by omega)
  rw [Nat.shiftLeft_eq]
  exact Nat.mul_pos hm (Nat.two_pow_pos _)

theorem unpack_pack_of_pos (s : Sign) {m : Nat} {q : Int} (hm : 0 < m) (hlt : m < 2 ^ 53)
    (hq : -1074 ≤ q) :
    (Float.Model.pack (.finite s m q hm)).unpack = .infinity s ∨
      ∃ t k p hk, (Float.Model.pack (.finite s m q hm)).unpack = .finite t k p hk := by
  show unpack Format.binary64 (pack Format.binary64 (.finite s m q hm)) = _ ∨
    ∃ t k p hk, unpack Format.binary64 (pack Format.binary64 (.finite s m q hm)) = _
  rw [pack_finite]
  split
  · exact .inl (unpack_pack_infinity s)
  next hfits =>
    right
    split
    next hlog =>
      have hexp : (BitVec.ofNat 11 (q + 1075).toNat).toNat = (q + 1075).toNat := by
        rw [BitVec.toNat_ofNat, Nat.mod_eq_of_lt (by omega)]
      have pos : 0 < 2 ^ 52 + (BitVec.ofNat 52 m).toNat := by omega
      have hparts := Parts.normal (s := s.toBitVec) (e := BitVec.ofNat 11 (q + 1075).toNat)
        (by omega) (by omega) pos
      exact ⟨_, _, _, pos, unpack_packComponents hparts⟩
    next hlog =>
      have hsmall : m < 2 ^ 52 := by
        have hlog' : m.log2 < 53 := (Nat.log2_lt (by omega)).mpr hlt
        exact (Nat.log2_lt (by omega)).mp (by omega)
      have hmant : (BitVec.ofNat 52 m).toNat = m := by
        rw [BitVec.toNat_ofNat, Nat.mod_eq_of_lt (by omega)]
      have pos : 0 < (BitVec.ofNat 52 m).toNat := by omega
      exact ⟨_, _, _, pos, unpack_packComponents (.subnormal pos)⟩

/-! ### Sums -/

theorem unpack_add (x y : Float) :
    (x + y).toModel.unpack =
      (Float.Model.pack (UnpackedFloat.add Format.binary64 x.toModel.unpack y.toModel.unpack)).unpack :=
  rfl

theorem add_zero_eq {x : Float} (h : ¬IsNegativeZero x) : x + 0 = x := by
  refine eq_of_unpack_eq ?_
  rw [unpack_add, unpack_zero]
  have hself : (Float.Model.pack x.toModel.unpack).unpack = x.toModel.unpack := by rw [pack_unpack]
  unfold IsNegativeZero at h
  generalize x.toModel.unpack = u at h hself
  cases u with
  | zero s =>
    cases s with
    | negative => exact absurd rfl h
    | positive => exact hself
  | infinity s => exact hself
  | notANumber => exact hself
  | finite s m q hm => exact hself

theorem isNegativeZero_iff {x : Float} : IsNegativeZero x ↔ x = -0 := by
  have hzero : IsNegativeZero (-0) := rfl
  refine ⟨fun h => eq_of_unpack_eq (h.trans hzero.symm), ?_⟩
  rintro rfl
  exact hzero

theorem add_zero_eq_ite (x : Float) : x + 0 = if x = -0 then 0 else x := by
  split
  next h =>
    rw [h]
    rfl
  next h => exact add_zero_eq (mt isNegativeZero_iff.mp h)

theorem unpack_pack_normalize {n : Int} {q : Int} (hq : -1074 ≤ q) :
    (Float.Model.pack (normalize Format.binary64 n q .positive)).unpack ≠ .notANumber ∧
      (Float.Model.pack (normalize Format.binary64 n q .positive)).unpack ≠ .zero .negative := by
  have hround (s : Sign) {m : Nat} (hm : 0 < m) :
      (Float.Model.pack (round Format.binary64 s m q)).unpack ≠ .notANumber ∧
        (Float.Model.pack (round Format.binary64 s m q)).unpack ≠ .zero .negative := by
    obtain ⟨k, p, hk, hround, hlt, hp⟩ := round_finite s hm hq
    rw [hround]
    rcases unpack_pack_of_pos s hk hlt hp with h | ⟨t, k', p', hk', h⟩ <;> rw [h] <;>
      exact ⟨nofun, nofun⟩
  unfold UnpackedFloat.normalize
  split
  next h => exact hround .negative (by have := Int.compare_eq_lt.mp h; omega)
  next h =>
    rw [unpack_pack_zero]
    exact ⟨nofun, nofun⟩
  next h => exact hround .positive (by have := Int.compare_eq_gt.mp h; omega)

theorem sound_of_eq {u v : UnpackedFloat} {P : Prop} (h : u = v) (hnumber : v ≠ .notANumber)
    (hzero : v ≠ .zero .negative) : u ≠ .notANumber ∧ (u = .zero .negative → P) := by
  rw [h]
  exact ⟨hnumber, fun h => absurd h hzero⟩

theorem unpack_add_zeros (s t : Sign) :
    (Float.Model.pack (UnpackedFloat.add Format.binary64 (.zero s) (.zero t))).unpack ≠ .notANumber ∧
      ((Float.Model.pack (UnpackedFloat.add Format.binary64 (.zero s) (.zero t))).unpack =
        .zero .negative → s = .negative ∧ t = .negative) := by
  cases s with
  | positive =>
    cases t with
    | positive | negative => exact sound_of_eq (unpack_pack_zero .positive) nofun nofun
  | negative =>
    cases t with
    | positive => exact sound_of_eq (unpack_pack_zero .positive) nofun nofun
    | negative =>
      refine ⟨?_, fun _ => ⟨rfl, rfl⟩⟩
      show (Float.Model.pack (.zero .negative)).unpack ≠ _
      rw [unpack_pack_zero]
      exact nofun

/-- The sum of two numbers, one of which is finite, is a number, and it is the negative zero only if
both are. -/
theorem unpack_add_spec {x y : Float} (hx : x.isNaN = false) (hy : y.isNaN = false)
    (hfinite : x.isFinite = true ∨ y.isFinite = true) :
    (x + y).toModel.unpack ≠ .notANumber ∧
      ((x + y).toModel.unpack = .zero .negative → IsNegativeZero x ∧ IsNegativeZero y) := by
  have hx : x.toModel.unpack.isNaN = false := hx
  have hy : y.toModel.unpack.isNaN = false := hy
  have hfinite : x.toModel.unpack.isFinite = true ∨ y.toModel.unpack.isFinite = true := hfinite
  have hself : (Float.Model.pack x.toModel.unpack).unpack = x.toModel.unpack := by rw [pack_unpack]
  have hself' : (Float.Model.pack y.toModel.unpack).unpack = y.toModel.unpack := by rw [pack_unpack]
  rw [unpack_add]
  unfold IsNegativeZero
  cases hu : x.toModel.unpack with
  | notANumber => rw [hu] at hx; cases hx
  | infinity s =>
    rw [hu] at hfinite
    cases hv : y.toModel.unpack with
    | notANumber => rw [hv] at hy; cases hy
    | infinity t => rw [hv] at hfinite; rcases hfinite with h | h <;> cases h
    | zero t | finite t n p hn => exact sound_of_eq (unpack_pack_infinity s) nofun nofun
  | zero s =>
    cases hv : y.toModel.unpack with
    | notANumber => rw [hv] at hy; cases hy
    | infinity t => exact sound_of_eq (unpack_pack_infinity t) nofun nofun
    | zero t =>
      obtain ⟨hnumber, hzero⟩ := unpack_add_zeros s t
      refine ⟨hnumber, fun h => ?_⟩
      obtain ⟨rfl, rfl⟩ := hzero h
      exact ⟨rfl, rfl⟩
    | finite t n p hn =>
      rw [hv] at hself'
      exact sound_of_eq hself' nofun nofun
  | finite s m q hm =>
    cases hv : y.toModel.unpack with
    | notANumber => rw [hv] at hy; cases hy
    | infinity t => exact sound_of_eq (unpack_pack_infinity t) nofun nofun
    | zero t =>
      rw [hu] at hself
      exact sound_of_eq hself nofun nofun
    | finite t n p hn =>
      have hleast : -1074 ≤ min q p :=
        le_min (canonical_of_unpack hu).least (canonical_of_unpack hv).least
      obtain ⟨hnumber, hzero⟩ := unpack_pack_normalize hleast
        (n := s.apply (decreaseExponent m q (min q p)).1 + t.apply (decreaseExponent n p (min q p)).1)
      exact ⟨hnumber, fun h => absurd h hzero⟩

/-- A double that adds up: a number that is not the negative zero. -/
structure Addable (x : Float) : Prop where
  number : x.isNaN = false
  signed : ¬IsNegativeZero x

theorem isNaN_eq_false_iff {x : Float} : x.isNaN = false ↔ x.toModel.unpack ≠ .notANumber := by
  show x.toModel.unpack.isNaN = false ↔ _
  cases x.toModel.unpack with
  | notANumber => simp [UnpackedFloat.isNaN]
  | infinity s | zero s | finite s m q hm => exact ⟨fun _ => nofun, fun _ => rfl⟩

theorem isNaN_of_isFinite {x : Float} (h : x.isFinite = true) : x.isNaN = false := by
  have h : x.toModel.unpack.isFinite = true := h
  show x.toModel.unpack.isNaN = false
  cases hu : x.toModel.unpack with
  | notANumber | infinity s => rw [hu] at h; cases h
  | zero s | finite s m q hm => rfl

theorem addable_zero : Addable 0 where
  number := rfl
  signed := by
    unfold IsNegativeZero
    rw [unpack_zero]
    exact nofun

theorem Addable.add {x y : Float} (hx : Addable x) (hy : y.isFinite = true) : Addable (x + y) := by
  obtain ⟨hnumber, hzero⟩ := unpack_add_spec hx.number (isNaN_of_isFinite hy) (.inr hy)
  exact ⟨isNaN_eq_false_iff.mpr hnumber, fun h => hx.signed (hzero h).1⟩

theorem Addable.add_left {x y : Float} (hx : x.isFinite = true) (hy : Addable y) :
    Addable (x + y) := by
  obtain ⟨hnumber, hzero⟩ := unpack_add_spec (isNaN_of_isFinite hx) hy.number (.inl hx)
  exact ⟨isNaN_eq_false_iff.mpr hnumber, fun h => hy.signed (hzero h).2⟩

/-! ### What is no number -/

variable {x y : Float}

theorem isNaN_iff : x.isNaN = true ↔ x.toModel.unpack = .notANumber := by
  rw [← Bool.not_eq_false, isNaN_eq_false_iff, not_not]

theorem eq_of_isNaN (hx : x.isNaN = true) (hy : y.isNaN = true) : x = y := by
  rw [isNaN_iff] at hx hy
  exact eq_of_unpack_eq (hx.trans hy.symm)

theorem isNaN_add_left (h : x.isNaN = true) (y : Float) : (x + y).isNaN = true := by
  rw [isNaN_iff] at h
  rw [isNaN_iff, unpack_add, h]
  exact unpack_pack_notANumber

theorem isNaN_add_right (x : Float) (h : y.isNaN = true) : (x + y).isNaN = true := by
  rw [isNaN_iff] at h
  rw [isNaN_iff, unpack_add, h]
  cases x.toModel.unpack <;> exact unpack_pack_notANumber

theorem exists_infinity (hx : x.isNaN = false) (hfinite : ¬x.isFinite = true) :
    ∃ s, x.toModel.unpack = .infinity s := by
  have hx : x.toModel.unpack.isNaN = false := hx
  have hfinite : ¬x.toModel.unpack.isFinite = true := hfinite
  cases hu : x.toModel.unpack with
  | infinity s => exact ⟨s, rfl⟩
  | notANumber =>
    rw [hu] at hx
    cases hx
  | zero s | finite s m q hm =>
    rw [hu] at hfinite
    exact absurd rfl hfinite

theorem isNegativeZero_of_add (h : IsNegativeZero (x + y)) : IsNegativeZero x ∧ IsNegativeZero y := by
  have hnumber : (x + y).isNaN = false := by
    rw [isNaN_eq_false_iff, h]
    exact nofun
  have hx : x.isNaN = false := by
    by_contra hx
    rw [isNaN_add_left (by simpa using hx) y] at hnumber
    cases hnumber
  have hy : y.isNaN = false := by
    by_contra hy
    rw [isNaN_add_right x (by simpa using hy)] at hnumber
    cases hnumber
  by_cases hfinite : x.isFinite = true ∨ y.isFinite = true
  · exact (unpack_add_spec hx hy hfinite).2 h
  · -- infinities add up to an infinity or to no number
    exfalso
    rw [not_or] at hfinite
    obtain ⟨s, hs⟩ := exists_infinity hx hfinite.1
    obtain ⟨t, ht⟩ := exists_infinity hy hfinite.2
    unfold IsNegativeZero at h
    rw [unpack_add, hs, ht] at h
    by_cases hst : s == t
    · rw [UnpackedFloat.add, if_pos hst, unpack_pack_infinity] at h
      cases h
    · rw [UnpackedFloat.add, if_neg hst, unpack_pack_notANumber] at h
      cases h

theorem zero_add_comm (x : Float) : 0 + x = x + 0 := by
  refine eq_of_unpack_eq ?_
  rw [unpack_add, unpack_add, unpack_zero]
  cases x.toModel.unpack with
  | zero s => cases s <;> rfl
  | infinity s | notANumber | finite s m q hm => rfl

theorem zero_add_eq (h : ¬IsNegativeZero x) : 0 + x = x := by
  rw [zero_add_comm, add_zero_eq h]

end CircuitFrames.Numeral
