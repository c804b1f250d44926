import CircuitFrames.Numeral.Double
import CircuitFrames.Proofs.Numeral.Sum

/-!
# Words as doubles

A natural number of less than fifty-four bits is a double: rounding only moves its leading bit to the
front (`round_of_lt`). So a word survives as a double, and can be read back (`natural?_toFloat`).
-/

namespace CircuitFrames.Numeral

open Float.Model (UnpackedFloat Format totalExponent)
open Float.Model.UnpackedFloat

theorem shiftToTargetExponent_of_leading {m : Nat} {q : Int} (hlt : m < 2 ^ 53)
    (hleading : 2 ^ 52 ≤ m) (hq : -1074 ≤ q) :
    shiftToTargetExponent Format.binary64 m q .exact = (⟨m, false, false⟩, q) := by
  have htarget : Format.binary64.targetExponent (totalExponent m q) =
      max ((m.log2 : Int) + 1 + q - 53) (-1074) := rfl
  have hsame : max ((m.log2 : Int) + 1 + q - 53) (-1074) = q := by
    rw [log2_eq_of_leading hlt hleading]
    omega
  unfold shiftToTargetExponent shiftToExponent
  rw [htarget, hsame]
  simp
  rfl

theorem roundWithAccuracy_of_leading (s : Sign) {m : Nat} {q : Int} (hm : 0 < m) (hlt : m < 2 ^ 53)
    (hleading : 2 ^ 52 ≤ m) (hq : -1074 ≤ q) :
    roundWithAccuracy Format.binary64 s m q .exact = .finite s m q hm := by
  have hrounded : ExtendedMantissa.roundedMantissa ⟨m, false, false⟩ = m := rfl
  unfold roundWithAccuracy
  rw [shiftToTargetExponent_of_leading hlt hleading hq]
  dsimp only
  rw [hrounded, shiftToTargetExponent_of_leading hlt hleading hq]
  exact dif_neg (Nat.ne_of_gt hm)

/-- How far the leading bit of a number is from the front. -/
def slack (n : Nat) : Nat :=
  52 - n.log2

theorem slack_le (n : Nat) : slack n ≤ 52 :=
  Nat.sub_le 52 n.log2

theorem slack_bounds {n : Nat} (hn : 0 < n) (hlt : n < 2 ^ 53) :
    2 ^ 52 ≤ n * 2 ^ slack n ∧ n * 2 ^ slack n < 2 ^ 53 := by
  have hlog : n.log2 < 53 := (Nat.log2_lt (by omega)).mpr hlt
  have hlow : 2 ^ n.log2 ≤ n := Nat.log2_self_le (by omega)
  have hhigh : n < 2 ^ (n.log2 + 1) := Nat.lt_log2_self
  constructor
  · calc 2 ^ 52 = 2 ^ n.log2 * 2 ^ slack n := by rw [← Nat.pow_add]; congr 1; unfold slack; omega
      _ ≤ n * 2 ^ slack n := Nat.mul_le_mul_right _ hlow
  · calc n * 2 ^ slack n < 2 ^ (n.log2 + 1) * 2 ^ slack n :=
        Nat.mul_lt_mul_of_pos_right hhigh (Nat.two_pow_pos _)
      _ = 2 ^ 53 := by rw [← Nat.pow_add]; congr 1; unfold slack; omega

theorem round_of_lt (s : Sign) {n : Nat} (hn : 0 < n) (hlt : n < 2 ^ 53) :
    ∃ hm, UnpackedFloat.round Format.binary64 s n 0 = .finite s (n * 2 ^ slack n) (-slack n) hm := by
  obtain ⟨hlow, hhigh⟩ := slack_bounds hn hlt
  have hlog : n.log2 < 53 := (Nat.log2_lt (by omega)).mpr hlt
  have htarget : Format.binary64.targetExponent (totalExponent n 0) =
      max ((n.log2 : Int) + 1 + 0 - 53) (-1074) := rfl
  have hshift : (0 - max ((n.log2 : Int) + 1 + 0 - 53) (-1074)).toNat = slack n := by
    unfold slack
    omega
  refine ⟨by omega, ?_⟩
  unfold UnpackedFloat.round decreaseExponent
  rw [htarget]
  dsimp only
  rw [hshift, Nat.shiftLeft_eq, Int.zero_sub]
  exact roundWithAccuracy_of_leading s (by omega) hhigh hlow (by have := slack_le n; omega)

theorem natural?_toFloat (n : UInt32) : natural? n.toFloat = some n.toNat := by
  have hlt : n.toNat < 2 ^ 53 := n.toNat_lt.trans (by decide)
  have hunpack : n.toFloat.toModel.unpack =
      (Float.Model.pack (UnpackedFloat.normalize Format.binary64 n.toNat 0 .positive)).unpack := rfl
  unfold natural?
  rw [hunpack]
  rcases Nat.eq_zero_or_pos n.toNat with hzero | hpos
  · have hnormalize : UnpackedFloat.normalize Format.binary64 n.toNat 0 .positive =
        .zero .positive := by
      rw [hzero]
      rfl
    rw [hnormalize, unpack_pack_zero, hzero]
  · obtain ⟨hlow, hhigh⟩ := slack_bounds hpos hlt
    obtain ⟨hm, hround⟩ := round_of_lt .positive hpos hlt
    have hnormalize : UnpackedFloat.normalize Format.binary64 n.toNat 0 .positive =
        UnpackedFloat.round Format.binary64 .positive n.toNat 0 := by
      unfold UnpackedFloat.normalize
      rw [Int.compare_eq_gt.mpr (by omega)]
      rfl
    have hslack := slack_le n.toNat
    have hcanonical : Canonical (n.toNat * 2 ^ slack n.toNat) (-slack n.toNat) :=
      ⟨hm, hhigh, by omega, by omega, .inl hlow⟩
    rw [hnormalize, hround, unpack_pack_finite _ hm hcanonical]
    dsimp only
    have hunit : (- -(slack n.toNat : Int)).toNat = slack n.toNat := by omega
    have hwhole : (-(slack n.toNat : Int)).toNat = 0 := by omega
    rw [hunit, hwhole]
    simp

end CircuitFrames.Numeral
