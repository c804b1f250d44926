import CircuitFrames.Numeral.Double
import CircuitFrames.Proofs.Numeral.Double

/-!
# Rounding as a function of the value

`nearest num den` is computed from two natural numbers, but it depends on their quotient alone
(`nearest_eq_rounded`). `rounded` is that function of the quotient. It gives every double back from
the double's own value (`rounded_of_canonical`), and the last place of its result follows the size
of the value.
-/

namespace CircuitFrames.Numeral

open Float.Model (UnpackedFloat Format)
open Float.Model.UnpackedFloat

/-- The natural number nearest to a rational; a half goes to the even neighbour. -/
def halfEven (v : ℚ) : ℕ :=
  if 2 * (v - ⌊v⌋₊) < 1 then ⌊v⌋₊
  else if 1 < 2 * (v - ⌊v⌋₊) then ⌊v⌋₊ + 1
  else if ⌊v⌋₊ % 2 = 0 then ⌊v⌋₊
  else ⌊v⌋₊ + 1

/-- The exponent of the last binary place at which a rational is rounded. -/
def placeOf (v : ℚ) : ℤ :=
  max (Int.log 2 v - 52) (-1074)

/-- The double nearest to a rational. -/
def rounded (v : ℚ) : Float :=
  if halfEven (v / 2 ^ placeOf v) = 2 ^ 53 then assemble (2 ^ 52) (placeOf v + 1)
  else assemble (halfEven (v / 2 ^ placeOf v)) (placeOf v)

/-! ### Powers -/

theorem zpow_eq_div {b : ℕ} (hb : b ≠ 0) (q : ℤ) :
    (b : ℚ) ^ q = ((b ^ q.toNat : ℕ) : ℚ) / ((b ^ (-q).toNat : ℕ) : ℚ) := by
  have hb' : (b : ℚ) ≠ 0 := Nat.cast_ne_zero.mpr hb
  rw [Nat.cast_pow, Nat.cast_pow, ← zpow_natCast, ← zpow_natCast, ← zpow_sub₀ hb']
  congr 1
  omega

theorem natCast_mul_zpow {b : ℕ} (hb : b ≠ 0) (n : ℕ) (q : ℤ) :
    (n : ℚ) * (b : ℚ) ^ q = ((n * Nat.pow b q.toNat : ℕ) : ℚ) / ((Nat.pow b (-q).toNat : ℕ) : ℚ) := by
  rw [zpow_eq_div hb, Nat.cast_mul, mul_div_assoc]
  rfl

theorem div_div_zpow {b : ℕ} (hb : b ≠ 0) (num den : ℕ) (q : ℤ) :
    (num : ℚ) / den / (b : ℚ) ^ q =
      ((num * Nat.pow b (-q).toNat : ℕ) : ℚ) / ((den * Nat.pow b q.toNat : ℕ) : ℚ) := by
  rw [zpow_eq_div hb, Nat.cast_mul, Nat.cast_mul, div_div_div_eq]
  rfl

/-! ### Rounding to a natural number -/

theorem halfEven_div {num den : ℕ} (hden : 0 < den) :
    halfEven ((num : ℚ) / den) = roundHalfEven num den := by
  have hden' : (0 : ℚ) < den := Nat.cast_pos.mpr hden
  have hdiv : (num : ℚ) = den * (num / den : ℕ) + (num % den : ℕ) := by
    exact_mod_cast (Nat.div_add_mod num den).symm
  have hrest : 2 * ((num : ℚ) / den - (num / den : ℕ)) = (2 * (num % den) : ℕ) / den := by
    rw [eq_div_iff hden'.ne', Nat.cast_mul]
    have : ((num : ℚ) / den) * den = num := div_mul_cancel₀ _ hden'.ne'
    push_cast
    linear_combination 2 * this + 2 * hdiv
  unfold halfEven roundHalfEven
  simp only [Nat.floor_div_eq_div, hrest, div_lt_one hden', one_lt_div hden', Nat.cast_lt]

theorem halfEven_natCast (n : ℕ) : halfEven n = n := by
  unfold halfEven
  rw [Nat.floor_natCast, sub_self, mul_zero, if_pos one_pos]

theorem halfEven_le {v : ℚ} (hv : 0 ≤ v) {n : ℕ} (h : v ≤ n) : halfEven v ≤ n := by
  have hfloor : ⌊v⌋₊ ≤ n := Nat.floor_le_of_le h
  rcases hfloor.lt_or_eq with hlt | heq
  · unfold halfEven
    split_ifs <;> omega
  · -- a value that reaches `n` from below is `n`
    have : v = n := le_antisymm h (heq ▸ Nat.floor_le hv)
    rw [this, halfEven_natCast]

theorem le_halfEven {v : ℚ} {n : ℕ} (h : n ≤ v) : n ≤ halfEven v := by
  have hfloor : n ≤ ⌊v⌋₊ := Nat.le_floor h
  unfold halfEven
  split_ifs <;> omega

theorem halfEven_of_lt_half {v : ℚ} (h : 2 * v < 1) : halfEven v = 0 := by
  have hfloor : ⌊v⌋₊ = 0 := Nat.floor_eq_zero.mpr (by linarith)
  unfold halfEven
  rw [hfloor, Nat.cast_zero, sub_zero, if_pos h]

/-! ### The last place -/

theorem two_zpow_mul_two_pow {a : ℤ} {d n : ℕ} (h : a + d = n) :
    (2 : ℚ) ^ a * (2 ^ d : ℕ) = (2 ^ n : ℕ) := by
  rw [Nat.cast_pow, Nat.cast_pow, Nat.cast_ofNat, ← zpow_natCast, ← zpow_natCast,
    ← zpow_add₀ two_ne_zero, h]

theorem le_log_div {num den : ℕ} (hnum : 0 < num) (hden : 0 < den) :
    (num.log2 : ℤ) - den.log2 - 1 ≤ Int.log 2 ((num : ℚ) / den) := by
  have hden' : (0 : ℚ) < den := Nat.cast_pos.mpr hden
  rw [← Int.zpow_le_iff_le_log (by decide) (div_pos (Nat.cast_pos.mpr hnum) hden'),
    le_div_iff₀ hden']
  calc (2 : ℚ) ^ ((num.log2 : ℤ) - den.log2 - 1) * den
      ≤ 2 ^ ((num.log2 : ℤ) - den.log2 - 1) * (2 ^ (den.log2 + 1) : ℕ) :=
        mul_le_mul_of_nonneg_left (Nat.cast_le.mpr Nat.lt_log2_self.le) (zpow_nonneg zero_le_two _)
    _ = (2 ^ num.log2 : ℕ) := two_zpow_mul_two_pow (by omega)
    _ ≤ num := Nat.cast_le.mpr (Nat.log2_self_le hnum.ne')

theorem log_div_lt {num den : ℕ} (hnum : 0 < num) (hden : 0 < den) :
    Int.log 2 ((num : ℚ) / den) < (num.log2 : ℤ) - den.log2 + 1 := by
  have hden' : (0 : ℚ) < den := Nat.cast_pos.mpr hden
  rw [← Int.lt_zpow_iff_log_lt (by decide) (div_pos (Nat.cast_pos.mpr hnum) hden'),
    div_lt_iff₀ hden']
  calc (num : ℚ) < (2 ^ (num.log2 + 1) : ℕ) := Nat.cast_lt.mpr Nat.lt_log2_self
    _ = 2 ^ ((num.log2 : ℤ) - den.log2 + 1) * (2 ^ den.log2 : ℕ) :=
        (two_zpow_mul_two_pow (by omega)).symm
    _ ≤ 2 ^ ((num.log2 : ℤ) - den.log2 + 1) * den :=
        mul_le_mul_of_nonneg_left (Nat.cast_le.mpr (Nat.log2_self_le hden.ne'))
          (zpow_nonneg zero_le_two _)

theorem lastPlace_eq {num den : ℕ} (hnum : 0 < num) (hden : 0 < den) :
    lastPlace num den = placeOf ((num : ℚ) / den) := by
  have hden' : (0 : ℚ) < den := Nat.cast_pos.mpr hden
  have hv : (0 : ℚ) < (num : ℚ) / den := div_pos (Nat.cast_pos.mpr hnum) hden'
  have hlow := le_log_div hnum hden
  have hhigh := log_div_lt hnum hden
  set top : ℤ := (num.log2 : ℤ) - den.log2 with htop
  have htest : den * Nat.pow 2 top.toNat ≤ num * Nat.pow 2 (-top).toNat ↔
      top ≤ Int.log 2 ((num : ℚ) / den) := by
    rw [← Int.zpow_le_iff_le_log (by decide) hv, zpow_eq_div two_ne_zero,
      div_le_div_iff₀ (by positivity) hden', ← Nat.cast_mul, ← Nat.cast_mul, Nat.cast_le,
      Nat.mul_comm den]
    rfl
  have hsum : (num.log2 : ℤ) - den.log2 - 53 + 53 = top := by omega
  unfold lastPlace placeOf
  dsimp only
  rw [hsum]
  split
  next h =>
    rw [htest] at h
    congr 1
    omega
  next h =>
    rw [htest] at h
    congr 1
    omega

theorem rounded_zero : rounded 0 = 0 := by
  have hzero : halfEven 0 = 0 := halfEven_natCast 0
  unfold rounded
  rw [zero_div, hzero, if_neg (by decide)]
  rfl

theorem nearest_eq_rounded (num : ℕ) {den : ℕ} (hden : 0 < den) :
    nearest num den = rounded ((num : ℚ) / den) := by
  unfold nearest
  split
  next h =>
    rw [h, Nat.cast_zero, zero_div, rounded_zero]
  next h =>
    have hpow : 0 < den * Nat.pow 2 (lastPlace num den).toNat :=
      Nat.mul_pos hden (Nat.two_pow_pos _)
    have hplace := lastPlace_eq (Nat.pos_of_ne_zero h) hden
    have hvalue : (num : ℚ) / den / 2 ^ lastPlace num den = _ := div_div_zpow two_ne_zero num den _
    dsimp only
    rw [← halfEven_div hpow, ← hvalue, hplace]
    rfl

/-! ### Doubles round to themselves -/

theorem assemble_of_pos {m : ℕ} (hm : 0 < m) (q : ℤ) :
    assemble m q = .ofModel (.pack (.finite .positive m q hm)) :=
  dif_pos hm

theorem unpack_assemble {m : ℕ} {q : ℤ} (h : Canonical m q) :
    (assemble m q).toModel.unpack = .finite .positive m q h.pos := by
  rw [assemble_of_pos h.pos]
  exact unpack_pack_finite .positive h.pos h

theorem placeOf_eq {v : ℚ} (hv : 0 < v) {q : ℤ} (hleast : -1074 ≤ q)
    (hlow : (2 : ℚ) ^ (q + 52) ≤ v ∨ q = -1074) (hhigh : v < (2 : ℚ) ^ (q + 53)) :
    placeOf v = q := by
  have hhigh : Int.log 2 v < q + 53 := (Int.lt_zpow_iff_log_lt (by decide) hv).mp hhigh
  unfold placeOf
  rcases hlow with hlow | rfl
  · have hlow : q + 52 ≤ Int.log 2 v := (Int.zpow_le_iff_le_log (by decide) hv).mp hlow
    omega
  · omega

theorem rounded_of_canonical {m : ℕ} {q : ℤ} (h : Canonical m q) :
    rounded (m * (2 : ℚ) ^ q) = assemble m q := by
  have hpow : (0 : ℚ) < 2 ^ q := zpow_pos two_pos q
  have hm : (0 : ℚ) < m := Nat.cast_pos.mpr h.pos
  have hplace : placeOf (m * (2 : ℚ) ^ q) = q := by
    refine placeOf_eq (mul_pos hm hpow) h.least ?_ ?_
    · refine h.leading.imp_left fun hleading => ?_
      rw [add_comm, zpow_add₀ two_ne_zero]
      exact mul_le_mul_of_nonneg_right (by exact_mod_cast hleading) hpow.le
    · rw [add_comm, zpow_add₀ two_ne_zero]
      exact mul_lt_mul_of_pos_right (by exact_mod_cast h.lt) hpow
  have hlt := h.lt
  unfold rounded
  rw [hplace, mul_div_cancel_right₀ _ hpow.ne', halfEven_natCast, if_neg (by omega)]

/-! ### The size of what is rounded -/

theorem zpow_le_placeOf {v : ℚ} (hv : 0 < v) {e : ℤ} (h : (2 : ℚ) ^ e ≤ v) : e - 52 ≤ placeOf v := by
  have hlog : e ≤ Int.log 2 v := (Int.zpow_le_iff_le_log (by decide) hv).mp h
  unfold placeOf
  omega

theorem div_place_lt {v : ℚ} (hv : 0 < v) : v / 2 ^ placeOf v < 2 ^ 53 := by
  have hpow : (0 : ℚ) < 2 ^ placeOf v := zpow_pos two_pos _
  have hlog : Int.log 2 v < placeOf v + 53 := by
    unfold placeOf
    omega
  rw [div_lt_iff₀ hpow, ← zpow_natCast, ← zpow_add₀ two_ne_zero, add_comm]
  exact (Int.lt_zpow_iff_log_lt (by decide) hv).mpr hlog

theorem le_div_place {v : ℚ} (hv : 0 < v) (h : -1074 < placeOf v) : 2 ^ 52 ≤ v / 2 ^ placeOf v := by
  have hpow : (0 : ℚ) < 2 ^ placeOf v := zpow_pos two_pos _
  have hlog : placeOf v + 52 ≤ Int.log 2 v := by
    unfold placeOf at h ⊢
    omega
  rw [le_div_iff₀ hpow, ← zpow_natCast, ← zpow_add₀ two_ne_zero, add_comm]
  exact (Int.zpow_le_iff_le_log (by decide) hv).mpr hlog

/-- The parts from which a rounded value is put together, at the place of the value or, when rounding
carries over, one above it. -/
theorem rounded_parts {v : ℚ} (hv : 0 < v) :
    ∃ k p, rounded v = assemble k p ∧ k < 2 ^ 53 ∧ (2 ^ 52 ≤ k ∨ p = -1074) ∧
      (p = placeOf v ∨ p = placeOf v + 1 ∧ k = 2 ^ 52) := by
  have hpow : (0 : ℚ) < 2 ^ placeOf v := zpow_pos two_pos _
  have hscaled : 0 ≤ v / 2 ^ placeOf v := (div_pos hv hpow).le
  have hle : halfEven (v / 2 ^ placeOf v) ≤ 2 ^ 53 :=
    halfEven_le hscaled (by exact_mod_cast (div_place_lt hv).le)
  unfold rounded
  split
  next hcarry => exact ⟨_, _, rfl, by decide, .inl le_rfl, .inr ⟨rfl, rfl⟩⟩
  next hcarry =>
    refine ⟨_, _, rfl, by omega, ?_, .inl rfl⟩
    by_cases hplace : -1074 < placeOf v
    · exact .inl (le_halfEven (by exact_mod_cast le_div_place hv hplace))
    · have : -1074 ≤ placeOf v := le_max_right _ _
      exact .inr (by omega)

theorem assemble_of_large {k : ℕ} (hk : 0 < k) {p : ℤ} (h : 972 ≤ p) : assemble k p = infinity := by
  have hpack : pack Format.binary64 (.finite .positive k p hk) =
      pack Format.binary64 (.infinity .positive) := by
    rw [pack_finite, if_pos (by omega)]
    rfl
  rw [assemble_of_pos hk, infinity]
  unfold Float.Model.pack
  simp only [hpack]

theorem rounded_of_large {v : ℚ} (h : (2 : ℚ) ^ (1024 : ℤ) ≤ v) : rounded v = infinity := by
  have hv : 0 < v := (zpow_pos two_pos _).trans_le h
  have hplace := zpow_le_placeOf hv h
  obtain ⟨k, p, heq, -, hleading, hp⟩ := rounded_parts hv
  rw [heq, assemble_of_large (by omega) (by omega)]

theorem unpack_infinity : infinity.toModel.unpack = .infinity .positive :=
  unpack_pack_infinity .positive

/-- The value that rounds to a double has the place of the double, or one below it if the rounding
carries over. -/
theorem place_of_rounded {v : ℚ} (hv : 0 < v) {m : ℕ} {q : ℤ} (h : Canonical m q)
    (heq : rounded v = assemble m q) : q = placeOf v ∨ q = placeOf v + 1 ∧ m = 2 ^ 52 := by
  obtain ⟨k, p, hparts, hlt, hleading, hp⟩ := rounded_parts hv
  have hleast : -1074 ≤ placeOf v := le_max_right _ _
  have hunpack := unpack_assemble h
  rw [← heq, hparts] at hunpack
  rcases Nat.eq_zero_or_pos k with rfl | hk
  · exact absurd (unpack_zero.symm.trans hunpack) nofun
  · rcases lt_or_ge p 972 with hmost | hlarge
    · have hcanonical : Canonical k p := ⟨hk, hlt, by omega, by omega, hleading⟩
      rw [unpack_assemble hcanonical] at hunpack
      cases hunpack
      exact hp
    · rw [assemble_of_large hk hlarge, unpack_infinity] at hunpack
      cases hunpack

theorem rounded_of_small {v : ℚ} (hv : 0 < v) (h : v < (2 : ℚ) ^ (-1075 : ℤ)) : rounded v = 0 := by
  have hplace : placeOf v = -1074 :=
    placeOf_eq hv le_rfl (.inr rfl) (h.trans (zpow_lt_zpow_right₀ one_lt_two (by decide)))
  have hzero : halfEven (v / 2 ^ (-1074 : ℤ)) = 0 := by
    refine halfEven_of_lt_half ?_
    rw [← mul_div_assoc, div_lt_one (zpow_pos two_pos _)]
    have htwice : (2 : ℚ) ^ (-1074 : ℤ) = 2 * 2 ^ (-1075 : ℤ) := by
      rw [← zpow_one_add₀ two_ne_zero]
      rfl
    linarith
  unfold rounded
  rw [hplace, hzero, if_neg (by decide)]
  rfl

end CircuitFrames.Numeral
