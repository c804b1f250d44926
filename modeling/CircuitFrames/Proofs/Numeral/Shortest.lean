import CircuitFrames.Numeral.Plain
import CircuitFrames.Proofs.Numeral.Nearest

/-!
# Decimals that read back

Reading a decimal rounds its value (`Decimal.toFloat_eq_rounded`), so decimals of one value are read
alike, and the shortest decimal of a double is read as that double (`toFloat_shortest`). It is a
natural number below two to the power of sixty-four, or has digits behind its point, exactly if the
double is below that bound (`natural_shortest_lt`, `le_natural_shortest`).
-/

namespace CircuitFrames.Numeral

/-! ### Values -/

namespace Decimal

/-- The rational that the decimal stands for. -/
def value (d : Decimal) : ℚ :=
  d.digits * 10 ^ d.exponent

/-- The natural number that the decimal stands for, if its exponent is not negative. -/
def natural (d : Decimal) : ℕ :=
  d.digits * 10 ^ d.exponent.toNat

theorem value_pos {d : Decimal} (h : 0 < d.digits) : 0 < d.value :=
  mul_pos (Nat.cast_pos.mpr h) (zpow_pos (by norm_num) _)

theorem value_eq_div (d : Decimal) :
    d.value = ((d.digits * Nat.pow 10 d.exponent.toNat : ℕ) : ℚ) /
      ((Nat.pow 10 (-d.exponent).toNat : ℕ) : ℚ) :=
  natCast_mul_zpow (b := 10) (by decide) d.digits d.exponent

theorem value_natural {d : Decimal} (h : 0 ≤ d.exponent) : d.value = d.natural := by
  have hden : (-d.exponent).toNat = 0 := by omega
  rw [value_eq_div, hden]
  exact div_one _

theorem value_natCast (n : ℕ) : (⟨n, 0⟩ : Decimal).value = n := by
  rw [value, zpow_zero, mul_one]

theorem value_trim (d : Decimal) : d.trim.value = d.value := by
  fun_induction trim d with
  | case1 d h ih =>
    have hdiv : (d.digits : ℚ) = 10 * (d.digits / 10 : ℕ) := by
      have : d.digits = 10 * (d.digits / 10) := by omega
      exact_mod_cast this
    rw [ih]
    unfold value
    rw [zpow_add_one₀ (by norm_num), hdiv]
    ring
  | case2 d h => rfl

theorem exponent_le_trim (d : Decimal) : d.exponent ≤ d.trim.exponent := by
  fun_induction trim d with
  | case1 d h ih => exact le_trans (le_add_of_nonneg_right zero_le_one) ih
  | case2 d h => exact le_rfl

/-! ### Reading -/

theorem two_pow_le_ten_pow (n : ℕ) : (2 : ℚ) ^ (3 * n) ≤ 10 ^ n := by
  rw [pow_mul]
  exact pow_le_pow_left₀ (by norm_num) (by norm_num) n

theorem le_value_of_large {d : Decimal} (hdigits : 0 < d.digits) (h : 400 < d.exponent) :
    (2 : ℚ) ^ (1024 : ℤ) ≤ d.value := by
  calc (2 : ℚ) ^ (1024 : ℤ) ≤ 2 ^ ((3 * 401 : ℕ) : ℤ) := zpow_le_zpow_right₀ one_le_two (by decide)
    _ ≤ 10 ^ ((401 : ℕ) : ℤ) := by
      rw [zpow_natCast, zpow_natCast]
      exact two_pow_le_ten_pow 401
    _ ≤ 10 ^ d.exponent := zpow_le_zpow_right₀ (by norm_num) (by omega)
    _ ≤ d.value := le_mul_of_one_le_left (zpow_nonneg (by norm_num) _) (Nat.one_le_cast.mpr hdigits)

theorem value_lt_of_small {d : Decimal} (h : d.exponent + d.digits.log2 + 1 < -400) :
    d.value < (2 : ℚ) ^ (-1075 : ℤ) := by
  have hdigits : (d.digits : ℚ) < 10 ^ ((d.digits.log2 + 1 : ℕ) : ℤ) := by
    rw [zpow_natCast]
    have : d.digits < 10 ^ (d.digits.log2 + 1) :=
      Nat.lt_log2_self.trans_le (Nat.pow_le_pow_left (by decide) _)
    exact_mod_cast this
  calc d.value < 10 ^ ((d.digits.log2 + 1 : ℕ) : ℤ) * 10 ^ d.exponent :=
        mul_lt_mul_of_pos_right hdigits (zpow_pos (by norm_num) _)
    _ = 10 ^ (((d.digits.log2 + 1 : ℕ) : ℤ) + d.exponent) := (zpow_add₀ (by norm_num) _ _).symm
    _ ≤ 10 ^ (-((401 : ℕ) : ℤ)) := zpow_le_zpow_right₀ (by norm_num) (by omega)
    _ ≤ 2 ^ (-((3 * 401 : ℕ) : ℤ)) := by
      rw [zpow_neg, zpow_neg, zpow_natCast, zpow_natCast]
      exact inv_anti₀ (by positivity) (two_pow_le_ten_pow 401)
    _ ≤ 2 ^ (-1075 : ℤ) := zpow_le_zpow_right₀ one_le_two (by decide)

/-- Reading a decimal rounds its value; the early answers for very large and very small decimals are
what rounding gives. -/
theorem toFloat_eq_rounded (d : Decimal) : d.toFloat = rounded d.value := by
  have hnearest (num : ℕ) (e : ℤ) :
      nearest num (Nat.pow 10 e.toNat) = rounded ((num : ℚ) / (Nat.pow 10 e.toNat : ℕ)) :=
    nearest_eq_rounded num (Nat.pow_pos (by decide))
  unfold toFloat
  split
  next hzero =>
    rw [value, hzero, Nat.cast_zero, zero_mul, rounded_zero]
  next hzero =>
    have hdigits := Nat.pos_of_ne_zero hzero
    split
    next hlarge => exact (rounded_of_large (le_value_of_large hdigits hlarge)).symm
    next hlarge =>
      split
      next hsmall => exact (rounded_of_small (value_pos hdigits) (value_lt_of_small hsmall)).symm
      next hsmall => rw [hnearest, ← value_eq_div]

theorem toFloat_eq_of_value_eq {d d' : Decimal} (h : d.value = d'.value) : d.toFloat = d'.toFloat := by
  rw [toFloat_eq_rounded, toFloat_eq_rounded, h]

theorem toFloat_natural {d : Decimal} (h : 0 ≤ d.exponent) :
    toFloat ⟨d.natural, 0⟩ = d.toFloat :=
  toFloat_eq_of_value_eq (by rw [value_natCast, value_natural h])

end Decimal

/-! ### The shortest decimal -/

theorem onGrid?_spec {tie : TieRule} {value : Float} {num den : ℕ} {e : ℤ} {d : Decimal}
    (h : onGrid? tie value num den e = some d) : d.toFloat = value ∧ d.exponent = e := by
  unfold onGrid? at h
  dsimp only at h
  split at h
  next => cases h
  next hlower _ =>
    cases h
    exact ⟨of_decide_eq_true hlower, rfl⟩
  next _ hupper =>
    cases h
    exact ⟨of_decide_eq_true hupper, rfl⟩
  next hlower hupper =>
    have hlower := of_decide_eq_true hlower
    have hupper := of_decide_eq_true hupper
    split_ifs at h <;> cases h <;> first | exact ⟨hlower, rfl⟩ | exact ⟨hupper, rfl⟩

/-- The shortest decimal is found on one of the seventeen grids below the leading digit, or it is the
value itself. -/
theorem shortest_cases (tie : TieRule) (m : ℕ) (q : ℤ) :
    (∃ (d : Decimal) (n : ℕ), n < 17 ∧ shortest tie m q = d.trim ∧ d.toFloat = assemble m q ∧
      d.exponent =
        pointPosition (m * Nat.pow 2 q.toNat) (Nat.pow 2 (-q).toNat) - 1 - n) ∨
    shortest tie m q = (exactDecimal m q).trim := by
  unfold shortest
  dsimp only
  generalize hfound : List.findSome? _ (List.range 17) = found
  cases found with
  | none => exact .inr rfl
  | some d =>
    obtain ⟨n, hn, hd⟩ := List.exists_of_findSome?_eq_some hfound
    obtain ⟨hread, hexponent⟩ := onGrid?_spec hd
    exact .inl ⟨d, n, List.mem_range.mp hn, rfl, hread, hexponent⟩

theorem value_exactDecimal (m : ℕ) (q : ℤ) : (exactDecimal m q).value = m * (2 : ℚ) ^ q := by
  unfold exactDecimal
  split
  next h =>
    obtain ⟨n, rfl⟩ := Int.eq_ofNat_of_zero_le h
    rw [Decimal.value_natCast, Int.toNat_natCast, zpow_natCast, Nat.cast_mul]
    exact congrArg _ (Nat.cast_pow 2 n)
  next h =>
    obtain ⟨n, rfl⟩ : ∃ n : ℕ, q = -(n : ℤ) := ⟨(-q).toNat, by omega⟩
    have hpow : ((Nat.pow 5 n : ℕ) : ℚ) = 5 ^ n := Nat.cast_pow 5 n
    have hfactor : (10 : ℚ) ^ n = 2 ^ n * 5 ^ n := by
      rw [← mul_pow]
      norm_num
    unfold Decimal.value
    dsimp only
    rw [neg_neg, Int.toNat_natCast, zpow_neg, zpow_neg, zpow_natCast, zpow_natCast, Nat.cast_mul,
      hpow, hfactor, mul_inv, mul_assoc, mul_comm ((2 : ℚ) ^ n)⁻¹, mul_inv_cancel_left₀ (by positivity)]

theorem toFloat_shortest (tie : TieRule) {m : ℕ} {q : ℤ} (h : Canonical m q) :
    (shortest tie m q).toFloat = assemble m q := by
  rcases shortest_cases tie m q with ⟨d, n, -, heq, hread, -⟩ | heq
  · rw [heq, Decimal.toFloat_eq_of_value_eq d.value_trim, hread]
  · rw [heq, Decimal.toFloat_eq_rounded, Decimal.value_trim, value_exactDecimal,
      rounded_of_canonical h]

/-! ### Sixty-four bits -/

theorem zpow_sixty_four : (2 : ℚ) ^ (64 : ℤ) = ((2 ^ 64 : ℕ) : ℚ) := by
  norm_num

theorem natural_shortest_lt (tie : TieRule) {m : ℕ} {q : ℤ} (h : Canonical m q) (hq : q < 12)
    (hnatural : 0 ≤ (shortest tie m q).exponent) : (shortest tie m q).natural < 2 ^ 64 := by
  by_contra hlarge
  have hle : (2 : ℚ) ^ (64 : ℤ) ≤ (shortest tie m q).value := by
    rw [Decimal.value_natural hnatural, zpow_sixty_four, Nat.cast_le]
    omega
  have hv := (zpow_pos two_pos _).trans_le hle
  have hplace := zpow_le_placeOf hv hle
  have heq := toFloat_shortest tie h
  rw [Decimal.toFloat_eq_rounded] at heq
  have := place_of_rounded hv h heq
  omega

theorem pointPosition_of_large {m : ℕ} {q : ℤ} (h : 2 ^ 52 ≤ m) (hq : 12 ≤ q) :
    20 ≤ pointPosition (m * Nat.pow 2 q.toNat) (Nat.pow 2 (-q).toNat) := by
  have hden : (-q).toNat = 0 := by omega
  have hnum : 2 ^ 64 ≤ m * Nat.pow 2 q.toNat := by
    calc 2 ^ 64 = 2 ^ 52 * 2 ^ 12 := by norm_num
      _ ≤ m * 2 ^ q.toNat := Nat.mul_le_mul h (Nat.pow_le_pow_right two_pos (by omega))
  have hlength : ¬(Nat.toDigits 10 (m * Nat.pow 2 q.toNat)).length ≤ 19 := by
    rw [Nat.length_toDigits_le_iff (by decide) (by decide)]
    omega
  unfold pointPosition
  rw [hden, if_pos (by show 1 ≤ _; omega)]
  show 20 ≤ ((Nat.toDigits 10 (m * Nat.pow 2 q.toNat / 1)).length : ℤ)
  rw [Nat.div_one]
  omega

theorem exponent_shortest_of_large (tie : TieRule) {m : ℕ} {q : ℤ} (h : 2 ^ 52 ≤ m) (hq : 12 ≤ q) :
    0 ≤ (shortest tie m q).exponent := by
  rcases shortest_cases tie m q with ⟨d, n, hn, heq, -, hexponent⟩ | heq
  · have hpoint := pointPosition_of_large h hq
    rw [heq]
    exact le_trans (by omega) d.exponent_le_trim
  · rw [heq]
    refine le_trans (le_of_eq ?_) (Decimal.exponent_le_trim _)
    rw [exactDecimal, if_pos (by omega)]

theorem shortest_two_pow : shortest .up (2 ^ 52) 12 = ⟨18446744073709552, 3⟩ := by
  decide +kernel

theorem le_natural_shortest {m : ℕ} {q : ℤ} (h : Canonical m q) (hq : 12 ≤ q) :
    2 ^ 64 ≤ (shortest .up m q).natural := by
  have hleading : 2 ^ 52 ≤ m := h.leading.resolve_right (by omega)
  have hnatural := exponent_shortest_of_large .up hleading hq
  by_contra hsmall
  have hvalue := Decimal.value_natural hnatural
  have heq := toFloat_shortest .up h
  rw [Decimal.toFloat_eq_rounded] at heq
  have hv : 0 < (shortest .up m q).value := by
    rw [hvalue, Nat.cast_pos, Nat.pos_iff_ne_zero]
    intro hzero
    have hunpack := unpack_assemble h
    rw [← heq, hvalue, hzero, Nat.cast_zero, rounded_zero] at hunpack
    exact absurd (unpack_zero.symm.trans hunpack) nofun
  have hlog : Int.log 2 (shortest .up m q).value < 64 := by
    rw [← Int.lt_zpow_iff_log_lt (by decide) hv, hvalue, Nat.cast_ofNat, zpow_sixty_four,
      Nat.cast_lt]
    omega
  rcases place_of_rounded hv h heq with hplace | ⟨hplace, rfl⟩
  · unfold placeOf at hplace
    omega
  · -- only the bound itself is rounded to from below, and its own digits are above it
    obtain rfl : q = 12 := by
      unfold placeOf at hplace
      omega
    rw [shortest_two_pow] at hsmall
    exact hsmall (by decide)

end CircuitFrames.Numeral
