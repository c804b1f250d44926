import CircuitFrames.Numeral.Double
import CircuitFrames.Proofs.Numeral.Order

/-!
# Ranks of doubles

Different doubles have different ranks (`rank_injective`), and numbers are ranked as they are ordered
(`onLine_le_of_rank_le`): the bits of a number, counted downwards from zero if it has a sign, tell where
it stands on the line. Only both zeros, which are one place on the line, differ in rank.
-/

namespace CircuitFrames.Numeral

open Float.Model (UnpackedFloat Format)
open Float.Model.UnpackedFloat

variable {x y : Float}

/-! ### Ranks and bits -/

theorem toNat_rank (x : Float) :
    (rank x).toNat =
      if x.toBits.toNat < 2 ^ 63 then x.toBits.toNat + 2 ^ 63 else 2 ^ 64 - 1 - x.toBits.toNat := by
  have hbits := x.toBits.toNat_lt
  have hsign : (x.toBits < 0x8000000000000000) ↔ x.toBits.toNat < 2 ^ 63 := UInt64.lt_iff_toNat_lt
  unfold rank
  dsimp only
  split
  next h =>
    have hlow := hsign.mp h
    rw [if_pos hlow, UInt64.toNat_add]
    have hoffset : (0x8000000000000000 : UInt64).toNat = 2 ^ 63 := rfl
    omega
  next h =>
    rw [if_neg (mt hsign.mpr h), UInt64.toNat_not]
    have hsize : UInt64.size = 2 ^ 64 := rfl
    omega

theorem rank_injective : Function.Injective rank := by
  intro x y h
  have hx := x.toBits.toNat_lt
  have hy := y.toBits.toNat_lt
  have hranks := congrArg UInt64.toNat h
  rw [toNat_rank, toNat_rank] at hranks
  apply Float.toBits_inj.mp
  apply UInt64.toNat_inj.mp
  split at hranks <;> split at hranks <;> omega

/-- The bits of the last rank from below mean no number, but are not those of the value that does. -/
theorem rank_ne_zero (x : Float) : rank x ≠ 0 := by
  intro h
  have hrank := congrArg UInt64.toNat h
  have hbits := x.toBits.toNat_lt
  rw [toNat_rank] at hrank
  have hones : x.toModel.toBits.toBitVec = -1#64 := by
    apply BitVec.eq_of_toNat_eq
    show x.toBits.toNat = 2 ^ 64 - 1
    change _ = 0 at hrank
    split at hrank <;> omega
  have hvalid := x.toModel.valid
  rw [hones] at hvalid
  exact absurd (hvalid.eq_packedNaN (by decide) (by decide)) (by decide)

/-! ### Bits and places -/

/-- The bits of a finite value without its sign. -/
def finiteBits (m : ℕ) (q : ℤ) : ℤ :=
  (q + 1074) * 2 ^ 52 + m

/-- The bits of an infinity without its sign. -/
def infiniteBits : ℤ :=
  2047 * 2 ^ 52

/-- The bits of a value without its sign, counted downwards from zero if the sign is negative. -/
def signedBits : UnpackedFloat → ℤ
  | .infinity .negative => -infiniteBits
  | .finite .negative m q _ => -finiteBits m q
  | .zero _ | .notANumber => 0
  | .finite .positive m q _ => finiteBits m q
  | .infinity .positive => infiniteBits

theorem Canonical.bounds {m : ℕ} {q : ℤ} (h : Canonical m q) :
    0 < finiteBits m q ∧ finiteBits m q < infiniteBits := by
  obtain ⟨hpos, hlt, hleast, hmost, -⟩ := h
  unfold finiteBits infiniteBits
  omega

/-- The last place of a value weighs more than its significand. -/
theorem Canonical.lex_of_le {m n : ℕ} {q p : ℤ} (h : Canonical m q) (h' : Canonical n p)
    (hle : finiteBits m q ≤ finiteBits n p) : q < p ∨ q = p ∧ m ≤ n := by
  obtain ⟨-, hlt, hleast, -, hleading⟩ := h
  obtain ⟨-, hlt', hleast', -, hleading'⟩ := h'
  unfold finiteBits at hle
  omega

theorem Parts.signedBits_eq {s : BitVec 1} {e : BitVec 11} {m : BitVec 52} {u : UnpackedFloat}
    (h : Parts s e m u) (hu : u ≠ .notANumber) :
    signedBits u = (Sign.ofBitVec s).apply (e.toNat * 2 ^ 52 + m.toNat) := by
  cases h with
  | notANumber => exact absurd rfl hu
  | infinity =>
    have hones : ((-1#11 : BitVec 11).toNat : ℤ) = 2047 := rfl
    have hnone : ((0#52).toNat : ℤ) = 0 := rfl
    rw [hones, hnone, Int.add_zero]
    cases Sign.ofBitVec s <;> rfl
  | zero => cases Sign.ofBitVec s <;> simp [signedBits, Sign.apply]
  | subnormal =>
    cases Sign.ofBitVec s <;> simp [signedBits, finiteBits, Sign.apply]
  | normal =>
    cases Sign.ofBitVec s <;> simp [signedBits, finiteBits, Sign.apply] <;> omega

theorem toNat_toBits (x : Float) :
    x.toBits.toNat = (@unpackSign Format.binary64 x.toModel.toBits.toBitVec).toNat * 2 ^ 63 +
      (@unpackExponent Format.binary64 x.toModel.toBits.toBitVec).toNat * 2 ^ 52 +
        (@unpackMantissa Format.binary64 x.toModel.toBits.toBitVec).toNat := by
  have hbits := congrArg BitVec.toNat (packComponents_unpack x.toModel.toBits.toBitVec)
  rw [toNat_packComponents, toBitVec_ofBitVec] at hbits
  exact hbits.symm

theorem toNat_rank_eq (hx : x.isNaN = false) :
    (0 ≤ signedBits x.toModel.unpack ∧ ((rank x).toNat : ℤ) = 2 ^ 63 + signedBits x.toModel.unpack) ∨
      (signedBits x.toModel.unpack ≤ 0 ∧
        ((rank x).toNat : ℤ) = 2 ^ 63 - 1 + signedBits x.toModel.unpack) := by
  rw [isNaN_eq_false_iff] at hx
  have hsigned : signedBits x.toModel.unpack = _ :=
    (parts_unpack x.toModel.toBits.toBitVec).signedBits_eq hx
  rw [toNat_rank, toNat_toBits, hsigned]
  generalize @unpackExponent Format.binary64 x.toModel.toBits.toBitVec = e
  generalize @unpackMantissa Format.binary64 x.toModel.toBits.toBitVec = m
  generalize @unpackSign Format.binary64 x.toModel.toBits.toBitVec = s
  have he : e.toNat < 2 ^ 11 := e.isLt
  have hm : m.toNat < 2 ^ 52 := m.isLt
  obtain rfl | rfl : s = 0#1 ∨ s = 1#1 := by
    clear hsigned
    revert s
    decide
  · left
    have hsign : (0#1).toNat = 0 := rfl
    have happly (n : ℤ) : (Sign.ofBitVec 0#1).apply n = n := rfl
    rw [hsign, happly, if_pos (by omega)]
    omega
  · right
    have hsign : (1#1).toNat = 1 := rfl
    have happly (n : ℤ) : (Sign.ofBitVec 1#1).apply n = -n := rfl
    rw [hsign, happly, if_neg (by omega)]
    omega

theorem onLine_le_of_signedBits_le (hx : x.isNaN = false) (hy : y.isNaN = false)
    (h : signedBits x.toModel.unpack ≤ signedBits y.toModel.unpack) : onLine x ≤ onLine y := by
  rw [isNaN_eq_false_iff] at hx hy
  have hinfinite : 0 < infiniteBits := by
    unfold infiniteBits
    decide
  unfold onLine
  cases hu : x.toModel.unpack with
  | notANumber => exact absurd hu hx
  | infinity s =>
    cases hv : y.toModel.unpack with
    | notANumber => exact absurd hv hy
    | infinity t | zero t =>
      rw [hu, hv] at h
      cases s <;> cases t <;> simp [signedBits, linePlace, Prod.Lex.toLex_le_toLex] at h ⊢ <;> omega
    | finite t n p hn =>
      have := (canonical_of_unpack hv).bounds
      rw [hu, hv] at h
      cases s <;> cases t <;> simp [signedBits, linePlace, Prod.Lex.toLex_le_toLex] at h ⊢ <;> omega
  | zero s =>
    cases hv : y.toModel.unpack with
    | notANumber => exact absurd hv hy
    | zero t => exact le_rfl
    | infinity t =>
      rw [hu, hv] at h
      cases t <;> simp [signedBits, linePlace, Prod.Lex.toLex_le_toLex] at h ⊢
      omega
    | finite t n p hn =>
      have := (canonical_of_unpack hv).bounds
      rw [hu, hv] at h
      cases t <;> simp [signedBits, linePlace, Prod.Lex.toLex_le_toLex] at h ⊢
      omega
  | finite s m q hm =>
    have := (canonical_of_unpack hu).bounds
    cases hv : y.toModel.unpack with
    | notANumber => exact absurd hv hy
    | infinity t | zero t =>
      rw [hu, hv] at h
      cases s <;> cases t <;> simp [signedBits, linePlace, Prod.Lex.toLex_le_toLex] at h ⊢ <;> omega
    | finite t n p hn =>
      have := (canonical_of_unpack hv).bounds
      have := (canonical_of_unpack hu).lex_of_le (canonical_of_unpack hv)
      have := (canonical_of_unpack hv).lex_of_le (canonical_of_unpack hu)
      rw [hu, hv] at h
      cases s <;> cases t <;> simp [signedBits, linePlace, Prod.Lex.toLex_le_toLex] at h ⊢ <;> omega

theorem onLine_le_of_rank_le (hx : x.isNaN = false) (hy : y.isNaN = false)
    (h : (rank x).toNat ≤ (rank y).toNat) : onLine x ≤ onLine y := by
  apply onLine_le_of_signedBits_le hx hy
  have := toNat_rank_eq hx
  have := toNat_rank_eq hy
  omega

/-! ### One place for one number -/

theorem beq_iff_onLine (hx : x.isNaN = false) (hy : y.isNaN = false) :
    (x == y) = true ↔ onLine x = onLine y := by
  rw [isNaN_eq_false_iff] at hx hy
  have hbeq : (x == y) = (x.toModel.unpack.compare y.toModel.unpack == some .eq) := rfl
  rw [hbeq, compare_linePlace hx hy, beq_iff_eq, Option.some_inj, compare_eq_iff_eq]
  rfl

theorem eq_of_onLine_eq (hx : Addable x) (hy : Addable y) (h : onLine x = onLine y) : x = y := by
  have hu := isNaN_eq_false_iff.mp hx.number
  have hv := isNaN_eq_false_iff.mp hy.number
  have hpositive := hx.signed
  have hpositive' := hy.signed
  unfold IsNegativeZero at hpositive hpositive'
  unfold onLine at h
  refine eq_of_unpack_eq ?_
  generalize x.toModel.unpack = u at *
  generalize y.toModel.unpack = v at *
  cases u with
  | notANumber => exact absurd rfl hu
  | infinity s | zero s | finite s m q hm =>
    cases v with
    | notANumber => exact absurd rfl hv
    | infinity t | zero t | finite t n p hn => cases s <;> cases t <;> simp_all [linePlace]

end CircuitFrames.Numeral
