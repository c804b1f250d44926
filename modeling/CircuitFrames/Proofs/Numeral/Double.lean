import Mathlib

/-!
# The parts of doubles

A double is the same as its parts: its sign, and either a special value or a significand and the
exponent of its last place. Taking a double apart and putting it together is the identity
(`pack_unpack`), and so is the other way round for parts that a double can have
(`unpack_pack_finite`).
-/

namespace CircuitFrames.Numeral

open Float.Model (UnpackedFloat Format)
open Float.Model.UnpackedFloat

/-- The significands and last places that finite doubles have. -/
structure Canonical (m : Nat) (q : Int) : Prop where
  pos : 0 < m
  lt : m < 2 ^ 53
  least : -1074 ≤ q
  most : q ≤ 971
  leading : 2 ^ 52 ≤ m ∨ q = -1074

/-! ### Bits -/

theorem toBitVec_ofBitVec (v : BitVec 1) : (Sign.ofBitVec v).toBitVec = v := by
  revert v
  decide

theorem ofBitVec_toBitVec (s : Sign) : Sign.ofBitVec s.toBitVec = s := by
  cases s <;> rfl

theorem toNat_append {n k : Nat} (v : BitVec n) (w : BitVec k) :
    (v ++ w).toNat = v.toNat * 2 ^ k + w.toNat := by
  rw [BitVec.toNat_append, ← Nat.shiftLeft_add_eq_or_of_lt w.isLt, Nat.shiftLeft_eq]

theorem toNat_packComponents (s : Sign) (e : BitVec 11) (m : BitVec 52) :
    (packComponents Format.binary64 s e m).toNat =
      s.toBitVec.toNat * 2 ^ 63 + e.toNat * 2 ^ 52 + m.toNat := by
  rw [packComponents, toNat_append, toNat_append]
  omega

theorem toNat_unpackSign (b : BitVec 64) :
    (@unpackSign Format.binary64 b).toNat = b.toNat / 2 ^ 63 % 2 := by
  rw [unpackSign, BitVec.toNat_cast, BitVec.extractLsb_toNat, Nat.shiftRight_eq_div_pow]
  rfl

theorem toNat_unpackExponent (b : BitVec 64) :
    (@unpackExponent Format.binary64 b).toNat = b.toNat / 2 ^ 52 % 2 ^ 11 := by
  rw [unpackExponent, BitVec.toNat_cast, BitVec.extractLsb_toNat, Nat.shiftRight_eq_div_pow]
  rfl

theorem toNat_unpackMantissa (b : BitVec 64) :
    (@unpackMantissa Format.binary64 b).toNat = b.toNat % 2 ^ 52 := by
  rw [unpackMantissa, BitVec.toNat_cast, BitVec.extractLsb_toNat, Nat.shiftRight_eq_div_pow,
    Nat.pow_zero, Nat.div_one]
  rfl

theorem unpackSign_packComponents (s : Sign) (e : BitVec 11) (m : BitVec 52) :
    unpackSign (packComponents Format.binary64 s e m) = s.toBitVec := by
  apply BitVec.eq_of_toNat_eq
  rw [toNat_unpackSign, toNat_packComponents]
  have := s.toBitVec.isLt
  have := e.isLt
  have := m.isLt
  omega

theorem packComponents_unpack (b : BitVec 64) :
    packComponents Format.binary64 (Sign.ofBitVec (@unpackSign Format.binary64 b))
      (@unpackExponent Format.binary64 b) (@unpackMantissa Format.binary64 b) =
        b := by
  apply BitVec.eq_of_toNat_eq
  rw [toNat_packComponents, toBitVec_ofBitVec, toNat_unpackSign, toNat_unpackExponent,
    toNat_unpackMantissa]
  have := b.isLt
  omega

/-! ### Fields and parts -/

/-- The parts that the three fields of a double stand for. -/
inductive Parts (s : BitVec 1) : BitVec 11 → BitVec 52 → UnpackedFloat → Prop
  | infinity : Parts s (-1#11) 0#52 (.infinity (.ofBitVec s))
  | notANumber {m : BitVec 52} (nonzero : m ≠ 0#52) : Parts s (-1#11) m .notANumber
  | zero : Parts s 0#11 0#52 (.zero (.ofBitVec s))
  | subnormal {m : BitVec 52} (pos : 0 < m.toNat) :
    Parts s 0#11 m (.finite (.ofBitVec s) m.toNat (-1074) pos)
  | normal {e : BitVec 11} {m : BitVec 52} (least : 0 < e.toNat) (most : e.toNat < 2047)
    (pos : 0 < 2 ^ 52 + m.toNat) :
    Parts s e m (.finite (.ofBitVec s) (2 ^ 52 + m.toNat) (e.toNat - 1075) pos)

theorem toNat_ne_of_ne {n : Nat} {v w : BitVec n} (h : v ≠ w) : v.toNat ≠ w.toNat :=
  fun he => h (BitVec.eq_of_toNat_eq he)

theorem toNat_implicit (m : BitVec 52) : (1#1 ++ m).toNat = 2 ^ 52 + m.toNat := by
  rw [toNat_append]
  rfl

theorem parts_unpack (b : BitVec 64) :
    Parts (@unpackSign Format.binary64 b) (@unpackExponent Format.binary64 b)
      (@unpackMantissa Format.binary64 b) (unpack Format.binary64 b) := by
  fun_cases unpack with
  | case1 mant expo sgn sign hones hmant =>
    show Parts sgn expo mant _
    rw [hones, hmant]
    exact .infinity
  | case2 mant expo hones hmant =>
    show Parts _ expo mant _
    rw [hones]
    exact .notANumber hmant
  | case3 mant expo sgn sign hones hzero hmant =>
    show Parts sgn expo mant _
    rw [hzero, hmant]
    exact .zero
  | case4 mant expo exponent sgn sign hones hzero hmant =>
    have hplace : exponent + 1 = -1074 := by
      show ((expo.toNat : Int) - (1023 + 52)) + 1 = -1074
      rw [hzero]
      rfl
    show Parts sgn expo mant (.finite sign mant.toNat (exponent + 1) _)
    simp only [hplace, hzero]
    exact .subnormal _
  | case5 mant expo exponent sgn sign hones hzero =>
    have least : 0 < expo.toNat := Nat.pos_of_ne_zero (toNat_ne_of_ne hzero)
    have most : expo.toNat < 2047 := by
      have hlt : expo.toNat < 2048 := expo.isLt
      have hne : expo.toNat ≠ 2047 := toNat_ne_of_ne hones
      omega
    show Parts sgn expo mant (.finite sign (1#1 ++ mant).toNat exponent _)
    simp only [toNat_implicit]
    exact .normal least most _

theorem Parts.unique {s : BitVec 1} {e : BitVec 11} {m : BitVec 52} {u v : UnpackedFloat}
    (hu : Parts s e m u) (hv : Parts s e m v) : u = v := by
  cases hu <;> cases hv <;> first | rfl | contradiction

theorem unpack_packComponents {s : Sign} {e : BitVec 11} {m : BitVec 52} {u : UnpackedFloat}
    (h : Parts s.toBitVec e m u) : unpack Format.binary64 (packComponents Format.binary64 s e m) = u := by
  have := parts_unpack (packComponents Format.binary64 s e m)
  rw [unpackSign_packComponents, unpackExponent_packComponents, unpackMantissa_packComponents] at this
  exact this.unique h

theorem Parts.canonical {s : BitVec 1} {e : BitVec 11} {m : BitVec 52} {u : UnpackedFloat}
    (h : Parts s e m u) {sign : Sign} {k : Nat} {q : Int} {hk : 0 < k}
    (hu : u = .finite sign k q hk) : Canonical k q := by
  have hm := m.isLt
  cases h with
  | subnormal =>
    cases hu
    exact ⟨hk, by omega, by decide, by decide, .inr rfl⟩
  | normal least most =>
    cases hu
    exact ⟨hk, by omega, by omega, by omega, .inl (by omega)⟩
  | infinity | notANumber | zero => cases hu

theorem canonical_of_unpack {x : Float} {s : Sign} {m : Nat} {q : Int} {hm : 0 < m}
    (hx : x.toModel.unpack = .finite s m q hm) : Canonical m q :=
  (parts_unpack x.toModel.toBits.toBitVec).canonical hx

/-! ### Putting together -/

theorem log2_eq_of_leading {m : Nat} (hlt : m < 2 ^ 53) (hleading : 2 ^ 52 ≤ m) : m.log2 = 52 :=
  (Nat.log2_eq_iff (by omega)).mpr ⟨hleading, hlt⟩

theorem pack_finite (s : Sign) (m : Nat) (q : Int) (hm : 0 < m) :
    pack Format.binary64 (.finite s m q hm) =
      if 2 ^ 11 ≤ (q + 1075).toNat + 1 then packedInfinity Format.binary64 s
      else if m.log2 + 1 = 53 then
        packComponents Format.binary64 s (BitVec.ofNat 11 (q + 1075).toNat) (BitVec.ofNat 52 m)
      else packComponents Format.binary64 s 0#11 (BitVec.ofNat 52 m) := by
  have hbias : q + (Format.binary64.exponentBias : Int) +
      (Format.binary64.mantissaBitsWithoutImplicit : Int) = q + 1075 := by
    show q + (1023 : Nat) + (52 : Nat) = _
    omega
  unfold UnpackedFloat.pack
  simp only [hbias]
  rfl

theorem pack_of_leading (s : Sign) {m : Nat} {q : Int} (hm : 0 < m) (h : Canonical m q)
    (hleading : 2 ^ 52 ≤ m) :
    pack Format.binary64 (.finite s m q hm) =
      packComponents Format.binary64 s (BitVec.ofNat 11 (q + 1075).toNat) (BitVec.ofNat 52 m) := by
  have hfits : ¬2 ^ 11 ≤ (q + 1075).toNat + 1 := by
    have := h.most
    omega
  rw [pack_finite, if_neg hfits, if_pos (by rw [log2_eq_of_leading h.lt hleading])]

theorem pack_of_small (s : Sign) {m : Nat} (hm : 0 < m) (hlt : m < 2 ^ 52) :
    pack Format.binary64 (.finite s m (-1074) hm) =
      packComponents Format.binary64 s 0#11 (BitVec.ofNat 52 m) := by
  have hlog : m.log2 < 52 := (Nat.log2_lt (by omega)).mpr hlt
  rw [pack_finite, if_neg (by decide), if_neg (by omega)]

theorem unpack_pack_finite (s : Sign) {m : Nat} {q : Int} (hm : 0 < m) (h : Canonical m q) :
    (Float.Model.pack (.finite s m q hm)).unpack = .finite s m q hm := by
  show unpack Format.binary64 (pack Format.binary64 (.finite s m q hm)) = _
  have hq := h.least
  have hq' := h.most
  have hlt := h.lt
  by_cases hleading : 2 ^ 52 ≤ m
  · have hexp : (BitVec.ofNat 11 (q + 1075).toNat).toNat = (q + 1075).toNat := by
      rw [BitVec.toNat_ofNat, Nat.mod_eq_of_lt (by omega)]
    have hmant : 2 ^ 52 + (BitVec.ofNat 52 m).toNat = m := by
      rw [BitVec.toNat_ofNat]
      omega
    rw [pack_of_leading s hm h hleading]
    have := Parts.normal (s := s.toBitVec) (e := BitVec.ofNat 11 (q + 1075).toNat)
      (m := BitVec.ofNat 52 m) (by omega) (by omega) (by omega)
    have hplace : ((BitVec.ofNat 11 (q + 1075).toNat).toNat : Int) - 1075 = q := by omega
    simp only [hplace, hmant, ofBitVec_toBitVec] at this
    exact unpack_packComponents this
  · obtain rfl : q = -1074 := h.leading.resolve_left hleading
    have hmant : (BitVec.ofNat 52 m).toNat = m := by
      rw [BitVec.toNat_ofNat, Nat.mod_eq_of_lt (by omega)]
    rw [pack_of_small s hm (by omega)]
    have := Parts.subnormal (s := s.toBitVec) (m := BitVec.ofNat 52 m) (by omega)
    simp only [hmant, ofBitVec_toBitVec] at this
    exact unpack_packComponents this

theorem unpack_pack_zero (s : Sign) : (Float.Model.pack (.zero s)).unpack = .zero s := by
  have := Parts.zero (s := s.toBitVec)
  rw [ofBitVec_toBitVec] at this
  exact unpack_packComponents this

theorem unpack_zero : (0 : Float).toModel.unpack = .zero .positive := by
  rfl

theorem unpack_pack_infinity (s : Sign) : (Float.Model.pack (.infinity s)).unpack = .infinity s := by
  have := Parts.infinity (s := s.toBitVec)
  rw [ofBitVec_toBitVec] at this
  exact unpack_packComponents this

theorem unpack_pack_notANumber : (Float.Model.pack .notANumber).unpack = .notANumber :=
  unpack_packComponents (.notANumber (by decide))

theorem pack_of_parts {s : BitVec 1} {e : BitVec 11} {m : BitVec 52} {u : UnpackedFloat}
    (h : Parts s e m u) (hnumber : u ≠ .notANumber) :
    pack Format.binary64 u = packComponents Format.binary64 (.ofBitVec s) e m := by
  have hm := m.isLt
  cases h with
  | infinity => rfl
  | notANumber => exact absurd rfl hnumber
  | zero => rfl
  | subnormal pos => rw [pack_of_small _ pos hm, BitVec.ofNat_toNat, BitVec.setWidth_eq]
  | normal least most pos =>
    have hcanonical := (Parts.normal (s := s) least most pos).canonical rfl
    have hexp : ((e.toNat : Int) - 1075 + 1075).toNat = e.toNat := by omega
    have hmant : BitVec.ofNat 52 (2 ^ 52 + m.toNat) = m := by
      apply BitVec.eq_of_toNat_eq
      rw [BitVec.toNat_ofNat]
      omega
    rw [pack_of_leading _ pos hcanonical (by omega), hexp, hmant, BitVec.ofNat_toNat,
      BitVec.setWidth_eq]

/-- Putting the parts of a double together gives the double. -/
theorem pack_unpack (x : Float.Model) : Float.Model.pack x.unpack = x := by
  suffices h : pack Format.binary64 x.unpack = x.toBits.toBitVec by
    unfold Float.Model.pack
    simp only [h]
  have hparts := parts_unpack x.toBits.toBitVec
  by_cases hnumber : x.unpack = .notANumber
  · -- the bits that mean no number are one pattern only
    have hunpack : unpack Format.binary64 x.toBits.toBitVec = .notANumber := hnumber
    rw [hunpack] at hparts
    rw [hnumber]
    generalize he : @unpackExponent Format.binary64 x.toBits.toBitVec = e at hparts
    generalize hm : @unpackMantissa Format.binary64 x.toBits.toBitVec = m at hparts
    cases hparts with
    | notANumber nonzero => exact (x.valid.eq_packedNaN he (hm ▸ nonzero)).symm
  · exact (pack_of_parts hparts hnumber).trans (packComponents_unpack _)

theorem ofModel_pack_unpack (x : Float) : Float.ofModel (.pack x.toModel.unpack) = x := by
  rw [pack_unpack]

theorem eq_of_unpack_eq {x y : Float} (h : x.toModel.unpack = y.toModel.unpack) : x = y := by
  rw [← ofModel_pack_unpack x, h, ofModel_pack_unpack]

end CircuitFrames.Numeral
