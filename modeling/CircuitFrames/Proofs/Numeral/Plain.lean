import CircuitFrames.Proofs.Numeral.Shortest

/-!
# The plain text of doubles

The plain text of a finite double is a sign and a decimal (`shown?`), and the decimal read back with
its sign is the double (`eq_of_shown`). So each plain text is read as the double that it shows
(`ofPlain?_plain`), and no two doubles share one. `abs_lt_iff_of_shown` says which doubles are below
two to the power of sixty-four by what their text is read as: a decimal without a point has to be a
natural number below that bound.
-/

namespace CircuitFrames.Numeral

open Float.Model (UnpackedFloat)
open Float.Model.UnpackedFloat

/-! ### Characters of decimals -/

theorem isDigit_of_mem_toDigits {n : ℕ} {c : Char} (h : c ∈ Nat.toDigits 10 n) : c.isDigit = true :=
  Nat.isDigit_of_mem_toDigits (by decide) (by decide) h

namespace Decimal

theorem isDigit_of_mem_digitChars {d : Decimal} {c : Char} (h : c ∈ d.digitChars) :
    c.isDigit = true :=
  isDigit_of_mem_toDigits h

theorem isDigit_of_mem_zeros {n : ℕ} {c : Char} (h : c ∈ List.replicate n '0') : c.isDigit = true := by
  rw [List.eq_of_mem_replicate h]
  rfl

theorem chars_of_natural {d : Decimal} (h : 0 ≤ d.exponent) :
    d.chars = d.digitChars ++ List.replicate d.exponent.toNat '0' :=
  if_pos h

theorem digits_of_natural {d : Decimal} (h : 0 ≤ d.exponent) :
    d.chars ≠ [] ∧ (∀ c ∈ d.chars, c.isDigit = true) ∧ digitValue d.chars = d.natural := by
  rw [chars_of_natural h]
  refine ⟨?_, ?_, ?_⟩
  · exact List.append_ne_nil_of_left_ne_nil Nat.toDigits_ne_nil _
  · intro c hc
    rcases List.mem_append.mp hc with hc | hc
    · exact isDigit_of_mem_digitChars hc
    · exact isDigit_of_mem_zeros hc
  · rw [digitValue, Nat.ofDigitChars_append, digitChars, Nat.ofDigitChars_ten_toDigits,
      Nat.ofDigitChars_replicate_zero, natural, Nat.mul_comm]

theorem chars_of_fraction {d : Decimal} (h : d.exponent < 0) :
    ∃ whole fraction, d.chars = whole ++ '.' :: fraction ∧ whole ≠ [] ∧
      (∀ c ∈ whole, c.isDigit = true) ∧ (∀ c ∈ fraction, c.isDigit = true) ∧
      ofLexeme whole fraction 0 = d := by
  have hplaces : 0 - ((-d.exponent).toNat : ℤ) = d.exponent := by omega
  have hvalue : Nat.ofDigitChars 10 d.digitChars 0 = d.digits := Nat.ofDigitChars_ten_toDigits
  unfold chars
  rw [if_neg (by omega)]
  dsimp only
  generalize (-d.exponent).toNat = places at hplaces ⊢
  split
  next hlt =>
    refine ⟨_, _, rfl, ?_, ?_, ?_, ?_⟩
    · rw [← List.length_pos_iff, List.length_take]
      omega
    · exact fun c hc => isDigit_of_mem_digitChars (List.mem_of_mem_take hc)
    · exact fun c hc => isDigit_of_mem_digitChars (List.mem_of_mem_drop hc)
    · have hlength : (d.digitChars.drop (d.digitChars.length - places)).length = places := by
        rw [List.length_drop]
        omega
      unfold ofLexeme
      rw [List.take_append_drop, hvalue, hlength, hplaces]
  next hle =>
    refine ⟨['0'], _, rfl, List.cons_ne_nil _ _, by simp, ?_, ?_⟩
    · intro c hc
      rcases List.mem_append.mp hc with hc | hc
      · exact isDigit_of_mem_zeros hc
      · exact isDigit_of_mem_digitChars hc
    · have hlength : (List.replicate (places - d.digitChars.length) '0' ++ d.digitChars).length =
          places := by
        rw [List.length_append, List.length_replicate]
        omega
      have hzeros : Nat.ofDigitChars 10
          (['0'] ++ (List.replicate (places - d.digitChars.length) '0' ++ d.digitChars)) 0 =
            d.digits := by
        rw [Nat.ofDigitChars_append, Nat.ofDigitChars_append, Nat.ofDigitChars_replicate_zero]
        exact hvalue
      unfold ofLexeme
      rw [hzeros, hlength, hplaces]

/-- The decimal has digits behind its point, or is a natural number of sixty-four bits. -/
def FitsWord (d : Decimal) : Prop :=
  0 ≤ d.exponent → d.natural < 2 ^ 64

instance (d : Decimal) : Decidable d.FitsWord :=
  inferInstanceAs (Decidable (_ → _))

end Decimal

/-! ### Signs -/

/-- A double with a sign in front of it. -/
def withSign : Sign → Float → Float
  | .positive, v => v
  | .negative, v => -v

theorem unpack_neg (x : Float) : (-x).toModel.unpack = x.toModel.unpack.neg := by
  show (Float.Model.pack x.toModel.unpack.neg).unpack = _
  cases hx : x.toModel.unpack with
  | notANumber => exact unpack_pack_notANumber
  | infinity s => exact unpack_pack_infinity _
  | zero s => exact unpack_pack_zero _
  | finite s m q hm => exact unpack_pack_finite _ hm (canonical_of_unpack hx)

theorem unpack_abs (x : Float) : x.abs.toModel.unpack = x.toModel.unpack.abs := by
  show (Float.Model.pack x.toModel.unpack.abs).unpack = _
  cases hx : x.toModel.unpack with
  | notANumber => exact unpack_pack_notANumber
  | infinity s => exact unpack_pack_infinity _
  | zero s => exact unpack_pack_zero _
  | finite s m q hm => exact unpack_pack_finite _ hm (canonical_of_unpack hx)

/-! ### Parts of the text -/

/-- The sign and the decimal that the plain text of a finite double shows. -/
def shown? (x : Float) : Option (Sign × Decimal) :=
  match x.toModel.unpack with
  | .zero s => some (s, ⟨0, 0⟩)
  | .finite s m q _ => some (s, shortest .up m q)
  | _ => none

theorem parts_of_shown {x : Float} {s : Sign} {d : Decimal} (h : shown? x = some (s, d)) :
    (x.toModel.unpack = .zero s ∧ d = ⟨0, 0⟩) ∨
      ∃ m q hm, x.toModel.unpack = .finite s m q hm ∧ d = shortest .up m q := by
  unfold shown? at h
  split at h
  next hx =>
    cases h
    exact .inl ⟨hx, rfl⟩
  next hx =>
    cases h
    exact .inr ⟨_, _, _, hx, rfl⟩
  next => cases h

theorem plainChars_of_shown {x : Float} {s : Sign} {d : Decimal} (h : shown? x = some (s, d)) :
    plainChars x = signChars s ++ d.chars := by
  unfold plainChars
  rcases parts_of_shown h with ⟨hx, rfl⟩ | ⟨m, q, hm, hx, rfl⟩
  · rw [hx]
    rfl
  · rw [hx]

theorem eq_of_shown {x : Float} {s : Sign} {d : Decimal} (h : shown? x = some (s, d)) :
    withSign s d.toFloat = x := by
  refine eq_of_unpack_eq ?_
  rcases parts_of_shown h with ⟨hx, rfl⟩ | ⟨m, q, hm, hx, rfl⟩
  · have hzero : (⟨0, 0⟩ : Decimal).toFloat = 0 := rfl
    rw [hx, hzero]
    cases s with
    | positive => exact unpack_zero
    | negative =>
      rw [withSign, unpack_neg, unpack_zero]
      rfl
  · have hcanonical := canonical_of_unpack hx
    rw [hx, toFloat_shortest .up hcanonical]
    cases s with
    | positive => exact unpack_assemble hcanonical
    | negative =>
      rw [withSign, unpack_neg, unpack_assemble hcanonical]
      rfl

theorem isSome_shown? (x : Float) : (shown? x).isSome = x.isFinite := by
  show _ = x.toModel.unpack.isFinite
  unfold shown?
  cases x.toModel.unpack <;> rfl

theorem unpack_of_not_shown {x : Float} (h : shown? x = none) :
    x.toModel.unpack = .notANumber ∨ ∃ s, x.toModel.unpack = .infinity s := by
  unfold shown? at h
  cases hx : x.toModel.unpack with
  | notANumber => exact .inl rfl
  | infinity s => exact .inr ⟨s, rfl⟩
  | zero s | finite s m q hm => rw [hx] at h; cases h

theorem plainChars_of_notANumber {x : Float} (h : x.toModel.unpack = .notANumber) :
    plainChars x = ['N', 'a', 'N'] := by
  rw [plainChars, h]

theorem plainChars_of_infinity {x : Float} {s : Sign} (h : x.toModel.unpack = .infinity s) :
    plainChars x = signChars s ++ ['i', 'n', 'f'] := by
  rw [plainChars, h]

/-! ### Runs of characters -/

theorem takeWhile_append_of_head {p : Char → Bool} {cs tail : List Char} (hcs : ∀ c ∈ cs, p c = true)
    (htail : ∀ c ∈ tail.head?, p c = false) : (cs ++ tail).takeWhile p = cs := by
  rw [List.takeWhile_append_of_pos hcs]
  cases tail with
  | nil => rw [List.takeWhile_nil, List.append_nil]
  | cons c tail =>
    rw [List.takeWhile_cons_of_neg (by rw [htail c rfl]; exact Bool.false_ne_true), List.append_nil]

theorem dropWhile_append_of_head {p : Char → Bool} {cs tail : List Char} (hcs : ∀ c ∈ cs, p c = true)
    (htail : ∀ c ∈ tail.head?, p c = false) : (cs ++ tail).dropWhile p = tail := by
  rw [List.dropWhile_append_of_pos hcs]
  cases tail with
  | nil => rfl
  | cons c tail => rw [List.dropWhile_cons_of_neg (by rw [htail c rfl]; exact Bool.false_ne_true)]

theorem spanDigits_append {ds tail : List Char} (hds : ∀ c ∈ ds, c.isDigit = true)
    (htail : ∀ c ∈ tail.head?, c.isDigit = false) : spanDigits (ds ++ tail) = (ds, tail) := by
  rw [spanDigits, takeWhile_append_of_head hds htail, dropWhile_append_of_head hds htail]

theorem spanDigits_of_digits {ds : List Char} (hds : ∀ c ∈ ds, c.isDigit = true) :
    spanDigits ds = (ds, []) := by
  have h : spanDigits (ds ++ []) = (ds, []) := spanDigits_append hds nofun
  rwa [List.append_nil] at h

/-! ### Reading the text -/

theorem Decimal.chars_head (d : Decimal) : ∃ c cs, d.chars = c :: cs ∧ c.isDigit = true := by
  by_cases h : 0 ≤ d.exponent
  · obtain ⟨hne, hdigits, -⟩ := d.digits_of_natural h
    obtain ⟨c, cs, hcs⟩ := List.exists_cons_of_ne_nil hne
    exact ⟨c, cs, hcs, hdigits c (hcs ▸ List.mem_cons_self)⟩
  · obtain ⟨whole, fraction, hchars, hne, hwhole, -⟩ := d.chars_of_fraction (by omega)
    obtain ⟨c, cs, rfl⟩ := List.exists_cons_of_ne_nil hne
    exact ⟨c, _, hchars, hwhole c List.mem_cons_self⟩

theorem magnitude?_chars (d : Decimal) : magnitude? d.chars = some d.toFloat := by
  by_cases h : 0 ≤ d.exponent
  · obtain ⟨hne, hdigits, hvalue⟩ := d.digits_of_natural h
    have hspan : spanDigits d.chars = (d.chars, []) := spanDigits_of_digits hdigits
    have hlexeme : Decimal.ofLexeme d.chars [] 0 = ⟨d.natural, 0⟩ := by
      rw [Decimal.ofLexeme, List.append_nil, ← hvalue]
      rfl
    simp only [magnitude?, hspan, hlexeme, Decimal.toFloat_natural h]
    exact if_neg fun hempty => hne (List.isEmpty_iff.mp hempty.1)
  · obtain ⟨whole, fraction, hchars, hne, hwhole, hfraction, hlexeme⟩ :=
      d.chars_of_fraction (by omega)
    have hpoint : ∀ c ∈ ('.' :: fraction).head?, c.isDigit = false := by
      rintro c ⟨⟩
      rfl
    have hspan : spanDigits fraction = (fraction, []) := spanDigits_of_digits hfraction
    simp only [magnitude?, hchars, spanDigits_append hwhole hpoint, hspan, hlexeme]
    exact if_neg fun hempty => hne (List.isEmpty_iff.mp hempty.1)

theorem ofPlain?_signed (s : Sign) (d : Decimal) :
    ofPlain? (.ofList (signChars s ++ d.chars)) = some (withSign s d.toFloat) := by
  obtain ⟨c, cs, hcs, hc⟩ := d.chars_head
  have hread : magnitude? (c :: cs) = some d.toFloat := hcs ▸ magnitude?_chars d
  unfold ofPlain?
  rw [String.toList_ofList, hcs]
  cases s with
  | positive =>
    -- no other text starts with a digit
    dsimp only [signChars, List.nil_append]
    split
    case h_6 => exact hread
    all_goals next heq => cases heq; cases hc
  | negative =>
    dsimp only [signChars, List.cons_append, List.nil_append]
    split
    case h_4 heq =>
      cases heq
      rw [hread]
      rfl
    case h_6 h _ => exact absurd rfl (h _)
    all_goals next heq => cases heq <;> cases hc

/-- **Reading undoes writing**: the plain text of a double is read as the double. -/
theorem ofPlain?_plain (x : Float) : ofPlain? (plain x) = some x := by
  cases hshown : shown? x with
  | some shown =>
    obtain ⟨s, d⟩ := shown
    rw [plain, plainChars_of_shown hshown, ofPlain?_signed, eq_of_shown hshown]
  | none =>
    rcases unpack_of_not_shown hshown with hx | ⟨s, hx⟩
    · have hnan : (0 / 0 : Float) = x := eq_of_unpack_eq (by rw [hx]; rfl)
      rw [plain, plainChars_of_notANumber hx, ← hnan]
      rfl
    · have hinfinity : withSign s infinity = x := eq_of_unpack_eq (by rw [hx]; cases s <;> rfl)
      rw [plain, plainChars_of_infinity hx, ← hinfinity]
      cases s <;> rfl

theorem plain_injective : Function.Injective plain := by
  intro x y h
  rw [← Option.some_inj, ← ofPlain?_plain x, h, ofPlain?_plain y]

/-! ### The bound of natural numbers -/

theorem unpack_bound :
    (18446744073709551616 : Float).toModel.unpack = .finite .positive (2 ^ 52) 12 (by decide) := by
  rfl

theorem lt_iff_unpack (x y : Float) :
    x < y ↔ x.toModel.unpack.compare y.toModel.unpack = some .lt :=
  decide_eq_true_iff.trans beq_iff_eq

theorem abs_lt_bound_iff {x : Float} {s : Sign} {m : ℕ} {q : ℤ} {hm : 0 < m}
    (hx : x.toModel.unpack = .finite s m q hm) : x.abs < 18446744073709551616 ↔ q < 12 := by
  have hcanonical := canonical_of_unpack hx
  have hcompare : (UnpackedFloat.finite .positive m q hm).compare
      (.finite .positive (2 ^ 52) 12 (by decide)) =
        some ((compare q 12).then (compare m (2 ^ 52))) := rfl
  rw [lt_iff_unpack, unpack_abs, hx, unpack_bound]
  show (UnpackedFloat.finite .positive m q hm).compare _ = _ ↔ _
  rw [hcompare, Option.some_inj, Ordering.then_eq_lt, Int.compare_eq_lt, compare_eq_iff_eq,
    Nat.compare_eq_lt]
  have := hcanonical.leading
  omega

/-- A finite double is below two to the power of sixty-four exactly if its text has a point or shows
a natural number below that bound. -/
theorem abs_lt_iff_of_shown {x : Float} {s : Sign} {d : Decimal} (h : shown? x = some (s, d)) :
    x.abs < 18446744073709551616 ↔ d.FitsWord := by
  rcases parts_of_shown h with ⟨hx, rfl⟩ | ⟨m, q, hm, hx, rfl⟩
  · refine iff_of_true ?_ (by decide)
    rw [lt_iff_unpack, unpack_abs, hx, unpack_bound]
    rfl
  · have hcanonical := canonical_of_unpack hx
    rw [abs_lt_bound_iff hx]
    constructor
    · exact fun hq hnatural => natural_shortest_lt .up hcanonical hq hnatural
    · intro hfits
      by_contra hq
      have hlarge := le_natural_shortest hcanonical (by omega)
      have hleading := hcanonical.leading.resolve_right (by omega)
      have := hfits (exponent_shortest_of_large .up hleading (by omega))
      omega

end CircuitFrames.Numeral
