import CircuitFrames.Proofs.Text.Emitted

/-!
# What the pieces of a text stand for

The text of an operation is its name, its arguments and its targets. No two targets have one text
(`text_injective`), and arguments and targets are solid: they hold no character that parts one piece
from the next (`Solid.cancel`). Names do hold underscores, and some names begin with others, but what
stands behind a name never looks like the rest of a longer one (`name_cancel`).
-/

namespace CircuitFrames

open Numeral Text
open Float.Model.UnpackedFloat (Sign)

/-! ### Names -/

namespace Kind

/-- The names of operations that are supported. -/
def names : List String :=
  ["QUBIT_COORDS", "SHIFT_COORDS", "MPP", "TICK", "DETECTOR", "OBSERVABLE_INCLUDE"] ++
    SingleGate.all.map SingleGate.name ++ PairGate.all.map PairGate.name ++
    NoiseChannel.all.map NoiseChannel.name

theorem mem_names {name : String} (h : ofName name ≠ .unsupported) : name ∈ names := by
  have hfind {α : Type} {all : List α} {label : α → String} {a : α}
      (h : all.find? (fun x => label x == name) = some a) : name ∈ all.map label := by
    have hname : label a = name := by simpa using List.find?_some h
    exact List.mem_map.mpr ⟨a, List.mem_of_find?_eq_some h, hname⟩
  unfold ofName at h
  unfold names
  rw [List.mem_append, List.mem_append, List.mem_append]
  split at h
  case h_7 =>
    split at h
    next hgate => exact .inl (.inl (.inr (hfind hgate)))
    next hgate => exact .inl (.inr (hfind hgate))
    next hchannel => exact .inr (hfind hchannel)
    next => exact absurd rfl h
  all_goals exact .inl (.inl (.inl (by decide)))

end Kind

namespace Text

/-- What is left may be the rest of a name that started before it. -/
def continuesName : List Char → Bool
  | '_' :: c :: d :: _ => c.isUpper && d.isUpper
  | c :: _ => c.isUpper
  | [] => false

theorem continuesName_of_ne {c : Char} (hc : c ≠ '_') (cs : List Char) :
    continuesName (c :: cs) = c.isUpper := by
  unfold continuesName
  split
  case h_1 heq => exact absurd (List.cons.inj heq).1 hc
  case h_2 heq => rw [(List.cons.inj heq).1]
  case h_3 heq => cases heq

theorem continuesName_append {cs : List Char} (h : continuesName cs = true) (more : List Char) :
    continuesName (cs ++ more) = true := by
  cases cs with
  | nil => cases h
  | cons c cs =>
    by_cases hc : c = '_'
    · subst hc
      match cs, h with
      | c :: d :: cs, h => exact h
    · rw [continuesName_of_ne hc] at h
      rw [List.cons_append, continuesName_of_ne hc, h]

/-- A name that goes on behind another name goes on with a capital letter, or with an underscore and
two capital letters. -/
theorem continuesName_of_names : ∀ n ∈ Kind.names, ∀ n' ∈ Kind.names,
    n.toList <+: n'.toList → n = n' ∨ continuesName (n'.toList.drop n.toList.length) = true := by
  decide +kernel

theorem name_eq_of_longer {n n' : String} (hn : n ∈ Kind.names) (hn' : n' ∈ Kind.names)
    {more tail : List Char} (hlonger : n'.toList = n.toList ++ more)
    (htail : continuesName (more ++ tail) = false) : n = n' := by
  refine (continuesName_of_names n hn n' hn' ⟨more, hlonger.symm⟩).resolve_right fun hmore => ?_
  rw [hlonger, List.drop_left] at hmore
  rw [continuesName_append hmore] at htail
  cases htail

theorem name_cancel {n n' : String} (hn : n ∈ Kind.names) (hn' : n' ∈ Kind.names)
    {tail tail' : List Char} (htail : continuesName tail = false)
    (htail' : continuesName tail' = false) (h : n.toList ++ tail = n'.toList ++ tail') :
    n = n' ∧ tail = tail' := by
  have hname : n = n' := by
    rcases List.append_eq_append_iff.mp h with ⟨more, hlonger, rfl⟩ | ⟨more, hlonger, rfl⟩
    · exact name_eq_of_longer hn hn' hlonger htail
    · exact (name_eq_of_longer hn' hn hlonger htail').symm
  subst hname
  exact ⟨rfl, List.append_cancel_left h⟩

/-! ### Targets -/

theorem naturalToken_inj {m n : ℕ} (hm : m < UInt64.size) (hn : n < UInt64.size)
    (h : naturalToken m = naturalToken n) : m = n := by
  have h := congrArg UInt64.toNat (Token.integer.inj h)
  rwa [UInt64.toNat_ofNat_of_lt' hm, UInt64.toNat_ofNat_of_lt' hn] at h

theorem qubit_of_token {q q' : Qubit} (h : naturalToken q.toNat = naturalToken q'.toNat) : q = q' :=
  have hsize (q : Qubit) : q.toNat < UInt64.size := q.toNat_lt.trans (by decide)
  UInt32.toNat_inj.mp (naturalToken_inj (hsize q) (hsize q') h)

theorem pauliWord_inj {p p' : Pauli} {q q' : Qubit} (h : pauliWord p q = pauliWord p' q') :
    p = p' ∧ q = q' := by
  have h := String.ofList_injective h
  obtain ⟨hletter, hdigits⟩ := List.cons.inj h
  constructor
  · have := congrArg Pauli.ofLetter? hletter
    rwa [Pauli.ofLetter?_letter, Pauli.ofLetter?_letter, Option.some.injEq] at this
  · rw [← UInt32.toNat_inj, ← Nat.ofDigitChars_ten_toDigits (n := q.toNat), hdigits,
      Nat.ofDigitChars_ten_toDigits]

theorem bangTokens_injective : Function.Injective bangTokens := by
  intro a b h
  cases a <;> cases b <;> first | rfl | cases h

theorem offsetTokens_inj {k k' : Int32} (h : offsetTokens k.toInt = offsetTokens k'.toInt) :
    k = k' := by
  have hparts : (k.toInt < 0 ↔ k'.toInt < 0) ∧
      naturalToken k.toInt.natAbs = naturalToken k'.toInt.natAbs := by
    unfold offsetTokens at h
    split_ifs at h with hk hk' hk'
    · exact ⟨iff_of_true hk hk', (List.cons.inj (List.cons.inj h).2).1⟩
    · cases h
    · cases h
    · exact ⟨iff_of_false hk hk', (List.cons.inj h).1⟩
  have hnatural := naturalToken_inj (natAbs_lt_size k) (natAbs_lt_size k') hparts.2
  rw [← Int32.toInt_inj]
  omega

/-- The last token of a target, which tells of what sort the target is. -/
def lastToken : Target → Token
  | .qubit q _ => naturalToken q.toNat
  | .pauli p q _ => .word (pauliWord p q)
  | .record _ => .rightBracket
  | .combiner => .star

theorem getLast?_targetTokens (t : Target) : (targetTokens t).getLast? = some (lastToken t) := by
  cases t with
  | qubit q inverted => exact List.getLast?_concat
  | pauli p q inverted => exact List.getLast?_concat
  | record k => exact List.getLast?_concat (l := .word "rec" :: .leftBracket :: offsetTokens k.toInt)
  | combiner => rfl

theorem targetTokens_injective : Function.Injective targetTokens := by
  intro t t' h
  have hlast : lastToken t = lastToken t' := by
    rw [← Option.some_inj, ← getLast?_targetTokens, h, getLast?_targetTokens]
  cases t with
  | qubit q inverted =>
    cases t' with
    | qubit q' inverted' =>
      obtain rfl := qubit_of_token hlast
      rw [bangTokens_injective (List.append_cancel_right h)]
    | _ => cases hlast
  | pauli p q inverted =>
    cases t' with
    | pauli p' q' inverted' =>
      obtain ⟨rfl, rfl⟩ := pauliWord_inj (Token.word.inj hlast)
      rw [bangTokens_injective (List.append_cancel_right h)]
    | _ => cases hlast
  | record k =>
    cases t' with
    | record k' =>
      have h := List.append_cancel_right (List.cons.inj (List.cons.inj h).2).2
      rw [offsetTokens_inj h]
    | _ => cases hlast
  | combiner =>
    cases t' with
    | combiner => rfl
    | _ => cases hlast

theorem text_injective : Function.Injective Target.text := by
  intro t t' h
  have hscanned (t : Target) : scanned t.text.toList = some (targetTokens t) := by
    have hclosed : Closed [] := nofun
    have hread := (reads_target t hclosed).read trivial
    rwa [List.append_nil, scanned_nil, Option.map_some, List.append_nil] at hread
  refine targetTokens_injective ?_
  rw [← Option.some_inj, ← hscanned, h, hscanned]

/-! ### Solid pieces -/

/-- The characters that part the pieces of an operation, in its text or in a link. -/
def separates (c : Char) : Bool :=
  c == ' ' || c == '_' || c == ',' || c == '(' || c == ')' || c == '*' || c == ';'

/-- A piece that no separator parts. -/
def Solid (cs : List Char) : Prop :=
  ∀ c ∈ cs, separates c = false

instance (cs : List Char) : Decidable (Solid cs) :=
  List.decidableBAll _ cs

/-- What is left starts with a separator, or nothing is left. -/
def Parted (cs : List Char) : Prop :=
  ∀ c ∈ cs.head?, separates c = true

theorem separates_of_isDigit {c : Char} (h : c.isDigit = true) : separates c = false := by
  by_contra hc
  simp only [separates, Bool.not_eq_false, Bool.or_eq_true, beq_iff_eq] at hc
  rcases hc with (((((rfl | rfl) | rfl) | rfl) | rfl) | rfl) | rfl <;> exact absurd h (by decide)

namespace Solid

variable {cs cs' tail tail' : List Char}

theorem nil : Solid [] := nofun

theorem cons {c : Char} (hc : separates c = false) (h : Solid cs) : Solid (c :: cs) :=
  List.forall_mem_cons.mpr ⟨hc, h⟩

theorem append (h : Solid cs) (h' : Solid cs') : Solid (cs ++ cs') :=
  List.forall_mem_append.mpr ⟨h, h'⟩

theorem digits (n : ℕ) : Solid (Nat.toDigits 10 n) :=
  fun _ hc => separates_of_isDigit (isDigit_of_mem_toDigits hc)

/-- Solid pieces in front of separators are told apart. -/
theorem cancel (h : Solid cs) (h' : Solid cs') (htail : Parted tail) (htail' : Parted tail')
    (heq : cs ++ tail = cs' ++ tail') : cs = cs' ∧ tail = tail' := by
  have hrun {cs : List Char} (h : Solid cs) : ∀ c ∈ cs, (!separates c) = true := by
    intro c hc
    rw [h c hc]
    rfl
  have hstop {tail : List Char} (h : Parted tail) : ∀ c ∈ tail.head?, (!separates c) = false := by
    intro c hc
    rw [h c hc]
    rfl
  constructor
  · rw [← takeWhile_append_of_head (hrun h) (hstop htail), heq,
      takeWhile_append_of_head (hrun h') (hstop htail')]
  · rw [← dropWhile_append_of_head (hrun h) (hstop htail), heq,
      dropWhile_append_of_head (hrun h') (hstop htail')]

end Solid

theorem solid_chars (d : Decimal) : Solid d.chars := by
  by_cases h : 0 ≤ d.exponent
  · exact fun c hc => separates_of_isDigit ((d.digits_of_natural h).2.1 c hc)
  · obtain ⟨whole, fraction, hchars, -, hwhole, hfraction, -⟩ := d.chars_of_fraction (by omega)
    rw [hchars]
    exact .append (fun c hc => separates_of_isDigit (hwhole c hc))
      (.cons rfl fun c hc => separates_of_isDigit (hfraction c hc))

theorem solid_sign (s : Sign) : Solid (signChars s) := by
  cases s with
  | positive => exact .nil
  | negative => exact .cons rfl .nil

theorem solid_plain (x : Float) : Solid (plain x).toList := by
  rw [plain, String.toList_ofList]
  cases hshown : shown? x with
  | some shown =>
    rw [plainChars_of_shown hshown]
    exact (solid_sign _).append (solid_chars _)
  | none =>
    rcases unpack_of_not_shown hshown with hx | ⟨s, hx⟩
    · rw [plainChars_of_notANumber hx]
      decide
    · rw [plainChars_of_infinity hx]
      exact (solid_sign s).append (by decide)

theorem solid_text {t : Target} (ht : t ≠ .combiner) : Solid t.text.toList := by
  have hbang (inverted : Bool) : Solid (Target.bang inverted).toList := by
    cases inverted <;> decide
  cases t with
  | qubit q inverted =>
    rw [Target.text, String.toList_append, toList_toString]
    exact (hbang inverted).append (.digits _)
  | pauli p q inverted =>
    have hletter : Solid p.letter.toString.toList := by cases p <;> decide
    rw [Target.text, String.toList_append, String.toList_append, toList_toString]
    exact ((hbang inverted).append hletter).append (.digits _)
  | record k =>
    have hoffset : Solid (toString k.toInt).toList := by
      cases k.toInt with
      | ofNat n =>
        show Solid (toString n).toList
        rw [toList_toString]
        exact .digits n
      | negSucc n =>
        rw [toList_negSucc, toList_toString]
        exact .cons rfl (.digits _)
    rw [Target.text, String.toList_append, String.toList_append]
    exact (Solid.append (by decide) hoffset).append (by decide)
  | combiner => exact absurd rfl ht

theorem text_start {t : Target} (ht : t ≠ .combiner) :
    ∃ c cs, t.text.toList = c :: cs ∧
      (c.isUpper = true → ∃ d ds, cs = d :: ds ∧ d.isUpper = false) := by
  have hdigits (n : ℕ) : ∃ d ds, Nat.toDigits 10 n = d :: ds ∧ d.isUpper = false := by
    obtain ⟨d, ds, hds⟩ := List.exists_cons_of_ne_nil (Nat.toDigits_ne_nil (b := 10) (n := n))
    have hd : startsWord d = false :=
      startsWord_of_isDigit (isDigit_of_mem_toDigits (hds ▸ List.mem_cons_self))
    simp only [startsWord, Char.isAlpha, Bool.or_eq_false_iff] at hd
    exact ⟨d, ds, hds, hd.1.1⟩
  cases t with
  | qubit q inverted =>
    obtain ⟨d, ds, hds, hd⟩ := hdigits q.toNat
    rw [Target.text, String.toList_append, toList_toString, hds]
    cases inverted with
    | false => exact ⟨d, ds, rfl, fun h => by rw [hd] at h; cases h⟩
    | true => exact ⟨'!', d :: ds, rfl, fun h => absurd h (by decide)⟩
  | pauli p q inverted =>
    obtain ⟨d, ds, hds, hd⟩ := hdigits q.toNat
    have hletter : p.letter.toString.toList = [p.letter] := by cases p <;> rfl
    rw [Target.text, String.toList_append, String.toList_append, toList_toString, hds, hletter]
    cases inverted with
    | false => exact ⟨p.letter, d :: ds, rfl, fun _ => ⟨d, ds, rfl, hd⟩⟩
    | true => exact ⟨'!', p.letter :: d :: ds, rfl, fun h => absurd h (by decide)⟩
  | record k =>
    rw [Target.text, String.toList_append, String.toList_append]
    exact ⟨'r', _, rfl, fun h => absurd h (by decide)⟩
  | combiner => exact absurd rfl ht

theorem not_continuesName_underscore {c : Char} {cs : List Char}
    (h : c.isUpper = true → ∃ d ds, cs = d :: ds ∧ d.isUpper = false) (more : List Char) :
    continuesName ('_' :: (c :: cs ++ more)) = false := by
  cases hc : c.isUpper with
  | true =>
    obtain ⟨d, ds, rfl, hd⟩ := h hc
    show (c.isUpper && d.isUpper) = false
    rw [hd, Bool.and_false]
  | false =>
    cases hmore : cs ++ more with
    | nil => rw [List.cons_append, hmore]; rfl
    | cons d ds =>
      rw [List.cons_append, hmore]
      show (c.isUpper && d.isUpper) = false
      rw [hc, Bool.false_and]

end Text

end CircuitFrames
