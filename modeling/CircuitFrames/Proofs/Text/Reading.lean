import CircuitFrames.Text.Parser
import CircuitFrames.Proofs.Circuit.Execution
import CircuitFrames.Proofs.Text.Emitted

/-!
# Reading tokens

`Takes` says as rules what `block` takes off the front of tokens (`takes_of_block`,
`block_of_takes`). The tokens of a circuit are taken as that circuit, and only if its arguments are
finite: the word for an infinite one is no number (`takes_tokens_iff`).
-/

namespace CircuitFrames.Text

open Numeral
open Float.Model.UnpackedFloat (Sign)

/-! ### Blocks as rules -/

/-- In a nested block or not, the tokens of a line on start with those of a circuit, after which
reading stops at another line and other tokens. -/
inductive Takes : Bool → Nat → List Token → Circuit → Nat → List Token → Prop
  | atEnd {line : Nat} : Takes false line [] .nil line []
  | brace {line : Nat} {rest : List Token} : Takes true line (.rightBrace :: rest) .nil line rest
  | newline {nested : Bool} {line l : Nat} {rest r : List Token} {c : Circuit}
    (h : Takes nested (line + 1) rest c l r) : Takes nested line (.newline :: rest) c l r
  | operation {nested : Bool} {line l : Nat} {ts rest r : List Token} {o : Operation} {c : Circuit}
    (first : instruction line ts = .ok (.operation o, rest)) (h : Takes nested line rest c l r) :
    Takes nested line ts (.op o c) l r
  | opening {nested : Bool} {line l' l : Nat} {ts rest r' r : List Token} {count : UInt64}
    {body c : Circuit} (first : instruction line ts = .ok (.opening count, rest))
    (inner : Takes true line rest body l' r') (runs : count ≠ 0) (h : Takes nested l' r' c l r) :
    Takes nested line ts (.repeated count body c) l r

theorem takes_of_block {nested : Bool} {line : Nat} {ts : List Token} {b : Block ts}
    (h : block nested line ts = .ok b) : Takes nested line ts b.circuit b.line b.rest := by
  induction hn : ts.length using Nat.strong_induction_on generalizing nested line ts with
  | _ n ih =>
    subst hn
    rw [block.eq_def] at h
    split at h
    next =>
      split at h
      next => cases h
      next hnested =>
        cases h
        rw [Bool.eq_false_iff.mpr hnested]
        exact .atEnd
    next rest =>
      split at h
      next hnested =>
        cases h
        rw [hnested]
        exact .brace
      next => cases h
    next rest =>
      split at h
      next b' hb =>
        cases h
        exact .newline (ih _ (Nat.lt_succ_self _) hb rfl)
      next => cases h
    next =>
      split at h
      next => cases h
      next o rest first =>
        have hlength := instruction_length first
        split at h
        next b' hb =>
          cases h
          exact .operation first (ih _ hlength hb rfl)
        next => cases h
      next count rest first =>
        have hlength := instruction_length first
        split at h
        next => cases h
        next body hbody =>
          have hrest := body.rest_le
          split at h
          next => cases h
          next hcount =>
            split at h
            next b' hb =>
              cases h
              exact .opening first (ih _ hlength hbody rfl) hcount
                (ih _ (hrest.trans_lt hlength) hb rfl)
            next => cases h

theorem instruction_head {line : Nat} {ts : List Token} {p : Instruction × List Token}
    (h : instruction line ts = .ok p) : ∃ w rest, ts = .word w :: rest := by
  unfold instruction at h
  split at h
  next w rest => exact ⟨w, rest, rfl⟩
  next => cases h
  next => cases h

theorem block_of_takes {nested : Bool} {line l : Nat} {ts r : List Token} {c : Circuit}
    (h : Takes nested line ts c l r) :
    ∃ b, block nested line ts = .ok b ∧ b.circuit = c ∧ b.line = l ∧ b.rest = r := by
  induction h with
  | atEnd =>
    rw [block]
    exact ⟨_, rfl, rfl, rfl, rfl⟩
  | brace =>
    rw [block]
    exact ⟨_, rfl, rfl, rfl, rfl⟩
  | newline h ih =>
    obtain ⟨b, hb, rfl, rfl, rfl⟩ := ih
    rw [block, hb]
    exact ⟨_, rfl, rfl, rfl, rfl⟩
  | operation first h ih =>
    obtain ⟨b, hb, rfl, rfl, rfl⟩ := ih
    obtain ⟨w, ts, rfl⟩ := instruction_head first
    rw [block.eq_def]
    dsimp only
    split
    next heq => cases first.symm.trans heq
    next heq =>
      cases first.symm.trans heq
      rw [hb]
      exact ⟨_, rfl, rfl, rfl, rfl⟩
    next heq => cases first.symm.trans heq
  | opening first inner runs h ihinner ih =>
    obtain ⟨body, hbody, rfl, rfl, rfl⟩ := ihinner
    obtain ⟨b, hb, rfl, rfl, rfl⟩ := ih
    obtain ⟨w, ts, rfl⟩ := instruction_head first
    rw [block.eq_def]
    dsimp only
    split
    next heq => cases first.symm.trans heq
    next heq => cases first.symm.trans heq
    next heq =>
      cases first.symm.trans heq
      rw [hbody]
      dsimp only
      rw [if_neg runs, hb]
      exact ⟨_, rfl, rfl, rfl, rfl⟩

theorem parse_eq_ok_iff {source : String} {c : Circuit} :
    parse source = .ok c ↔
      ∃ ts l r, scan source.toList = .ok ts ∧ Takes false 1 ts c l r := by
  unfold parse tokenize parseTokens
  dsimp only
  cases hscan : scan source.toList with
  | error u =>
    constructor
    · exact nofun
    · rintro ⟨ts, l, r, h, -⟩
      cases h
  | ok ts =>
    constructor
    · intro h
      obtain ⟨b, hb, rfl⟩ := map_eq_ok.mp h
      exact ⟨ts, _, _, rfl, takes_of_block hb⟩
    · rintro ⟨ts', l, r, h, htakes⟩
      cases h
      obtain ⟨b, hb, hc, -, -⟩ := block_of_takes htakes
      exact map_eq_ok.mpr ⟨b, hb, hc⟩

/-! ### Arguments -/

theorem unsigned_decimalShown (line : Nat) {d : Decimal} (hfits : d.FitsWord) (rest : List Token) :
    unsigned line (decimalShown d :: rest) = .ok (d.toFloat, rest) := by
  unfold decimalShown
  by_cases hnatural : 0 ≤ d.exponent
  · have hsize : d.natural < 2 ^ 64 := hfits hnatural
    rw [if_pos hnatural]
    show Except.ok (Decimal.toFloat ⟨(UInt64.ofNat d.natural).toNat, 0⟩, rest) = _
    rw [UInt64.toNat_ofNat_of_lt' hsize, Decimal.toFloat_natural hnatural]
  · rw [if_neg hnatural]
    rfl

theorem signed_minus (line : Nat) (ts : List Token) :
    signed line (.minus :: ts) = (unsigned line ts).map fun p => (-p.1, p.2) := by
  unfold signed
  dsimp only
  cases unsigned line ts <;> rfl

theorem signed_decimalShown (line : Nat) (s : Sign) {d : Decimal} (hfits : d.FitsWord)
    (rest : List Token) :
    signed line (signTokens s ++ decimalShown d :: rest) = .ok (withSign s d.toFloat, rest) := by
  cases s with
  | positive =>
    have hsigned : signed line (decimalShown d :: rest) = unsigned line (decimalShown d :: rest) := by
      unfold decimalShown
      split <;> rfl
    exact hsigned.trans (unsigned_decimalShown line hfits rest)
  | negative =>
    show signed line (.minus :: decimalShown d :: rest) = _
    rw [signed_minus, unsigned_decimalShown line hfits]
    rfl

theorem signed_argument_iff {line : Nat} {x : Float} (hfits : Fits x) {rest : List Token}
    {p : Float × List Token} :
    signed line (argumentTokens x ++ rest) = .ok p ↔ x.isFinite = true ∧ p = (x, rest) := by
  unfold argumentTokens
  rw [← isSome_shown?]
  cases hshown : shown? x with
  | some shown =>
    obtain ⟨s, d⟩ := shown
    dsimp only
    rw [List.append_assoc, List.singleton_append, signed_decimalShown line s (hfits s d hshown),
      eq_of_shown hshown, Except.ok.injEq]
    exact ⟨fun h => ⟨rfl, h.symm⟩, fun h => h.2.symm⟩
  | none =>
    refine ⟨fun h => ?_, fun h => absurd h.1 Bool.false_ne_true⟩
    rcases unpack_of_not_shown hshown with hx | ⟨s, hx⟩
    · rw [hx] at h
      cases h
    · rw [hx] at h
      cases s with
      | positive => cases h
      | negative =>
        have h : signed line (.minus :: .word "inf" :: rest) = .ok p := h
        rw [signed_minus] at h
        cases h

/-- Takes what stands behind a number: the closing bracket, or a comma and further numbers. -/
def furtherNumbers (line : Nat) (v : Float) : List Token → Except ParseError (List Float × List Token)
  | .rightParen :: rest => .ok ([v], rest)
  | .comma :: rest => (numbers line rest).map fun x => (v :: x.1, x.2)
  | t :: _ => .error (unexpected line (.token .comma) t)
  | [] => .error (.unexpectedEnd (.token .comma))

theorem numbers_eq (line : Nat) (ts : List Token) :
    numbers line ts = signed line ts >>= fun x => furtherNumbers line x.1 x.2 := by
  rw [numbers.eq_def]
  split
  next e h =>
    rw [h]
    rfl
  next v rest h =>
    rw [h]
    rfl
  next v rest h =>
    rw [h]
    show _ = (numbers line rest).map fun x => (v :: x.1, x.2)
    cases numbers line rest <;> rfl
  next v t rest hparen hcomma h =>
    rw [h]
    show _ = furtherNumbers line v (t :: rest)
    unfold furtherNumbers
    split
    next heq =>
      cases heq
      exact (hparen rfl).elim
    next heq =>
      cases heq
      exact (hcomma rfl).elim
    next heq =>
      cases heq
      rfl
    next heq => cases heq
  next v h =>
    rw [h]
    rfl

theorem numbers_eq_ok_iff {line : Nat} {ts rest : List Token} {vs : List Float} :
    numbers line ts = .ok (vs, rest) ↔
      (∃ v, signed line ts = .ok (v, .rightParen :: rest) ∧ vs = [v]) ∨
        ∃ v more ws, signed line ts = .ok (v, .comma :: more) ∧ numbers line more = .ok (ws, rest) ∧
          vs = v :: ws := by
  rw [numbers_eq, bind_eq_ok]
  constructor
  · rintro ⟨⟨v, after⟩, hv, h⟩
    cases after with
    | nil => cases h
    | cons t more =>
      cases t with
      | rightParen =>
        cases h
        exact .inl ⟨v, hv, rfl⟩
      | comma =>
        obtain ⟨⟨ws, rest⟩, hws, heq⟩ := map_eq_ok.mp h
        cases heq
        exact .inr ⟨v, more, ws, hv, hws, rfl⟩
      | _ => cases h
  · rintro (⟨v, hv, rfl⟩ | ⟨v, more, ws, hv, hws, rfl⟩)
    · exact ⟨_, hv, rfl⟩
    · exact ⟨_, hv, map_eq_ok.mpr ⟨_, hws, rfl⟩⟩

theorem numbers_arguments_iff {line : Nat} {x : Float} {xs : List Float}
    (hfits : ∀ y ∈ x :: xs, Fits y) {rest : List Token} {p : List Float × List Token} :
    numbers line (argumentTokens x ++ (furtherTokens xs ++ .rightParen :: rest)) = .ok p ↔
      (∀ y ∈ x :: xs, y.isFinite = true) ∧ p = (x :: xs, rest) := by
  obtain ⟨vs, after⟩ := p
  induction xs generalizing x vs with
  | nil =>
    have hx := hfits x List.mem_cons_self
    rw [numbers_eq_ok_iff]
    constructor
    · rintro (⟨v, hv, rfl⟩ | ⟨v, more, ws, hv, -, -⟩)
      · obtain ⟨hfinite, heq⟩ := (signed_argument_iff hx).mp hv
        cases heq
        exact ⟨List.forall_mem_singleton.mpr hfinite, rfl⟩
      · cases ((signed_argument_iff hx).mp hv).2
    · rintro ⟨hfinite, heq⟩
      cases heq
      exact .inl ⟨x, (signed_argument_iff hx).mpr ⟨hfinite x List.mem_cons_self, rfl⟩, rfl⟩
  | cons y ys ih =>
    obtain ⟨hx, hfits⟩ := List.forall_mem_cons.mp hfits
    have hsplit : furtherTokens (y :: ys) ++ .rightParen :: rest =
        .comma :: (argumentTokens y ++ (furtherTokens ys ++ .rightParen :: rest)) := by
      simp [furtherTokens]
    rw [numbers_eq_ok_iff, hsplit]
    constructor
    · rintro (⟨v, hv, -⟩ | ⟨v, more, ws, hv, hws, rfl⟩)
      · cases ((signed_argument_iff hx).mp hv).2
      · obtain ⟨hfinite, heq⟩ := (signed_argument_iff hx).mp hv
        cases heq
        obtain ⟨hmore, heq⟩ := (ih hfits _).mp hws
        cases heq
        exact ⟨List.forall_mem_cons.mpr ⟨hfinite, hmore⟩, rfl⟩
    · rintro ⟨hfinite, heq⟩
      cases heq
      obtain ⟨hfinite, hmore⟩ := List.forall_mem_cons.mp hfinite
      exact .inr ⟨x, _, _, (signed_argument_iff hx).mpr ⟨hfinite, rfl⟩, (ih hfits _).mpr ⟨hmore, rfl⟩,
        rfl⟩

theorem arguments_of_paren (line : Nat) {t : Token} (ht : t ≠ .rightParen) (ts : List Token) :
    arguments line (.leftParen :: t :: ts) = numbers line (t :: ts) := by
  unfold arguments
  split
  next heq =>
    cases heq
    exact absurd rfl ht
  next heq =>
    cases heq
    rfl
  next h => exact absurd rfl (h _)

theorem signTokens_head (s : Sign) {t : Token} (ht : t ≠ .rightParen) :
    ∃ first ts, signTokens s ++ [t] = first :: ts ∧ first ≠ .rightParen := by
  cases s with
  | positive => exact ⟨t, [], rfl, ht⟩
  | negative => exact ⟨.minus, [t], rfl, nofun⟩

theorem argumentTokens_head (x : Float) :
    ∃ first ts, argumentTokens x = first :: ts ∧ first ≠ .rightParen := by
  have hdecimal (d : Decimal) : decimalShown d ≠ .rightParen := by
    unfold decimalShown
    split <;> nofun
  unfold argumentTokens
  split
  next => exact signTokens_head _ (hdecimal _)
  next => exact signTokens_head _ nofun
  next => exact ⟨_, _, rfl, nofun⟩

theorem arguments_iff {line : Nat} {xs : List Float} (hfits : ∀ y ∈ xs, Fits y) {rest : List Token}
    (hrest : rest.head? ≠ some .leftParen) {p : List Float × List Token} :
    arguments line (argumentsTokens xs ++ rest) = .ok p ↔
      (∀ y ∈ xs, y.isFinite = true) ∧ p = (xs, rest) := by
  cases xs with
  | nil =>
    have hnone : arguments line rest = .ok ([], rest) := by
      unfold arguments
      split
      next => exact absurd rfl hrest
      next => exact absurd rfl hrest
      next => rfl
    show arguments line rest = .ok p ↔ _
    rw [hnone, Except.ok.injEq]
    exact ⟨fun h => ⟨fun _ h => absurd h List.not_mem_nil, h.symm⟩, fun h => h.2.symm⟩
  | cons x xs =>
    obtain ⟨t, ts, hts, ht⟩ := argumentTokens_head x
    have hparen : arguments line (argumentsTokens (x :: xs) ++ rest) =
        numbers line (argumentTokens x ++ (furtherTokens xs ++ .rightParen :: rest)) := by
      rw [hts]
      simp only [argumentsTokens, hts, List.cons_append, List.append_assoc, List.nil_append]
      exact arguments_of_paren line ht _
    rw [hparen, numbers_arguments_iff hfits]

/-! ### Targets -/

theorem qubitOf_toNat (line : Nat) (q : Qubit) : qubitOf line q.toNat = .ok q := by
  unfold qubitOf
  rw [if_pos q.toNat_lt, UInt32.ofNat_toNat]

theorem uprightTarget_natural (line : Nat) (q : Qubit) (rest : List Token) :
    uprightTarget line (naturalToken q.toNat) rest = .ok (.qubit q false, rest) := by
  have hsize : q.toNat < UInt64.size := q.toNat_lt.trans (by decide)
  unfold naturalToken uprightTarget numberOf
  dsimp only
  rw [UInt64.toNat_ofNat_of_lt' hsize, qubitOf_toNat]

theorem pauliOf_pauliWord (line : Nat) (p : Pauli) (q : Qubit) :
    pauliOf line (pauliWord p q) = .ok (.pauli p q false) := by
  have hvalue : digitValue (Nat.toDigits 10 q.toNat) = q.toNat := Nat.ofDigitChars_ten_toDigits
  have hsize : q.toNat < UInt64.size := q.toNat_lt.trans (by decide)
  have hdigits : (Nat.toDigits 10 q.toNat).all Char.isDigit = true :=
    List.all_eq_true.mpr fun _ => isDigit_of_mem_toDigits
  unfold pauliOf pauliWord
  rw [String.toList_ofList]
  dsimp only
  rw [Pauli.ofLetter?_letter]
  dsimp only
  rw [hvalue, if_pos ⟨Nat.toDigits_ne_nil, hdigits, hsize⟩, qubitOf_toNat]

theorem uprightTarget_pauli (line : Nat) (p : Pauli) (q : Qubit) (rest : List Token) :
    uprightTarget line (.word (pauliWord p q)) rest = .ok (.pauli p q false, rest) := by
  have hword : pauliWord p q ≠ "rec" := by
    intro h
    have hlist := congrArg String.toList h
    rw [pauliWord, String.toList_ofList] at hlist
    have hletter := (List.cons.inj hlist).1
    cases p <;> exact absurd hletter (by decide)
  unfold uprightTarget
  dsimp only
  rw [if_neg hword, pauliOf_pauliWord]

theorem recordOf_neg (line : Nat) {k : Int32} (hk : k < 0) :
    recordOf line true k.toInt.natAbs = .ok (.record k) := by
  have hneg : k.toInt < 0 := Int32.lt_iff_toInt_lt.mp hk
  have hleast := k.le_toInt
  have hfits : (k.toInt.natAbs : Int) ≤ Int64.maxValue.toInt := by
    show _ ≤ 9223372036854775807
    omega
  have hoffset : -(k.toInt.natAbs : Int) = k.toInt := by omega
  have hlookback : Target.lookback k.toInt = .ok (.record k) := by
    unfold Target.lookback
    rw [if_pos ⟨k.minValue_le_toInt, hneg⟩, Int32.ofInt_toInt]
  unfold recordOf
  rw [if_pos hfits, if_pos rfl, hoffset, hlookback]

theorem expect_self (line : Nat) (t : Token) (rest : List Token) :
    expect line t (t :: rest) = .ok rest :=
  if_pos rfl

theorem uprightTarget_record (line : Nat) {k : Int32} (hk : k < 0) (rest : List Token) :
    uprightTarget line (.word "rec")
      (.leftBracket :: (offsetTokens k.toInt ++ .rightBracket :: rest)) = .ok (.record k, rest) := by
  have hneg : k.toInt < 0 := Int32.lt_iff_toInt_lt.mp hk
  have hleast := k.le_toInt
  have hsize : k.toInt.natAbs < UInt64.size := by
    show _ < 18446744073709551616
    omega
  unfold uprightTarget
  dsimp only
  rw [if_pos rfl, offsetTokens, if_pos hneg, naturalToken]
  simp only [record, bind, Except.bind, expect_self, List.cons_append, List.nil_append, integer,
    UInt64.toNat_ofNat_of_lt' hsize, recordOf_neg line hk]
  rfl

theorem target_bang {line : Nat} {ts rest : List Token} {t : Target}
    (ht : t.touched?.isSome = true) (h : target line ts = .ok (t, rest)) :
    target line (.bang :: ts) = .ok (t.inverted, rest) := by
  rw [target, h]
  cases t with
  | qubit q inverted | pauli p q inverted => rfl
  | record k | combiner => cases ht

theorem target_tokens (line : Nat) {t : Target} (hlookback : ∀ k, t = .record k → k < 0)
    (rest : List Token) : target line (targetTokens t ++ rest) = .ok (t, rest) := by
  cases t with
  | qubit q inverted =>
    have h : target line (naturalToken q.toNat :: rest) = .ok (.qubit q false, rest) :=
      uprightTarget_natural line q rest
    cases inverted with
    | false => exact h
    | true => exact target_bang rfl h
  | pauli p q inverted =>
    have h : target line (.word (pauliWord p q) :: rest) = .ok (.pauli p q false, rest) :=
      uprightTarget_pauli line p q rest
    cases inverted with
    | false => exact h
    | true => exact target_bang rfl h
  | record k =>
    have h := uprightTarget_record line (hlookback k rfl) rest
    show uprightTarget line (.word "rec")
      (.leftBracket :: (offsetTokens k.toInt ++ [.rightBracket] ++ rest)) = _
    rwa [List.append_assoc]
  | combiner => rfl

theorem targetTokens_head (t : Target) :
    ∃ first ts, targetTokens t = first :: ts ∧ first ≠ .newline ∧ first ≠ .rightBrace ∧
      first ≠ .leftParen := by
  cases t with
  | qubit q inverted =>
    cases inverted with
    | false => exact ⟨naturalToken q.toNat, [], rfl, nofun, nofun, nofun⟩
    | true => exact ⟨.bang, _, rfl, nofun, nofun, nofun⟩
  | pauli p q inverted =>
    cases inverted with
    | false => exact ⟨.word (pauliWord p q), [], rfl, nofun, nofun, nofun⟩
    | true => exact ⟨.bang, _, rfl, nofun, nofun, nofun⟩
  | record k => exact ⟨.word "rec", _, rfl, nofun, nofun, nofun⟩
  | combiner => exact ⟨.star, [], rfl, nofun, nofun, nofun⟩

theorem atLineEnd_eq_false {t : Token} {ts : List Token} (hline : t ≠ .newline)
    (hbrace : t ≠ .rightBrace) : atLineEnd (t :: ts) = false := by
  unfold atLineEnd
  split
  next heq => cases heq
  next heq => exact absurd (List.cons.inj heq).1 hline
  next heq => exact absurd (List.cons.inj heq).1 hbrace
  next => rfl

theorem targets_of_end (line : Nat) (ts : List Token) (hend : atLineEnd ts = true) : targets line ts = .ok ([], ts) := by
  rw [targets.eq_def, if_pos hend]

theorem targets_eq (line : Nat) (ts : List Token) (hend : ¬atLineEnd ts = true) : targets line ts =
    target line ts >>= fun x => (targets line x.2).map fun y => (x.1 :: y.1, y.2) := by
  rw [targets.eq_def, if_neg hend]
  split
  next e h =>
    rw [h]
    rfl
  next t rest h =>
    rw [h]
    show _ = (targets line rest).map fun y => (t :: y.1, y.2)
    cases targets line rest <;> rfl

theorem targets_of_head {line : Nat} {t : Token} {ts : List Token} (hline : t ≠ .newline)
    (hbrace : t ≠ .rightBrace) {found : Target} {rest more : List Token} {others : List Target}
    (h : target line (t :: ts) = .ok (found, rest)) (hmore : targets line rest = .ok (others, more)) :
    targets line (t :: ts) = .ok (found :: others, more) := by
  have hend : ¬atLineEnd (t :: ts) = true := by
    rw [atLineEnd_eq_false hline hbrace]
    exact Bool.false_ne_true
  rw [targets_eq line _ hend]
  exact bind_eq_ok.mpr ⟨_, h, map_eq_ok.mpr ⟨_, hmore, rfl⟩⟩

theorem targets_tokens (line : Nat) {ts : List Target} (hlookbacks : ∀ k, .record k ∈ ts → k < 0)
    (rest : List Token) :
    targets line (ts.flatMap targetTokens ++ .newline :: rest) = .ok (ts, .newline :: rest) := by
  induction ts with
  | nil =>
    rw [targets]
    rfl
  | cons t ts ih =>
    obtain ⟨first, more, hfirst, hline, hbrace, -⟩ := targetTokens_head t
    have ht := target_tokens line (fun k hk => hlookbacks k (hk ▸ List.mem_cons_self))
      (ts.flatMap targetTokens ++ .newline :: rest) (t := t)
    rw [hfirst] at ht
    rw [List.flatMap_cons, List.append_assoc, hfirst]
    exact targets_of_head hline hbrace ht (ih fun k hk => hlookbacks k (List.mem_cons_of_mem t hk))

/-! ### Instructions -/

theorem instruction_operation_iff {line : Nat} {o : Operation} (ho : o.Spelled)
    (hfits : ∀ x ∈ o.args, Fits x) {rest : List Token} {p : Instruction × List Token} :
    instruction line (operationTokens o ++ .newline :: rest) = .ok p ↔
      (∀ x ∈ o.args, x.isFinite = true) ∧ p = (.operation o, .newline :: rest) := by
  have hnamed : Operation.named o.name o.targets o.args = o := by
    rw [Operation.named, ← ho.kind]
  have hhead : (o.targets.flatMap targetTokens ++ .newline :: rest).head? ≠ some .leftParen := by
    cases o.targets with
    | nil => exact nofun
    | cons t ts =>
      obtain ⟨first, more, hfirst, -, -, hparen⟩ := targetTokens_head t
      rw [List.flatMap_cons, hfirst]
      exact fun h => hparen (Option.some.inj h)
  have htargets := targets_tokens line ho.lookbacks rest
  have hinstruction : instruction line (operationTokens o ++ .newline :: rest) =
      (arguments line (argumentsTokens o.args ++ (o.targets.flatMap targetTokens ++ .newline :: rest))
        >>= fun q => targets line q.2 >>= fun r => .ok (.operation (.named o.name r.1 q.1), r.2)) := by
    rw [operationTokens, List.cons_append, List.append_assoc]
    exact if_neg ho.notRepeat
  rw [hinstruction, bind_eq_ok]
  constructor
  · rintro ⟨q, hq, h⟩
    obtain ⟨hfinite, rfl⟩ := (arguments_iff hfits hhead).mp hq
    dsimp only at h
    rw [htargets] at h
    cases h
    exact ⟨hfinite, by rw [hnamed]⟩
  · rintro ⟨hfinite, rfl⟩
    refine ⟨_, (arguments_iff hfits hhead).mpr ⟨hfinite, rfl⟩, ?_⟩
    dsimp only
    rw [htargets, ← hnamed]
    rfl

theorem instruction_opening (line : Nat) (count : UInt64) (rest : List Token) :
    instruction line (.word "REPEAT" :: .integer count :: .leftBrace :: rest) =
      .ok (.opening count, rest) := by
  rfl

/-! ### Circuits -/

theorem takes_newline_iff {nested : Bool} {line l : Nat} {rest r : List Token} {c : Circuit} :
    Takes nested line (.newline :: rest) c l r ↔ Takes nested (line + 1) rest c l r := by
  constructor
  · intro h
    cases h with
    | newline h => exact h
    | operation first h => cases first
    | opening first inner runs h => cases first
  · exact .newline

theorem takes_brace_iff {line l : Nat} {rest r : List Token} {c : Circuit} :
    Takes true line (.rightBrace :: rest) c l r ↔ c = .nil ∧ l = line ∧ r = rest := by
  constructor
  · intro h
    cases h with
    | brace => exact ⟨rfl, rfl, rfl⟩
    | operation first h => cases first
    | opening first inner runs h => cases first
  · rintro ⟨rfl, rfl, rfl⟩
    exact .brace

theorem takes_operation_iff {nested : Bool} {line l : Nat} {o : Operation} (ho : o.Spelled)
    (hfits : ∀ x ∈ o.args, Fits x) {rest r : List Token} {c : Circuit} :
    Takes nested line (operationTokens o ++ .newline :: rest) c l r ↔
      (∀ x ∈ o.args, x.isFinite = true) ∧ ∃ d, c = .op o d ∧ Takes nested (line + 1) rest d l r := by
  constructor
  · intro h
    generalize hts : operationTokens o ++ .newline :: rest = ts at h
    cases h with
    | atEnd => cases hts
    | brace => cases hts
    | newline h => cases hts
    | operation first h =>
      subst hts
      obtain ⟨hfinite, heq⟩ := (instruction_operation_iff ho hfits).mp first
      cases heq
      exact ⟨hfinite, _, rfl, takes_newline_iff.mp h⟩
    | opening first inner runs h =>
      subst hts
      cases ((instruction_operation_iff ho hfits).mp first).2
  · rintro ⟨hfinite, d, rfl, h⟩
    exact .operation ((instruction_operation_iff ho hfits).mpr ⟨hfinite, rfl⟩) (.newline h)

theorem takes_opening_iff {nested : Bool} {line l : Nat} {count : UInt64} {rest r : List Token}
    {c : Circuit} :
    Takes nested line (.word "REPEAT" :: .integer count :: .leftBrace :: rest) c l r ↔
      ∃ body l' r' d, Takes true line rest body l' r' ∧ count ≠ 0 ∧ Takes nested l' r' d l r ∧
        c = .repeated count body d := by
  constructor
  · intro h
    cases h with
    | operation first h => cases (instruction_opening line count rest).symm.trans first
    | opening first inner runs h =>
      cases (instruction_opening line count rest).symm.trans first
      exact ⟨_, _, _, _, inner, runs, h, rfl⟩
  · rintro ⟨body, l', r', d, inner, runs, h, rfl⟩
    exact .opening (instruction_opening line count rest) inner runs h

/-- How many lines the text of a circuit has. -/
def height : Circuit → Nat
  | .nil => 0
  | .op _ rest => height rest + 1
  | .repeated _ body rest => height body + height rest + 2

/-- The tokens of a circuit are taken as the circuit, if all its arguments are finite, and else not at
all. -/
theorem takes_tokens_iff {c : Circuit} (hc : c.Spelled)
    (hfits : ∀ o ∈ c.written, ∀ x ∈ o.args, Fits x) {nested : Bool} {line l : Nat}
    {rest r : List Token} {e : Circuit} :
    Takes nested line (c.tokens ++ rest) e l r ↔
      (∀ o ∈ c.written, ∀ x ∈ o.args, x.isFinite = true) ∧
        ∃ d, e = c ++ d ∧ Takes nested (line + height c) rest d l r := by
  induction c generalizing nested line l rest r e with
  | nil =>
    constructor
    · exact fun h => ⟨fun _ h => absurd h List.not_mem_nil, e, rfl, h⟩
    · rintro ⟨-, d, rfl, h⟩
      exact h
  | op o tail ih =>
    obtain ⟨ho, hops⟩ := List.forall_mem_cons.mp hc.operations
    obtain ⟨hofits, hfits⟩ := List.forall_mem_cons.mp hfits
    have ih := fun {line} {e} => @ih ⟨hops, hc.counts⟩ hfits nested line l rest r e
    have hline : line + height (.op o tail) = line + 1 + height tail := by
      rw [height]
      omega
    rw [Circuit.tokens, List.append_assoc, List.cons_append, takes_operation_iff ho hofits, hline]
    constructor
    · rintro ⟨hfinite, d, rfl, h⟩
      obtain ⟨hmore, d, rfl, hrest⟩ := ih.mp h
      exact ⟨List.forall_mem_cons.mpr ⟨hfinite, hmore⟩, d, rfl, hrest⟩
    · rintro ⟨hfinite, d, rfl, h⟩
      obtain ⟨hfinite, hmore⟩ := List.forall_mem_cons.mp hfinite
      exact ⟨hfinite, tail ++ d, rfl, ih.mpr ⟨hmore, d, rfl, h⟩⟩
  | repeated n body tail ihbody ihtail =>
    obtain ⟨hbody, htail⟩ := List.forall_mem_append.mp hc.operations
    obtain ⟨hn, hcounts⟩ := List.forall_mem_cons.mp hc.counts
    obtain ⟨hbodycounts, htailcounts⟩ := List.forall_mem_append.mp hcounts
    obtain ⟨hbodyfits, htailfits⟩ := List.forall_mem_append.mp hfits
    have ihbody := fun {line l rest r e} =>
      @ihbody ⟨hbody, hbodycounts⟩ hbodyfits true line l rest r e
    have ihtail := fun {line e} => @ihtail ⟨htail, htailcounts⟩ htailfits nested line l rest r e
    have hline : line + height (.repeated n body tail) =
        line + 1 + height body + 1 + height tail := by
      rw [height]
      omega
    have hsplit : (Circuit.repeated n body tail).tokens ++ rest =
        .word "REPEAT" :: .integer n :: .leftBrace :: .newline ::
          (body.tokens ++ .rightBrace :: .newline :: (tail.tokens ++ rest)) := by
      simp [Circuit.tokens]
    rw [hsplit, takes_opening_iff, hline]
    constructor
    · rintro ⟨b, l', r', d, inner, -, h, rfl⟩
      obtain ⟨hfinite, d', rfl, hbrace⟩ := ihbody.mp (takes_newline_iff.mp inner)
      obtain ⟨rfl, rfl, rfl⟩ := takes_brace_iff.mp hbrace
      obtain ⟨hmore, d, rfl, hrest⟩ := ihtail.mp (takes_newline_iff.mp h)
      refine ⟨List.forall_mem_append.mpr ⟨hfinite, hmore⟩, d, ?_, hrest⟩
      rw [Circuit.append_nil]
      rfl
    · rintro ⟨hfinite, d, rfl, h⟩
      obtain ⟨hfinite, hmore⟩ := List.forall_mem_append.mp hfinite
      refine ⟨body, _, _, tail ++ d, .newline (ihbody.mpr ⟨hfinite, .nil, ?_, .brace⟩), hn,
        .newline (ihtail.mpr ⟨hmore, d, rfl, h⟩), rfl⟩
      exact (Circuit.append_nil body).symm

end CircuitFrames.Text
