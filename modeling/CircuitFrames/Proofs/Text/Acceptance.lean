import CircuitFrames.Proofs.Text.Grammar
import CircuitFrames.Proofs.Text.Reading

/-!
# What the reader accepts

The readers take exactly what the grammar derives. For a part of a line this is said of the tokens
before and after it: a part was taken if and only if the tokens are those of a derivation of the part,
with what is left behind them (`unsigned_iff` up to `instruction_operation_derives`). A block is taken by the rules
of `Takes`, which are turned into a derivation and back. So the reader answers with a circuit if and
only if its tokens have a derivation, and the circuit is that of the derivation (`parse_iff_derives`).
-/

namespace CircuitFrames.Text

open Grammar

/-! ### Numbers and arguments -/

theorem unsigned_iff {line : Nat} {ts rest : List Token} {v : Float} :
    unsigned line ts = .ok (v, rest) ↔ ∃ l : Literal, ts = l.token :: rest ∧ v = l.value := by
  constructor
  · intro h
    unfold unsigned at h
    split at h
    next x r =>
      cases h
      exact ⟨.decimal v, rfl, rfl⟩
    next n r =>
      cases h
      exact ⟨.integer n, rfl, rfl⟩
    next => cases h
    next => cases h
  · rintro ⟨l, rfl, rfl⟩
    cases l <;> rfl

theorem signed_iff {line : Nat} {ts rest : List Token} {v : Float} :
    signed line ts = .ok (v, rest) ↔ ∃ n : Number, ts = n.tokens ++ rest ∧ v = n.value := by
  constructor
  · intro h
    unfold signed at h
    split at h
    next r =>
      split at h
      next x r' hx =>
        cases h
        obtain ⟨l, rfl, rfl⟩ := unsigned_iff.mp hx
        exact ⟨⟨true, l⟩, rfl, rfl⟩
      next => cases h
    next =>
      obtain ⟨l, rfl, rfl⟩ := unsigned_iff.mp h
      exact ⟨⟨false, l⟩, rfl, rfl⟩
  · rintro ⟨⟨negative, l⟩, rfl, rfl⟩
    have hl : unsigned line (l.token :: rest) = .ok (l.value, rest) :=
      unsigned_iff.mpr ⟨l, rfl, rfl⟩
    cases negative with
    | false => cases l <;> exact hl
    | true =>
      show signed line (.minus :: l.token :: rest) = _
      rw [signed_minus, hl]
      rfl

theorem numbers_iff {line : Nat} {ts rest : List Token} {vs : List Float} :
    numbers line ts = .ok (vs, rest) ↔
      ∃ (n : Number) (ns : List Number), ts = n.tokens ++ (Arguments.furtherTokens ns ++
        .rightParen :: rest) ∧ vs = n.value :: ns.map Number.value := by
  constructor
  · intro h
    induction hk : ts.length using Nat.strong_induction_on generalizing ts vs with
    | _ k ih =>
      subst hk
      rcases numbers_eq_ok_iff.mp h with ⟨v, hv, rfl⟩ | ⟨v, more, ws, hv, hws, rfl⟩
      · obtain ⟨n, rfl, rfl⟩ := signed_iff.mp hv
        exact ⟨n, [], rfl, rfl⟩
      · have hlength := signed_length hv
        obtain ⟨n, rfl, rfl⟩ := signed_iff.mp hv
        obtain ⟨m, ms, rfl, rfl⟩ := ih _ (by rw [List.length_cons] at hlength; omega) hws rfl
        exact ⟨n, m :: ms, by simp [Arguments.furtherTokens], rfl⟩
  · rintro ⟨n, ns, rfl, rfl⟩
    induction ns generalizing n with
    | nil => exact numbers_eq_ok_iff.mpr (.inl ⟨_, signed_iff.mpr ⟨n, rfl, rfl⟩, rfl⟩)
    | cons m ms ih =>
      refine numbers_eq_ok_iff.mpr (.inr ⟨_, _, _, signed_iff.mpr ⟨n, ?_, rfl⟩, ih m, rfl⟩)
      simp [Arguments.furtherTokens]

theorem arguments_of_derivation (line : Nat) (a : Arguments) {rest : List Token}
    (hrest : rest.head? ≠ some .leftParen) :
    arguments line (a.tokens ++ rest) = .ok (a.values, rest) := by
  cases a with
  | absent =>
    show arguments line rest = _
    unfold arguments
    split
    next => exact absurd rfl hrest
    next => exact absurd rfl hrest
    next => rfl
  | empty => rfl
  | numbers n ns =>
    obtain ⟨t, ts, hts, ht⟩ := number_head n
    have hparen : arguments line ((Arguments.numbers n ns).tokens ++ rest) =
        numbers line (n.tokens ++ (Arguments.furtherTokens ns ++ .rightParen :: rest)) := by
      simp only [Arguments.tokens, hts, List.cons_append, List.append_assoc, List.nil_append]
      exact arguments_of_paren line ht _
    rw [hparen]
    exact numbers_iff.mpr ⟨n, ns, rfl, rfl⟩

theorem derivation_of_arguments {line : Nat} {ts rest : List Token} {vs : List Float}
    (h : arguments line ts = .ok (vs, rest)) :
    ∃ a : Arguments, ts = a.tokens ++ rest ∧ vs = a.values := by
  unfold arguments at h
  split at h
  next =>
    cases h
    exact ⟨.empty, rfl, rfl⟩
  next =>
    obtain ⟨n, ns, rfl, rfl⟩ := numbers_iff.mp h
    exact ⟨.numbers n ns, by simp [Arguments.tokens], rfl⟩
  next =>
    cases h
    exact ⟨.absent, rfl, rfl⟩

/-! ### Targets -/

theorem ofLetter?_iff {c : Char} {p : Pauli} :
    Pauli.ofLetter? c = some p ↔ ∃ small, c = basisLetter p small := by
  constructor
  · intro h
    unfold Pauli.ofLetter? at h
    split at h <;> cases h
    · exact ⟨false, rfl⟩
    · exact ⟨true, rfl⟩
    · exact ⟨false, rfl⟩
    · exact ⟨true, rfl⟩
    · exact ⟨false, rfl⟩
    · exact ⟨true, rfl⟩
  · rintro ⟨small, rfl⟩
    cases p <;> cases small <;> rfl

theorem qubitOf_iff {line n : Nat} {q : Qubit} :
    qubitOf line n = .ok q ↔ n < 4294967296 ∧ q = .ofNat n := by
  unfold qubitOf
  split
  next h => exact ⟨fun hq => ⟨h, (Except.ok.inj hq).symm⟩, fun hq => by rw [hq.2]⟩
  next h => exact ⟨nofun, fun hq => absurd hq.1 h⟩

theorem numberOf_iff {line : Nat} {n : UInt64} {t : Target} :
    numberOf line n = .ok t ↔ n.toNat < 4294967296 ∧ t = .qubit (.ofNat n.toNat) false := by
  unfold numberOf
  split
  next q hq =>
    obtain ⟨hn, rfl⟩ := qubitOf_iff.mp hq
    exact ⟨fun h => ⟨hn, (Except.ok.inj h).symm⟩, fun h => by rw [h.2]⟩
  next e he =>
    refine ⟨nofun, fun h => ?_⟩
    cases he.symm.trans (qubitOf_iff.mpr ⟨h.1, rfl⟩)

theorem pauliOf_iff {line : Nat} {w : String} {t : Target} :
    pauliOf line w = .ok t ↔
      ∃ p small digits, w = .ofList (basisLetter p small :: digits) ∧ digits ≠ [] ∧
        (∀ c ∈ digits, c.isDigit = true) ∧ Numeral.digitValue digits < 4294967296 ∧
        t = .pauli p (.ofNat (Numeral.digitValue digits)) false := by
  constructor
  · intro h
    unfold pauliOf at h
    split at h
    next => cases h
    next letter digits hw =>
      split at h
      next => cases h
      next p hp =>
        dsimp only at h
        split at h
        next hdigits =>
          split at h
          next q hq =>
            cases h
            obtain ⟨small, rfl⟩ := ofLetter?_iff.mp hp
            obtain ⟨hvalue, rfl⟩ := qubitOf_iff.mp hq
            refine ⟨p, small, digits, ?_, hdigits.1, List.all_eq_true.mp hdigits.2.1, hvalue, rfl⟩
            rw [← hw, String.ofList_toList]
          next => cases h
        next => cases h
  · rintro ⟨p, small, digits, rfl, hne, hdigits, hvalue, rfl⟩
    have hsize : Numeral.digitValue digits < UInt64.size :=
      hvalue.trans (by decide)
    unfold pauliOf
    rw [String.toList_ofList]
    dsimp only
    rw [ofLetter?_iff.mpr ⟨small, rfl⟩]
    dsimp only
    rw [if_pos ⟨hne, List.all_eq_true.mpr hdigits, hsize⟩, qubitOf_iff.mpr ⟨hvalue, rfl⟩]

theorem recordOf_iff {line : Nat} {negative : Bool} {magnitude : UInt64} {t : Target} :
    recordOf line negative magnitude.toNat = .ok t ↔
      (-2147483648 ≤ offset negative magnitude ∧ offset negative magnitude ≤ -1) ∧
        t = .record (.ofInt (offset negative magnitude)) := by
  have hlookback : Target.lookback (offset negative magnitude) = .ok t ↔
      (-2147483648 ≤ offset negative magnitude ∧ offset negative magnitude ≤ -1) ∧
        t = .record (.ofInt (offset negative magnitude)) := by
    have hmin : Int32.minValue.toInt = -2147483648 := rfl
    unfold Target.lookback
    split
    next h => exact ⟨fun ht => ⟨by omega, (Except.ok.inj ht).symm⟩, fun ht => by rw [ht.2]⟩
    next h => exact ⟨nofun, fun ht => absurd ht.1 (by omega)⟩
  rw [← hlookback]
  unfold recordOf
  split
  next =>
    have hoffset : (if negative then -(magnitude.toNat : Int) else magnitude.toNat) =
        offset negative magnitude := rfl
    rw [hoffset]
    cases Target.lookback (offset negative magnitude) with
    | error e => exact ⟨nofun, nofun⟩
    | ok t' => exact ⟨fun h => by cases h; rfl, fun h => by cases h; rfl⟩
  next hlarge =>
    -- a magnitude beyond the larger bound is beyond the bounds of lookbacks
    refine ⟨nofun, fun h => absurd (hlookback.mp h).1 ?_⟩
    have hmax : Int64.maxValue.toInt = 9223372036854775807 := rfl
    unfold offset
    split <;> omega

theorem expect_iff {line : Nat} {wanted : Token} {ts rest : List Token} :
    expect line wanted ts = .ok rest ↔ ts = wanted :: rest := by
  constructor
  · intro h
    unfold expect at h
    split at h
    next => cases h
    next t r =>
      split at h
      next ht =>
        cases h
        rw [ht]
      next => cases h
  · rintro rfl
    exact expect_self line wanted rest

theorem integer_iff {line : Nat} {ts rest : List Token} {n : UInt64} :
    integer line ts = .ok (n, rest) ↔ ts = .integer n :: rest := by
  constructor
  · intro h
    unfold integer at h
    split at h <;> cases h
    rfl
  · rintro rfl
    rfl

theorem record_iff {line : Nat} {ts rest : List Token} {t : Target} :
    record line ts = .ok (t, rest) ↔
      ∃ negative magnitude, ts = .leftBracket :: (minus negative ++ .integer magnitude ::
          .rightBracket :: rest) ∧
        (-2147483648 ≤ offset negative magnitude ∧ offset negative magnitude ≤ -1) ∧
        t = .record (.ofInt (offset negative magnitude)) := by
  constructor
  · intro h
    unfold record at h
    obtain ⟨ts₁, h₁, h⟩ := bind_eq_ok.mp h
    dsimp only at h
    obtain ⟨⟨magnitude, ts₂⟩, h₂, h⟩ := bind_eq_ok.mp h
    obtain ⟨ts₃, h₃, h⟩ := bind_eq_ok.mp h
    obtain ⟨t', ht, h⟩ := bind_eq_ok.mp h
    cases h
    rw [expect_iff] at h₁ h₃
    subst h₁ h₃
    split at h₂
    next ts₄ =>
      obtain rfl := integer_iff.mp h₂
      exact ⟨true, magnitude, rfl, recordOf_iff.mp ht⟩
    next =>
      obtain rfl := integer_iff.mp h₂
      exact ⟨false, magnitude, rfl, recordOf_iff.mp ht⟩
  · rintro ⟨negative, magnitude, rfl, ht⟩
    have hrecord : recordOf line negative magnitude.toNat = .ok t := recordOf_iff.mpr ht
    cases negative <;>
      simp only [record, bind, Except.bind, pure, Except.pure, expect_self, minus, List.nil_append,
        List.cons_append, if_true, Bool.false_eq_true, if_false, integer, hrecord]

theorem uprightTarget_iff {line : Nat} {first : Token} {ts rest : List Token} {t : Target} :
    uprightTarget line first ts = .ok (t, rest) ↔
      ∃ b : Base, first :: ts = b.tokens ++ rest ∧ t = b.target := by
  constructor
  · intro h
    unfold uprightTarget at h
    split at h
    next n =>
      split at h
      next t' ht =>
        cases h
        obtain ⟨hn, rfl⟩ := numberOf_iff.mp ht
        exact ⟨.qubit n hn, rfl, rfl⟩
      next => cases h
    next =>
      cases h
      exact ⟨.combiner, rfl, rfl⟩
    next w =>
      split at h
      next hw =>
        obtain ⟨negative, magnitude, rfl, hfits, rfl⟩ := record_iff.mp h
        exact ⟨.record negative magnitude hfits, by simp [Base.tokens, hw], rfl⟩
      next =>
        split at h
        next t' ht =>
          cases h
          obtain ⟨p, small, digits, rfl, hne, hdigits, hvalue, rfl⟩ := pauliOf_iff.mp ht
          exact ⟨.pauli p small digits hne hdigits hvalue, rfl, rfl⟩
        next => cases h
    all_goals cases h
  · rintro ⟨b, hts, rfl⟩
    cases b with
    | qubit n hn =>
      cases hts
      unfold uprightTarget
      dsimp only
      rw [numberOf_iff.mpr ⟨hn, rfl⟩]
      rfl
    | combiner =>
      cases hts
      rfl
    | record negative magnitude hfits =>
      rw [Base.tokens, List.cons_append, List.cons_append, List.append_assoc, List.cons.injEq] at hts
      obtain ⟨rfl, rfl⟩ := hts
      unfold uprightTarget
      dsimp only
      rw [if_pos rfl]
      exact record_iff.mpr ⟨negative, magnitude, rfl, hfits, rfl⟩
    | pauli p small digits hne hdigits hvalue =>
      cases hts
      unfold uprightTarget
      dsimp only
      rw [if_neg (pauli_ne_rec p small digits),
        pauliOf_iff.mpr ⟨p, small, digits, rfl, hne, hdigits, hvalue, rfl⟩]
      rfl

theorem inverted_inverted (t : Target) : t.inverted.inverted = t.inverted := by
  cases t <;> rfl

theorem touched?_inverted (t : Target) : t.inverted.touched? = t.touched? := by
  cases t <;> rfl

theorem invertible_iff (b : Base) : b.invertible = b.target.touched?.isSome := by
  cases b <;> rfl

theorem touched?_aim (a : Aim) : a.target.touched? = a.base.target.touched? := by
  unfold Aim.target
  split
  · rfl
  · exact touched?_inverted _

theorem target_succ {n : Nat} {b : Base} {more : n + 1 ≠ 0 → b.invertible = true}
    {allowed : n ≠ 0 → b.invertible = true} :
    (Aim.mk (n + 1) b more).target = (Aim.mk n b allowed).target.inverted := by
  simp only [Aim.target]
  rw [if_neg (Nat.succ_ne_zero n)]
  split
  · rfl
  · exact (inverted_inverted _).symm

theorem aim_of_target {line : Nat} {ts rest : List Token} {t : Target}
    (h : target line ts = .ok (t, rest)) : ∃ a : Aim, ts = a.tokens ++ rest ∧ t = a.target := by
  induction ts generalizing t rest with
  | nil => cases h
  | cons first ts ih =>
    unfold target at h
    split at h
    next r heq =>
      -- one bang more, before a target on a qubit
      cases heq
      split at h
      next => cases h
      next t' r' h' =>
        obtain ⟨⟨n, b, allowed⟩, rfl, rfl⟩ := ih h'
        have hbang (htouched : (Aim.mk n b allowed).target.touched?.isSome = true) :
            ∃ a : Aim, .bang :: ((Aim.mk n b allowed).tokens ++ r') = a.tokens ++ r' ∧
              (Aim.mk n b allowed).target.inverted = a.target := by
          rw [touched?_aim, ← invertible_iff] at htouched
          exact ⟨⟨n + 1, b, fun _ => htouched⟩, rfl, target_succ.symm⟩
        split at h
        next heq =>
          cases h
          exact hbang (by rw [heq]; rfl)
        next heq =>
          cases h
          exact hbang (by rw [heq]; rfl)
        next => cases h
        next => cases h
    next heq =>
      cases heq
      obtain ⟨b, hts, rfl⟩ := uprightTarget_iff.mp h
      exact ⟨⟨0, b, fun h => absurd rfl h⟩, hts, rfl⟩
    next heq => cases heq

theorem target_of_base {line : Nat} (b : Base) (rest : List Token) :
    target line (b.tokens ++ rest) = .ok (b.target, rest) := by
  obtain ⟨u, us, hb, hu, -, -⟩ := base_head b
  have hupright : target line (b.tokens ++ rest) = uprightTarget line u (us ++ rest) := by
    rw [hb, List.cons_append]
    unfold target
    split
    next heq => exact absurd (List.cons.inj heq).1 hu
    next heq =>
      cases heq
      rfl
    next heq => cases heq
  rw [hupright]
  exact uprightTarget_iff.mpr ⟨b, by rw [hb]; rfl, rfl⟩

theorem target_of_aim {line : Nat} (a : Aim) (rest : List Token) :
    target line (a.tokens ++ rest) = .ok (a.target, rest) := by
  obtain ⟨n, b, allowed⟩ := a
  induction n with
  | zero => exact target_of_base b rest
  | succ n ih =>
    have hb := allowed (Nat.succ_ne_zero n)
    have htouched : (Aim.mk n b fun _ => hb).target.touched?.isSome = true := by
      rw [touched?_aim, ← invertible_iff]
      exact hb
    refine (target_bang htouched (ih fun _ => hb)).trans ?_
    rw [target_succ]

theorem target_iff {line : Nat} {ts rest : List Token} {t : Target} :
    target line ts = .ok (t, rest) ↔ ∃ a : Aim, ts = a.tokens ++ rest ∧ t = a.target := by
  constructor
  · exact aim_of_target
  · rintro ⟨a, rfl, rfl⟩
    exact target_of_aim a rest

theorem targets_iff {line : Nat} {ts rest : List Token} {found : List Target} :
    targets line ts = .ok (found, rest) ↔
      atLineEnd rest = true ∧
        ∃ as : List Aim, ts = as.flatMap Aim.tokens ++ rest ∧ found = as.map Aim.target := by
  constructor
  · intro h
    fun_induction targets line ts generalizing found rest with
    | case1 ts hend =>
      cases h
      exact ⟨hend, [], rfl, rfl⟩
    | case2 => cases h
    | case3 ts hend t r ht more r' hmore ih =>
      cases h
      obtain ⟨hrest, as, rfl, rfl⟩ := ih hmore
      obtain ⟨a, rfl, rfl⟩ := target_iff.mp ht
      exact ⟨hrest, a :: as, by simp, rfl⟩
    | case4 => cases h
  · rintro ⟨hend, as, rfl, rfl⟩
    induction as with
    | nil => exact targets_of_end line rest hend
    | cons a as ih =>
      obtain ⟨t, us, hts, hline, -⟩ := aim_head a
      have ha : target line (a.tokens ++ (as.flatMap Aim.tokens ++ rest)) =
          .ok (a.target, as.flatMap Aim.tokens ++ rest) := target_iff.mpr ⟨a, rfl, rfl⟩
      rw [List.flatMap_cons, List.append_assoc]
      rw [hts, List.cons_append] at ha ⊢
      exact targets_of_head (by rintro rfl; cases hline) (by rintro rfl; cases hline) ha ih

/-! ### Lines and blocks -/

theorem instruction_operation_derives {line : Nat} {ts rest : List Token} {o : Operation} :
    instruction line ts = .ok (.operation o, rest) ↔
      atLineEnd rest = true ∧ ∃ l : Line, ts = l.tokens ++ rest ∧ o = l.operation := by
  constructor
  · intro h
    obtain ⟨name, more, rfl⟩ := instruction_head h
    unfold instruction at h
    dsimp only at h
    split at h
    next =>
      obtain ⟨p, -, h⟩ := bind_eq_ok.mp h
      obtain ⟨r, -, h⟩ := bind_eq_ok.mp h
      cases h
    next hname =>
      obtain ⟨⟨args, after⟩, hargs, h⟩ := bind_eq_ok.mp h
      obtain ⟨⟨found, left⟩, hfound, h⟩ := bind_eq_ok.mp h
      cases h
      obtain ⟨a, rfl, rfl⟩ := derivation_of_arguments hargs
      obtain ⟨hend, as, rfl, rfl⟩ := targets_iff.mp hfound
      exact ⟨hend, ⟨name, hname, a, as⟩, by simp [Line.tokens], rfl⟩
  · rintro ⟨hend, ⟨name, hname, a, as⟩, rfl, rfl⟩
    have hhead : (as.flatMap Aim.tokens ++ rest).head? ≠ some .leftParen := aims_head hend
    have hargs := arguments_of_derivation line a hhead
    have htargets : targets line (as.flatMap Aim.tokens ++ rest) = .ok (as.map Aim.target, rest) :=
      targets_iff.mpr ⟨hend, as, rfl, rfl⟩
    rw [Line.tokens, List.cons_append, List.append_assoc, instruction, if_neg hname]
    refine bind_eq_ok.mpr ⟨_, hargs, ?_⟩
    exact bind_eq_ok.mpr ⟨_, htargets, rfl⟩

theorem instruction_opening_derives {line : Nat} {ts rest : List Token} {count : UInt64} :
    instruction line ts = .ok (.opening count, rest) ↔
      ts = .word "REPEAT" :: .integer count :: .leftBrace :: rest := by
  constructor
  · intro h
    obtain ⟨name, more, rfl⟩ := instruction_head h
    unfold instruction at h
    dsimp only at h
    split at h
    next hname =>
      obtain ⟨⟨n, after⟩, hn, h⟩ := bind_eq_ok.mp h
      obtain ⟨r, hbrace, h⟩ := bind_eq_ok.mp h
      cases h
      obtain rfl := integer_iff.mp hn
      obtain rfl := expect_iff.mp hbrace
      rw [hname]
    next =>
      obtain ⟨p, -, h⟩ := bind_eq_ok.mp h
      obtain ⟨q, -, h⟩ := bind_eq_ok.mp h
      cases h
  · rintro rfl
    exact instruction_opening line count rest

/-- What stands behind a block: in a nested one its brace and the tokens after it, else nothing. -/
def behind (nested : Bool) (rest : List Token) : List Token :=
  if nested then .rightBrace :: rest else []

theorem derivation_of_takes {nested : Bool} {line l : Nat} {ts r : List Token} {c : Circuit}
    (h : Takes nested line ts c l r) :
    ∃ d : Derivation, ts = d.tokens ++ behind nested r ∧ c = d.circuit := by
  induction h with
  | atEnd => exact ⟨.done, rfl, rfl⟩
  | brace => exact ⟨.done, rfl, rfl⟩
  | newline h ih =>
    obtain ⟨d, rfl, rfl⟩ := ih
    exact ⟨.newline d, rfl, rfl⟩
  | operation first h ih =>
    obtain ⟨d, rfl, rfl⟩ := ih
    obtain ⟨hend, m, rfl, rfl⟩ := instruction_operation_derives.mp first
    -- behind a line its block goes on with a newline or is over
    cases d with
    | done => exact ⟨.last m, rfl, rfl⟩
    | newline d => exact ⟨.line m d, by simp [Derivation.tokens], rfl⟩
    | last m' => cases hend
    | line m' d => cases hend
    | block n _ b d => cases hend
  | opening first inner runs h ihinner ih =>
    obtain ⟨b, rfl, rfl⟩ := ihinner
    obtain ⟨d, rfl, rfl⟩ := ih
    obtain rfl := instruction_opening_derives.mp first
    exact ⟨.block _ runs b d, by simp [Derivation.tokens, behind], rfl⟩

theorem takes_of_derivation (d : Derivation) (nested : Bool) (line : Nat) {r : List Token}
    (hr : nested = false → r = []) :
    ∃ l, Takes nested line (d.tokens ++ behind nested r) d.circuit l r := by
  have hdone (line : Nat) : Takes nested line (behind nested r) .nil line r := by
    cases nested with
    | true => exact .brace
    | false =>
      rw [hr rfl]
      exact .atEnd
  have hbehind : atLineEnd (behind nested r) = true := by
    cases nested <;> rfl
  induction d generalizing nested line r with
  | done => exact ⟨line, hdone line⟩
  | newline d ih =>
    obtain ⟨l, h⟩ := ih nested (line + 1) hr hdone hbehind
    exact ⟨l, .newline h⟩
  | last m =>
    exact ⟨line, .operation (instruction_operation_derives.mpr ⟨hbehind, m, rfl, rfl⟩) (hdone line)⟩
  | line m d ih =>
    obtain ⟨l, h⟩ := ih nested (line + 1) hr hdone hbehind
    rw [Derivation.tokens, List.append_assoc]
    exact ⟨l, .operation (instruction_operation_derives.mpr ⟨rfl, m, rfl, rfl⟩) (.newline h)⟩
  | block n runs b d ihb ihd =>
    obtain ⟨l', hbody⟩ := ihb true line (r := d.tokens ++ behind nested r) (by simp)
      (fun _ => .brace) rfl
    obtain ⟨l, hrest⟩ := ihd nested l' hr hdone hbehind
    have htokens : (Derivation.block n runs b d).tokens ++ behind nested r =
        .word "REPEAT" :: .integer n :: .leftBrace ::
          (b.tokens ++ behind true (d.tokens ++ behind nested r)) := by
      simp [Derivation.tokens, behind]
    rw [htokens]
    exact ⟨l, .opening (instruction_opening line n _) hbody runs hrest⟩

/-- **Reading is deriving.** The reader takes a list of tokens as a circuit if and only if the tokens
have a derivation, all of them, and the circuit is that of the derivation; it is the only one that the
tokens have. -/
theorem parse_iff_derives {source : String} {ts : List Token} (hts : tokenize source = .ok ts) :
    (∀ c, parse source = .ok c ↔ ∃ d : Derivation, d.tokens = ts ∧ d.circuit = c) ∧
      ∀ d e : Derivation, d.tokens = ts → e.tokens = ts → d = e := by
  have hparse : parse source = parseTokens ts := by rw [parse, hts]
  refine ⟨fun c => ?_, fun d e hd he => Derivation.eq_of_tokens (hd.trans he.symm)⟩
  rw [hparse, parseTokens, map_eq_ok]
  constructor
  · rintro ⟨b, hb, rfl⟩
    obtain ⟨d, hd, hc⟩ := derivation_of_takes (takes_of_block hb)
    exact ⟨d, by simpa [behind] using hd.symm, hc.symm⟩
  · rintro ⟨d, rfl, rfl⟩
    obtain ⟨l, h⟩ := takes_of_derivation d false 1 (r := []) fun _ => rfl
    rw [behind, if_neg Bool.false_ne_true, List.append_nil] at h
    obtain ⟨b, hb, hc, -, -⟩ := block_of_takes h
    exact ⟨b, hb, hc⟩

/-- Two bangs before a small letter, blank lines, and a line that the brace of its block ends. -/
theorem parse_iff_derives_block :
    let source := "\nREPEAT 2 \x7b MPP(-1,2.5) !!x007 * Y1\n\nDETECTOR() rec[-2] \x7d TICK"
    let product : Line := ⟨"MPP", by decide, .numbers ⟨true, .integer 1⟩ [⟨false, .decimal 2.5⟩],
      [⟨2, .pauli .x true ['0', '0', '7'] nofun (by simp) (by decide +kernel),
          fun _ => rfl⟩,
        ⟨0, .combiner, nofun⟩,
        ⟨0, .pauli .y false ['1'] nofun (by simp) (by decide +kernel), nofun⟩]⟩
    let detector : Line := ⟨"DETECTOR", by decide, .empty,
      [⟨0, .record true 2 (by decide), nofun⟩]⟩
    let tick : Line := ⟨"TICK", by decide, .absent, []⟩
    let d : Derivation := .newline (.block 2 (by decide)
      (.line product (.newline (.last detector))) (.last tick))
    tokenize source = .ok d.tokens ∧ parse source = .ok d.circuit := by
  intro source product detector tick d
  have hts : tokenize source = .ok d.tokens := by decide +kernel
  exact ⟨hts, ((parse_iff_derives hts).1 _).mpr ⟨d, rfl, rfl⟩⟩

end CircuitFrames.Text
