import CircuitFrames.Text.Parser
import Mathlib

/-!
# The grammar of circuit text

What tokens spell a circuit, without a word on how they are read:

    block     = newline* (item newline*)*
    item      = REPEAT integer { block }
              | name [arguments] target*      right before a newline, a brace } or the end
    arguments = ( ) | ( number (, number)* )
    number    = [-] (decimal | integer)
    target    = !* base                       a bang only before a qubit or a Pauli base
    base      = integer | * | rec [ [-] integer ] | basis digits

A derivation is kept as a tree, which says what tokens it spells and what circuit it stands for. The
grammar is unambiguous: tokens have at most one derivation (`Derivation.eq_of_tokens`).
-/

namespace CircuitFrames.Text.Grammar

/-! ### Numbers -/

/-- A number without a sign. -/
inductive Literal
  | decimal (value : Float)
  | integer (value : UInt64)

namespace Literal

def token : Literal → Token
  | decimal v => .decimal v
  | integer n => .integer n

def value : Literal → Float
  | decimal v => v
  | integer n => Numeral.Decimal.toFloat ⟨n.toNat, 0⟩

end Literal

/-- The token of an optional minus. -/
def minus (negative : Bool) : List Token :=
  if negative then [.minus] else []

/-- A number among the arguments. -/
structure Number where
  negative : Bool
  literal : Literal

namespace Number

def tokens (n : Number) : List Token :=
  minus n.negative ++ [n.literal.token]

def value (n : Number) : Float :=
  if n.negative then -n.literal.value else n.literal.value

end Number

/-- What stands between a name and its targets. -/
inductive Arguments
  | absent
  | empty
  | numbers (first : Number) (others : List Number)

namespace Arguments

/-- The numbers behind the first one, each behind a comma. -/
def furtherTokens (others : List Number) : List Token :=
  others.flatMap fun n => .comma :: n.tokens

def tokens : Arguments → List Token
  | absent => []
  | empty => [.leftParen, .rightParen]
  | numbers first others =>
    .leftParen :: (first.tokens ++ (furtherTokens others ++ [.rightParen]))

def values : Arguments → List Float
  | absent | empty => []
  | numbers first others => first.value :: others.map Number.value

end Arguments

/-! ### Targets -/

/-- The letter of a basis, capital or small. -/
def basisLetter : Pauli → Bool → Char
  | .x, false => 'X'
  | .y, false => 'Y'
  | .z, false => 'Z'
  | .x, true => 'x'
  | .y, true => 'y'
  | .z, true => 'z'

/-- The number in the brackets of a lookback. -/
def offset (negative : Bool) (magnitude : UInt64) : Int :=
  if negative then -(magnitude.toNat : Int) else magnitude.toNat

/-- A target without the bangs before it. -/
inductive Base
  | qubit (number : UInt64) (fits : number.toNat < 4294967296)
  | combiner
  | record (negative : Bool) (magnitude : UInt64)
    (fits : -2147483648 ≤ offset negative magnitude ∧ offset negative magnitude ≤ -1)
  | pauli (basis : Pauli) (small : Bool) (digits : List Char) (nonempty : digits ≠ [])
    (decimal : ∀ c ∈ digits, c.isDigit = true) (fits : Numeral.digitValue digits < 4294967296)

namespace Base

def tokens : Base → List Token
  | qubit n _ => [.integer n]
  | combiner => [.star]
  | record negative magnitude _ =>
    .word "rec" :: .leftBracket :: (minus negative ++ [.integer magnitude, .rightBracket])
  | pauli basis small digits _ _ _ => [.word (.ofList (basisLetter basis small :: digits))]

def target : Base → Target
  | qubit n _ => .qubit (.ofNat n.toNat) false
  | combiner => .combiner
  | record negative magnitude _ => .record (.ofInt (offset negative magnitude))
  | pauli basis _ digits _ _ _ => .pauli basis (.ofNat (Numeral.digitValue digits)) false

/-- Whether bangs may stand before the target. -/
def invertible : Base → Bool
  | qubit _ _ | pauli _ _ _ _ _ _ => true
  | combiner | record _ _ _ => false

end Base

/-- A target behind a number of bangs. -/
structure Aim where
  bangs : Nat
  base : Base
  allowed : bangs ≠ 0 → base.invertible = true

namespace Aim

def tokens (a : Aim) : List Token :=
  List.replicate a.bangs .bang ++ a.base.tokens

def target (a : Aim) : Target :=
  if a.bangs = 0 then a.base.target else a.base.target.inverted

end Aim

/-! ### Lines and blocks -/

/-- An operation on a line. -/
structure Line where
  name : String
  plain : name ≠ "REPEAT"
  arguments : Arguments
  aims : List Aim

namespace Line

def tokens (l : Line) : List Token :=
  .word l.name :: (l.arguments.tokens ++ l.aims.flatMap Aim.tokens)

def operation (l : Line) : Operation :=
  .named l.name (l.aims.map Aim.target) l.arguments.values

end Line

/-- A derivation of a block. A line is followed by a newline or else by the end of its block. -/
inductive Derivation
  | done
  | newline (rest : Derivation)
  | last (line : Line)
  | line (line : Line) (rest : Derivation)
  | block (count : UInt64) (positive : count ≠ 0) (body rest : Derivation)

namespace Derivation

/-- The tokens that a derivation spells. -/
def tokens : Derivation → List Token
  | done => []
  | newline rest => .newline :: rest.tokens
  | last l => l.tokens
  | line l rest => l.tokens ++ .newline :: rest.tokens
  | block count _ body rest =>
    .word "REPEAT" :: .integer count :: .leftBrace :: (body.tokens ++ .rightBrace :: rest.tokens)

/-- The circuit that a derivation stands for. -/
def circuit : Derivation → Circuit
  | done => .nil
  | newline rest => rest.circuit
  | last l => .op l.operation .nil
  | line l rest => .op l.operation rest.circuit
  | block count _ body rest => .repeated count body.circuit rest.circuit

end Derivation

/-! ### One derivation only

Each part of a line is found again at the front of the tokens that it spells, whatever follows; the
optional parts need to know what follows. -/

theorem literal_unique {l m : Literal} (h : l.token = m.token) : l = m := by
  cases l <;> cases m <;> simp_all [Literal.token]

theorem token_ne_minus (l : Literal) : l.token ≠ .minus := by
  cases l <;> exact nofun

theorem number_unique {n m : Number} {r s : List Token} (h : n.tokens ++ r = m.tokens ++ s) :
    n = m ∧ r = s := by
  obtain ⟨negative, l⟩ := n
  obtain ⟨negative', l'⟩ := m
  have hl := token_ne_minus l
  have hl' := token_ne_minus l'
  have hunique := @literal_unique l l'
  cases negative <;> cases negative' <;> simp_all [Number.tokens, minus]

theorem furtherTokens_unique {ns ms : List Number} {r s : List Token}
    (h : Arguments.furtherTokens ns ++ .rightParen :: r =
      Arguments.furtherTokens ms ++ .rightParen :: s) : ns = ms ∧ r = s := by
  induction ns generalizing ms with
  | nil =>
    cases ms with
    | nil => simpa [Arguments.furtherTokens] using h
    | cons m ms => simp [Arguments.furtherTokens] at h
  | cons n ns ih =>
    cases ms with
    | nil => simp [Arguments.furtherTokens] at h
    | cons m ms =>
      simp only [Arguments.furtherTokens, List.flatMap_cons, List.cons_append, List.append_assoc,
        List.cons.injEq, true_and] at h
      obtain ⟨rfl, hrest⟩ := number_unique h
      obtain ⟨rfl, rfl⟩ := ih hrest
      exact ⟨rfl, rfl⟩

theorem number_head (n : Number) : ∃ t ts, n.tokens = t :: ts ∧ t ≠ .rightParen := by
  obtain ⟨negative, l⟩ := n
  cases negative <;> cases l <;> exact ⟨_, _, rfl, nofun⟩

theorem arguments_unique {a b : Arguments} {r s : List Token} (hr : r.head? ≠ some .leftParen)
    (hs : s.head? ≠ some .leftParen) (h : a.tokens ++ r = b.tokens ++ s) : a = b ∧ r = s := by
  have hempty (n : Number) (ns : List Number) (r s : List Token) :
      (Arguments.numbers n ns).tokens ++ r ≠ Arguments.empty.tokens ++ s := by
    obtain ⟨t, ts, hts, ht⟩ := number_head n
    simp [Arguments.tokens, hts, ht]
  cases a with
  | absent =>
    cases b with
    | absent => exact ⟨rfl, h⟩
    | empty => exact absurd (congrArg List.head? h) hr
    | numbers m ms => exact absurd (congrArg List.head? h) hr
  | empty =>
    cases b with
    | absent => exact absurd (congrArg List.head? h).symm hs
    | empty => exact ⟨rfl, by simpa [Arguments.tokens] using h⟩
    | numbers m ms => exact absurd h.symm (hempty m ms s r)
  | numbers n ns =>
    cases b with
    | absent => exact absurd (congrArg List.head? h).symm hs
    | empty => exact absurd h (hempty n ns r s)
    | numbers m ms =>
      simp only [Arguments.tokens, List.cons_append, List.append_assoc, List.cons.injEq, true_and,
        List.nil_append] at h
      obtain ⟨rfl, hrest⟩ := number_unique h
      obtain ⟨rfl, rfl⟩ := furtherTokens_unique hrest
      exact ⟨rfl, rfl⟩

theorem basisLetter_unique {p q : Pauli} {small small' : Bool}
    (h : basisLetter p small = basisLetter q small') : p = q ∧ small = small' := by
  cases p <;> cases q <;> cases small <;> cases small' <;> simp_all [basisLetter]

theorem pauli_ne_rec (p : Pauli) (small : Bool) (digits : List Char) :
    String.ofList (basisLetter p small :: digits) ≠ "rec" := by
  intro h
  have hlist := congrArg String.toList h
  rw [String.toList_ofList] at hlist
  have hletter : basisLetter p small = 'r' := (List.cons.inj hlist).1
  cases p <;> cases small <;> exact absurd hletter (by decide)

theorem base_unique {b c : Base} {r s : List Token} (h : b.tokens ++ r = c.tokens ++ s) :
    b = c ∧ r = s := by
  cases b with
  | qubit n _ => cases c <;> simp_all [Base.tokens]
  | combiner => cases c <;> simp_all [Base.tokens]
  | record negative magnitude _ =>
    cases c with
    | record negative' magnitude' _ =>
      cases negative <;> cases negative' <;> simp_all [Base.tokens, minus]
    | pauli p small digits _ _ _ =>
      exact absurd (Token.word.inj (List.cons.inj h).1).symm (pauli_ne_rec p small digits)
    | _ => simp [Base.tokens] at h
  | pauli p small digits _ _ _ =>
    cases c with
    | record negative magnitude _ =>
      exact absurd (Token.word.inj (List.cons.inj h).1) (pauli_ne_rec p small digits)
    | pauli q small' digits' _ _ _ =>
      simp only [Base.tokens, List.cons_append, List.nil_append, List.cons.injEq,
        Token.word.injEq] at h
      obtain ⟨hword, rfl⟩ := h
      have hlist := congrArg String.toList hword
      rw [String.toList_ofList, String.toList_ofList, List.cons.injEq] at hlist
      obtain ⟨hletter, rfl⟩ := hlist
      obtain ⟨rfl, rfl⟩ := basisLetter_unique hletter
      exact ⟨rfl, rfl⟩
    | _ => simp [Base.tokens] at h

theorem base_head (b : Base) :
    ∃ t ts, b.tokens = t :: ts ∧ t ≠ .bang ∧ atLineEnd (t :: ts) = false ∧ t ≠ .leftParen := by
  cases b <;> exact ⟨_, _, rfl, by simp, rfl, by simp⟩

theorem aim_unique {a a' : Aim} {r s : List Token} (h : a.tokens ++ r = a'.tokens ++ s) :
    a = a' ∧ r = s := by
  obtain ⟨n, b, _⟩ := a
  obtain ⟨m, c, _⟩ := a'
  have hbangs : n = m := by
    obtain ⟨t, ts, hb, ht, -, -⟩ := base_head b
    obtain ⟨u, us, hc, hu, -, -⟩ := base_head c
    have hcount := congrArg (fun l => (l.takeWhile (· = Token.bang)).length) h
    simpa [Aim.tokens, hb, hc, List.takeWhile_append, ht, hu] using hcount
  subst hbangs
  simp only [Aim.tokens, List.append_assoc, List.append_cancel_left_eq] at h
  obtain ⟨rfl, rfl⟩ := base_unique h
  exact ⟨rfl, rfl⟩

theorem aim_head (a : Aim) :
    ∃ t ts, a.tokens = t :: ts ∧ atLineEnd (t :: ts) = false ∧ t ≠ .leftParen := by
  obtain ⟨n, b, _⟩ := a
  cases n with
  | zero =>
    obtain ⟨t, ts, hb, -, hend, hparen⟩ := base_head b
    exact ⟨t, ts, hb, hend, hparen⟩
  | succ n => exact ⟨.bang, _, rfl, rfl, nofun⟩

theorem atLineEnd_append {t : Token} {ts : List Token} (h : atLineEnd (t :: ts) = false)
    (r : List Token) : atLineEnd (t :: ts ++ r) = false := by
  cases t <;> simp_all [atLineEnd]

theorem aims_unique {as bs : List Aim} {r s : List Token} (hr : atLineEnd r = true)
    (hs : atLineEnd s = true) (h : as.flatMap Aim.tokens ++ r = bs.flatMap Aim.tokens ++ s) :
    as = bs ∧ r = s := by
  have hnone (a : Aim) (as : List Aim) {r s : List Token} (hs : atLineEnd s = true) :
      (a :: as).flatMap Aim.tokens ++ r ≠ s := by
    rintro rfl
    obtain ⟨t, ts, hts, hend, -⟩ := aim_head a
    rw [List.flatMap_cons, hts, List.append_assoc, atLineEnd_append hend] at hs
    exact Bool.false_ne_true hs
  induction as generalizing bs with
  | nil =>
    cases bs with
    | nil => exact ⟨rfl, h⟩
    | cons b bs => exact absurd h.symm (hnone b bs hr)
  | cons a as ih =>
    cases bs with
    | nil => exact absurd h (hnone a as hs)
    | cons b bs =>
      rw [List.flatMap_cons, List.flatMap_cons, List.append_assoc, List.append_assoc] at h
      obtain ⟨rfl, hrest⟩ := aim_unique h
      obtain ⟨rfl, rfl⟩ := ih hrest
      exact ⟨rfl, rfl⟩

theorem aims_head {as : List Aim} {r : List Token} (hr : atLineEnd r = true) :
    (as.flatMap Aim.tokens ++ r).head? ≠ some .leftParen := by
  cases as with
  | nil =>
    show r.head? ≠ _
    rintro h
    obtain ⟨ts, rfl⟩ := List.head?_eq_some_iff.mp h
    exact Bool.false_ne_true hr
  | cons a as =>
    obtain ⟨t, ts, hts, -, ht⟩ := aim_head a
    rw [List.flatMap_cons, hts]
    exact fun h => ht (Option.some.inj h)

theorem line_unique {l m : Line} {r s : List Token} (hr : atLineEnd r = true)
    (hs : atLineEnd s = true) (h : l.tokens ++ r = m.tokens ++ s) : l = m ∧ r = s := by
  obtain ⟨name, _, args, aims⟩ := l
  obtain ⟨name', _, args', aims'⟩ := m
  simp only [Line.tokens, List.cons_append, List.append_assoc, List.cons.injEq,
    Token.word.injEq] at h
  obtain ⟨rfl, h⟩ := h
  obtain ⟨rfl, haims⟩ := arguments_unique (aims_head hr) (aims_head hs) h
  obtain ⟨rfl, rfl⟩ := aims_unique hr hs haims
  exact ⟨rfl, rfl⟩

/-- What may follow a block: the brace that closes it, or nothing. -/
def Closes (r : List Token) : Prop :=
  r = [] ∨ ∃ s, r = .rightBrace :: s

theorem Closes.atLineEnd {r : List Token} (h : Closes r) : atLineEnd r = true := by
  rcases h with rfl | ⟨s, rfl⟩ <;> rfl

theorem Closes.ne_newline {r s : List Token} (h : Closes r) : r ≠ .newline :: s := by
  rcases h with rfl | ⟨u, rfl⟩ <;> simp

theorem Closes.ne_word {r s : List Token} {w : String} (h : Closes r) : r ≠ .word w :: s := by
  rcases h with rfl | ⟨u, rfl⟩ <;> simp

namespace Derivation

theorem line_ne_block (l : Line) (r s : List Token) : l.tokens ++ r ≠ .word "REPEAT" :: s := by
  intro h
  exact l.plain (Token.word.inj (List.cons.inj h).1)

theorem unique {d e : Derivation} {r s : List Token} (hr : Closes r) (hs : Closes s)
    (h : d.tokens ++ r = e.tokens ++ s) : d = e ∧ r = s := by
  induction d generalizing e r s with
  | done =>
    cases e with
    | done => exact ⟨rfl, h⟩
    | newline e => exact absurd h hr.ne_newline
    | last l => exact absurd h hr.ne_word
    | line l e => exact absurd h hr.ne_word
    | block n _ b e => exact absurd h hr.ne_word
  | newline d ih =>
    cases e with
    | done => exact absurd h.symm hs.ne_newline
    | newline e =>
      obtain ⟨rfl, rfl⟩ := ih hr hs (List.cons.inj h).2
      exact ⟨rfl, rfl⟩
    | last l => cases h
    | line l e => cases h
    | block n _ b e => cases h
  | last l =>
    cases e with
    | done => exact absurd h.symm hs.ne_word
    | newline e => cases h
    | last m =>
      obtain ⟨rfl, rfl⟩ := line_unique hr.atLineEnd hs.atLineEnd h
      exact ⟨rfl, rfl⟩
    | line m e =>
      rw [tokens, tokens, List.append_assoc] at h
      obtain ⟨-, rfl⟩ := line_unique hr.atLineEnd rfl h
      exact absurd rfl hr.ne_newline
    | block n _ b e => exact absurd h (line_ne_block l r _)
  | line l d ih =>
    rw [tokens, List.append_assoc] at h
    cases e with
    | done => exact absurd h.symm hs.ne_word
    | newline e => cases h
    | last m =>
      obtain ⟨-, rfl⟩ := line_unique rfl hs.atLineEnd h
      exact absurd rfl hs.ne_newline
    | line m e =>
      rw [tokens, List.append_assoc] at h
      obtain ⟨rfl, hrest⟩ := line_unique rfl rfl h
      obtain ⟨rfl, rfl⟩ := ih hr hs (List.cons.inj hrest).2
      exact ⟨rfl, rfl⟩
    | block n _ b e => exact absurd h (line_ne_block l _ _)
  | block n _ b d ihb ihd =>
    cases e with
    | done => exact absurd h.symm hs.ne_word
    | newline e => cases h
    | last m => exact absurd h.symm (line_ne_block m s _)
    | line m e =>
      rw [tokens, tokens, List.append_assoc] at h
      exact absurd h.symm (line_ne_block m _ _)
    | block m _ c e =>
      simp only [tokens, List.cons_append, List.append_assoc, List.cons.injEq, true_and,
        Token.integer.injEq] at h
      obtain ⟨rfl, h⟩ := h
      obtain ⟨rfl, hrest⟩ := ihb (.inr ⟨_, rfl⟩) (.inr ⟨_, rfl⟩) h
      obtain ⟨rfl, rfl⟩ := ihd hr hs (List.cons.inj hrest).2
      exact ⟨rfl, rfl⟩

/-- **The grammar is unambiguous.** -/
theorem eq_of_tokens {d e : Derivation} (h : d.tokens = e.tokens) : d = e := by
  have h : d.tokens ++ [] = e.tokens ++ [] := by rw [h]
  exact (unique (.inl rfl) (.inl rfl) h).1

end Derivation

end CircuitFrames.Text.Grammar
