import CircuitFrames.Proofs.Text.Reading

/-!
# Readers that go from left to right

The readers of the parts of an instruction look at one token after the other, and none looks behind the
first token that it does not take. So a reader takes the same in front of other tokens, if the first of
them is the same, and where it fails, it fails by what it has seen: it fails in the same way whatever
comes behind (`Online`). The line that an error names is the line of what the error is about
(`Concerns`), or the next one if that is a line break (`Blames`).
-/

namespace CircuitFrames.Text

/-! ### What errors are about -/

/-- The line that an error names. -/
def ParseError.line? : ParseError → Option Nat
  | .unexpectedToken line _ _ | .unmatchedBrace line | .invalidTarget line _ => some line
  | _ => none

/-- The tokens that an error is about: the token that was found, the brace, or the target that was
refused, all of which stands on one line. -/
inductive Concerns : ParseError → List Token → Prop
  | token (line : Nat) (wanted : Wanted) (found : Token) :
    Concerns (.unexpectedToken line wanted found) [found]
  | brace (line : Nat) : Concerns (.unmatchedBrace line) [.rightBrace]
  | target {line : Nat} {text : String} {ts : List Token}
    (refused : target line ts = .error (.invalidTarget line text)) (oneLine : .newline ∉ ts) :
    Concerns (.invalidTarget line text) ts

theorem Concerns.ne_nil {e : ParseError} {ts : List Token} (h : Concerns e ts) : ts ≠ [] := by
  cases h with
  | token | brace => exact List.cons_ne_nil _ _
  | target refused =>
    rintro rfl
    cases refused

/-- The tokens up to the end of what the error is about. From a line on, the error names the line where
that starts, or the line behind if that is a line break. -/
def Blames (line : Nat) (e : ParseError) (front : List Token) : Prop :=
  ∀ n, e.line? = some n → ∃ pre blamed, front = pre ++ blamed ∧ Concerns e blamed ∧
    n = line + pre.count .newline + if blamed = [.newline] then 1 else 0

/-- The text ends too early, or what an error is about lies behind some tokens. -/
def Fault (line : Nat) (e : ParseError) (fails : List Token → Prop) (ts : List Token) : Prop :=
  (∃ wanted, e = .unexpectedEnd wanted) ∨
    ∃ front post, ts = front ++ post ∧ front ≠ [] ∧ Blames line e front ∧ ∀ more, fails (front ++ more)

variable {α β : Type} {line : Nat} {e : ParseError} {first t : Token}
  {ts rest before front : List Token} {fails fails' : List Token → Prop}

theorem blames_unexpected (line : Nat) (wanted : Wanted) (t : Token) :
    Blames line (unexpected line wanted t) [t] := by
  rintro n ⟨⟩
  refine ⟨[], [t], rfl, .token _ _ _, ?_⟩
  by_cases ht : t = .newline <;> simp [ht]

theorem blames_of_line?_eq_none (h : e.line? = none) : Blames line e front := by
  intro n hn
  rw [h] at hn
  cases hn

theorem Blames.behind (h : Blames (line + before.count .newline) e front) :
    Blames line e (before ++ front) := by
  intro n hn
  obtain ⟨pre, blamed, rfl, hconcerns, rfl⟩ := h n hn
  refine ⟨before ++ pre, blamed, (List.append_assoc _ _ _).symm, hconcerns, ?_⟩
  rw [List.count_append, Nat.add_assoc line]

theorem Fault.behind (h : Fault (line + before.count .newline) e fails rest)
    (hfails : ∀ ts, ts.head? = rest.head? → fails ts → fails' (before ++ ts)) :
    Fault line e fails' (before ++ rest) := by
  rcases h with hend | ⟨front, post, rfl, hne, hblames, hmore⟩
  · exact .inl hend
  · refine .inr ⟨before ++ front, post, (List.append_assoc _ _ _).symm, ?_, hblames.behind,
      fun more => ?_⟩
    · exact List.append_ne_nil_of_right_ne_nil _ hne
    · obtain ⟨d, front, rfl⟩ := List.exists_cons_of_ne_nil hne
      rw [List.append_assoc]
      exact hfails _ rfl (hmore more)

theorem Fault.along (hbefore : .newline ∉ before) (h : Fault line e fails rest)
    (hfails : ∀ ts, ts.head? = rest.head? → fails ts → fails' (before ++ ts)) :
    Fault line e fails' (before ++ rest) := by
  refine .behind ?_ hfails
  rwa [List.count_eq_zero_of_not_mem hbefore]

theorem Fault.imp (h : Fault line e fails ts)
    (hfails : ∀ ts', ts'.head? = ts.head? → fails ts' → fails' ts') : Fault line e fails' ts :=
  .along List.not_mem_nil h hfails

/-! ### Readers -/

/-- How a reader behaves on some tokens, on its line. One that is exact takes the same whatever comes
behind, and takes a token at least; any other looks whether the next token is the same. -/
structure Online (exact : Bool) (line : Nat) (read : List Token → Except ParseError (α × List Token))
    (ts : List Token) : Prop where
  taken : ∀ a rest, read ts = .ok (a, rest) → ∃ done, ts = done ++ rest ∧ .newline ∉ done ∧
    (exact = true → done ≠ []) ∧
    ∀ more, (exact = false → more.head? = rest.head?) → read (done ++ more) = .ok (a, more)
  refused : ∀ e, read ts = .error e → Fault line e (read · = .error e) ts

variable {exact : Bool} {read read' : List Token → Except ParseError (α × List Token)}

namespace Online

theorem weaken (h : Online true line read ts) : Online false line read ts where
  taken := by
    intro a rest hok
    obtain ⟨done, hts, hline, -, hmore⟩ := h.taken a rest hok
    exact ⟨done, hts, hline, nofun, fun more _ => hmore more nofun⟩
  refused := h.refused

theorem pure (a : α) : Online false line (fun ts => .ok (a, ts)) ts where
  taken := by
    rintro b rest ⟨⟩
    exact ⟨[], rfl, List.not_mem_nil, nofun, fun more _ => rfl⟩
  refused := nofun

theorem nil {wanted : Wanted} (hread : read [] = .error (.unexpectedEnd wanted)) :
    Online exact line read [] where
  taken := by
    intro a rest hok
    rw [hread] at hok
    cases hok
  refused := by
    intro e herror
    rw [hread] at herror
    cases herror
    exact .inl ⟨wanted, rfl⟩

theorem single {x : Except ParseError α} (hread : ∀ rest, read (t :: rest) = x.map (·, rest))
    (htaken : ∀ a, x = .ok a → t ≠ .newline) (hblames : ∀ e, x = .error e → Blames line e [t]) :
    Online exact line read (t :: rest) where
  taken := by
    intro a rest' hok
    rw [hread] at hok
    obtain ⟨b, hb, hpair⟩ := map_eq_ok.mp hok
    cases hpair
    refine ⟨[t], rfl, ?_, fun _ => List.cons_ne_nil _ _, fun more _ => ?_⟩
    · exact fun hmem => htaken a hb (List.mem_singleton.mp hmem).symm
    · rw [List.singleton_append, hread, hb]
      rfl
  refused := by
    intro e herror
    rw [hread] at herror
    cases x with
    | ok a => cases herror
    | error e' =>
      cases herror
      exact .inr ⟨[t], rest, rfl, List.cons_ne_nil _ _, hblames e rfl, fun more => hread more⟩

theorem congr_head (heq : ∀ ts', ts'.head? = ts.head? → read ts' = read' ts')
    (h : Online exact line read' ts) : Online exact line read ts where
  taken := by
    intro a rest hok
    rw [heq ts rfl] at hok
    obtain ⟨done, hts, hline, hne, hmore⟩ := h.taken a rest hok
    refine ⟨done, hts, hline, hne, fun more hhead => ?_⟩
    rw [heq, hmore more hhead]
    cases exact with
    | true =>
      obtain ⟨d, done, rfl⟩ := List.exists_cons_of_ne_nil (hne rfl)
      rw [hts]
      rfl
    | false => rw [hts, List.head?_append, List.head?_append, hhead rfl]
  refused := by
    intro e herror
    rw [heq ts rfl] at herror
    exact (h.refused e herror).imp fun ts' hhead hfails => (heq ts' hhead).trans hfails

theorem cons {exact' : Bool} (hfirst : first ≠ .newline)
    (heq : ∀ ts, read (first :: ts) = read' ts) (hexact : exact = true → exact' = true)
    (h : Online exact' line read' rest) : Online exact line read (first :: rest) where
  taken := by
    intro a rest' hok
    rw [heq] at hok
    obtain ⟨done, rfl, hline, -, hmore⟩ := h.taken a rest' hok
    refine ⟨first :: done, rfl, ?_, fun _ => List.cons_ne_nil _ _, fun more hhead => ?_⟩
    · rw [List.mem_cons]
      exact not_or.mpr ⟨hfirst.symm, hline⟩
    · rw [List.cons_append, heq]
      refine hmore more fun hfalse => hhead ?_
      cases exact with
      | true => rw [hexact rfl] at hfalse; cases hfalse
      | false => rfl
  refused := by
    intro e herror
    rw [heq] at herror
    have hline : .newline ∉ [first] := fun hmem => hfirst (List.mem_singleton.mp hmem).symm
    exact .along hline (h.refused e herror) fun ts _ hfails => (heq ts).trans hfails

theorem bind {next : α → List Token → Except ParseError (β × List Token)}
    (h : Online exact line read ts)
    (hnext : ∀ a rest, read ts = .ok (a, rest) → Online exact line (next a) rest) :
    Online exact line (fun ts => read ts >>= fun x => next x.1 x.2) ts where
  taken := by
    intro b rest hok
    obtain ⟨⟨a, mid⟩, hread, hsecond⟩ := bind_eq_ok.mp hok
    obtain ⟨done, rfl, hline, hne, hmore⟩ := h.taken a mid hread
    obtain ⟨done', rfl, hline', -, hmore'⟩ := (hnext a mid hread).taken b rest hsecond
    refine ⟨done ++ done', (List.append_assoc _ _ _).symm, ?_, ?_, fun more hhead => ?_⟩
    · rw [List.mem_append]
      exact not_or.mpr ⟨hline, hline'⟩
    · exact fun hexact => List.append_ne_nil_of_left_ne_nil (hne hexact) _
    · have hfirst : read (done ++ (done' ++ more)) = .ok (a, done' ++ more) := by
        refine hmore _ fun hfalse => ?_
        rw [List.head?_append, List.head?_append, hhead hfalse]
      rw [List.append_assoc, hfirst]
      exact hmore' more hhead
  refused := by
    intro e herror
    rcases bind_eq_error.mp herror with hread | ⟨⟨a, mid⟩, hread, hsecond⟩
    · exact (h.refused e hread).imp fun ts' _ hfails => bind_eq_error.mpr (.inl hfails)
    · obtain ⟨done, rfl, hline, -, hmore⟩ := h.taken a mid hread
      refine .along hline ((hnext a mid hread).refused e hsecond) fun ts' hhead hfails => ?_
      exact bind_eq_error.mpr (.inr ⟨_, hmore ts' fun _ => hhead, hfails⟩)

theorem check {f : α → Except ParseError β} (h : Online true line read ts)
    (hblames : ∀ a e front post, ts = front ++ post → front ≠ [] → .newline ∉ front → f a = .error e →
      (read front >>= fun x => (f x.1).map (·, x.2)) = .error e → Blames line e front) :
    Online true line (fun ts => read ts >>= fun x => (f x.1).map (·, x.2)) ts where
  taken := by
    intro b rest hok
    obtain ⟨⟨a, mid⟩, hread, hsecond⟩ := bind_eq_ok.mp hok
    obtain ⟨b', hb, hpair⟩ := map_eq_ok.mp hsecond
    cases hpair
    obtain ⟨done, rfl, hline, hne, hmore⟩ := h.taken a mid hread
    refine ⟨done, rfl, hline, hne, fun more _ => ?_⟩
    exact bind_eq_ok.mpr ⟨_, hmore more nofun, map_eq_ok.mpr ⟨b, hb, rfl⟩⟩
  refused := by
    intro e herror
    rcases bind_eq_error.mp herror with hread | ⟨⟨a, mid⟩, hread, hsecond⟩
    · exact (h.refused e hread).imp fun ts' _ hfails => bind_eq_error.mpr (.inl hfails)
    · obtain ⟨done, rfl, hline, hne, hmore⟩ := h.taken a mid hread
      have hf : f a = .error e := by
        dsimp only at hsecond
        cases hfa : f a with
        | ok b =>
          rw [hfa] at hsecond
          cases hsecond
        | error e' =>
          rw [hfa] at hsecond
          cases hsecond
          rfl
      have hfails (more : List Token) :
          (read (done ++ more) >>= fun x => (f x.1).map (·, x.2)) = .error e := by
        rw [hmore more nofun]
        show (f a).map _ = _
        rw [hf]
        rfl
      refine .inr ⟨done, mid, rfl, hne rfl, ?_, hfails⟩
      refine hblames a e done mid rfl (hne rfl) hline hf ?_
      have hwhole := hfails []
      rwa [List.append_nil] at hwhole

theorem map (g : α → β) (h : Online exact line read ts) :
    Online exact line (fun ts => (read ts).map fun x => (g x.1, x.2)) ts where
  taken := by
    intro b rest hok
    obtain ⟨⟨a, rest'⟩, hread, hpair⟩ := map_eq_ok.mp hok
    cases hpair
    obtain ⟨done, hts, hline, hne, hmore⟩ := h.taken a rest' hread
    exact ⟨done, hts, hline, hne, fun more hhead => map_eq_ok.mpr ⟨_, hmore more hhead, rfl⟩⟩
  refused := by
    have hfails {ts : List Token} {e : ParseError} :
        (read ts).map (fun x => (g x.1, x.2)) = .error e ↔ read ts = .error e := by
      cases read ts <;> simp [Except.map]
    intro e herror
    exact (h.refused e (hfails.mp herror)).imp fun _ _ => hfails.mpr

end Online

/-! ### Tokens and numbers -/

section

variable (line : Nat) (ts : List Token)

theorem online_expect (wanted : Token) (hwanted : wanted ≠ .newline) (a : α) :
    Online true line (fun ts => (expect line wanted ts).map (Prod.mk a)) ts := by
  cases ts with
  | nil => exact .nil rfl
  | cons t rest =>
    by_cases ht : t = wanted
    · refine .single (x := .ok a) (fun rest => ?_) (fun _ _ => ht ▸ hwanted) nofun
      simp [expect, ht, Except.map]
    · refine .single (x := .error (unexpected line (.token wanted) t)) (fun rest => ?_) nofun ?_
      · simp [expect, ht, Except.map]
      · rintro e ⟨⟩
        exact blames_unexpected line _ t

theorem online_integer : Online true line (integer line) ts := by
  cases ts with
  | nil => exact .nil rfl
  | cons t rest =>
    cases t with
    | integer n => exact .single (x := .ok n) (fun rest => rfl) (fun _ _ => nofun) nofun
    | _ =>
      refine .single (x := .error (unexpected line .integer _)) (fun rest => rfl) nofun ?_
      rintro e ⟨⟩
      exact blames_unexpected line _ _

theorem online_unsigned : Online true line (unsigned line) ts := by
  cases ts with
  | nil => exact .nil rfl
  | cons t rest =>
    cases t with
    | decimal v => exact .single (x := .ok v) (fun rest => rfl) (fun _ _ => nofun) nofun
    | integer n =>
      exact .single (x := .ok (Numeral.Decimal.toFloat ⟨n.toNat, 0⟩)) (fun rest => rfl)
        (fun _ _ => nofun) nofun
    | _ =>
      refine .single (x := .error (unexpected line .number _)) (fun rest => rfl) nofun ?_
      rintro e ⟨⟩
      exact blames_unexpected line _ _

theorem signed_of_ne {t : Token} (ht : t ≠ .minus) (rest : List Token) :
    signed line (t :: rest) = unsigned line (t :: rest) := by
  unfold signed
  split
  next heq =>
    cases heq
    exact absurd rfl ht
  next => rfl

theorem online_signed : Online true line (signed line) ts := by
  cases ts with
  | nil => exact .nil rfl
  | cons t rest =>
    by_cases ht : t = .minus
    · rw [ht]
      exact .cons nofun (signed_minus line) id ((online_unsigned line rest).map (-·))
    · refine .congr_head (fun ts' hhead => ?_) (online_unsigned line (t :: rest))
      obtain ⟨rest', rfl⟩ := List.head?_eq_some_iff.mp hhead
      exact signed_of_ne line ht rest'

theorem online_numbers : Online true line (numbers line) ts := by
  induction hn : ts.length using Nat.strong_induction_on generalizing ts with
  | _ n ih =>
    subst hn
    refine .congr_head (fun ts' _ => numbers_eq line ts') ?_
    refine .bind (online_signed line ts) fun v rest hread => ?_
    have hlength := signed_length hread
    cases rest with
    | nil => exact .nil rfl
    | cons t rest =>
      cases t with
      | rightParen => exact .single (x := .ok [v]) (fun rest => rfl) (fun _ _ => nofun) nofun
      | comma =>
        have hrest : rest.length < ts.length := Nat.lt_of_succ_lt hlength
        exact .cons nofun (fun ts => rfl) id ((ih _ hrest rest rfl).map (v :: ·))
      | _ =>
        refine .single (x := .error (unexpected line (.token .comma) _)) (fun rest => rfl) nofun ?_
        rintro e ⟨⟩
        exact blames_unexpected line _ _

theorem online_arguments : Online false line (arguments line) ts := by
  have hopen (rest : List Token) (hclosed : rest.head? ≠ some .rightParen) :
      arguments line (.leftParen :: rest) = numbers line rest := by
    cases rest with
    | nil => rfl
    | cons t rest => cases t <;> first | rfl | exact absurd rfl hclosed
  cases ts with
  | nil =>
    refine .congr_head (fun ts' hhead => ?_) (.pure [])
    rw [List.head?_eq_none_iff.mp hhead]
    rfl
  | cons t rest =>
    by_cases ht : t = .leftParen
    · rw [ht]
      have hbehind : Online false line (fun ts => arguments line (.leftParen :: ts)) rest := by
        by_cases hclosed : rest.head? = some .rightParen
        · obtain ⟨rest, rfl⟩ := List.head?_eq_some_iff.mp hclosed
          exact .single (x := .ok []) (fun rest => rfl) (fun _ _ => nofun) nofun
        · refine .congr_head (fun ts' hhead => hopen ts' (hhead ▸ hclosed)) ?_
          exact (online_numbers line rest).weaken
      exact .cons nofun (fun ts => rfl) id hbehind
    · refine .congr_head (fun ts' hhead => ?_) (.pure [])
      obtain ⟨rest', rfl⟩ := List.head?_eq_some_iff.mp hhead
      unfold arguments
      split
      next heq =>
        cases heq
        exact absurd rfl ht
      next heq =>
        cases heq
        exact absurd rfl ht
      next => rfl

/-! ### Targets -/

/-- Takes a number without point and exponent, and whether a minus stands before it. -/
def signedInteger (ts : List Token) : Except ParseError ((Bool × UInt64) × List Token) :=
  let (negative, rest) :=
    match ts with
    | .minus :: rest => (true, rest)
    | ts => (false, ts)
  (integer line rest).map fun x => ((negative, x.1), x.2)

/-- Takes such a number in brackets. -/
def bracketed (ts : List Token) : Except ParseError ((Bool × UInt64) × List Token) :=
  (expect line .leftBracket ts).map (Prod.mk ()) >>= fun x =>
    signedInteger line x.2 >>= fun y => (expect line .rightBracket y.2).map (Prod.mk y.1)

theorem record_eq : record line ts =
    bracketed line ts >>= fun x => (recordOf line x.1.1 x.1.2.toNat).map (·, x.2) := by
  have hrest (negative : Bool) (ts : List Token) :
      (integer line ts >>= fun x => expect line .rightBracket x.2 >>= fun rest =>
        recordOf line negative x.1.toNat >>= fun t => Except.ok (t, rest)) =
      ((integer line ts).map (fun x => ((negative, x.1), x.2)) >>= fun y =>
        (expect line .rightBracket y.2).map (Prod.mk y.1)) >>= fun x =>
          (recordOf line x.1.1 x.1.2.toNat).map (·, x.2) := by
    cases integer line ts with
    | error e => rfl
    | ok x =>
      show (expect line .rightBracket x.2 >>= _) = ((expect line .rightBracket x.2).map _ >>= _)
      cases expect line .rightBracket x.2 with
      | error e => rfl
      | ok rest => rfl
  unfold record bracketed
  cases expect line .leftBracket ts with
  | error e => rfl
  | ok ts => exact hrest _ _

theorem online_signedInteger : Online true line (signedInteger line) ts := by
  cases ts with
  | nil => exact .nil rfl
  | cons t rest =>
    by_cases ht : t = .minus
    · rw [ht]
      exact .cons nofun (fun ts => rfl) id ((online_integer line rest).map (Prod.mk true))
    · refine .congr_head (fun ts' hhead => ?_) ((online_integer line (t :: rest)).map (Prod.mk false))
      obtain ⟨rest', rfl⟩ := List.head?_eq_some_iff.mp hhead
      unfold signedInteger
      split
      next heq =>
        split at heq
        next hminus =>
          cases hminus
          exact absurd rfl ht
        next =>
          cases heq
          rfl

theorem online_bracketed : Online true line (bracketed line) ts := by
  have hclosed (ts : List Token) : Online true line
      (fun ts => signedInteger line ts >>= fun x => (expect line .rightBracket x.2).map (Prod.mk x.1)) ts :=
    (online_signedInteger line ts).bind fun x rest _ => online_expect line rest .rightBracket nofun x
  exact (online_expect line ts .leftBracket nofun ()).bind fun _ rest _ => hclosed rest

theorem blames_target {text : String} (h : target line front = .error (.invalidTarget line text))
    (hline : .newline ∉ front) : Blames line (.invalidTarget line text) front := by
  rintro n ⟨⟩
  have hfront : front ≠ [.newline] := by
    rintro rfl
    exact hline (List.mem_singleton_self _)
  refine ⟨[], front, rfl, .target h hline, ?_⟩
  rw [if_neg hfront]
  rfl

theorem qubitOf_error {n : Nat} (h : qubitOf line n = .error e) :
    ∃ text, e = .invalidTarget line text := by
  unfold qubitOf at h
  split at h <;> cases h
  exact ⟨_, rfl⟩

theorem numberOf_error {n : UInt64} (h : numberOf line n = .error e) :
    ∃ text, e = .invalidTarget line text := by
  unfold numberOf at h
  split at h
  next => cases h
  next hq =>
    cases h
    exact qubitOf_error line hq

theorem pauliOf_error {w : String} (h : pauliOf line w = .error e) :
    ∃ text, e = .invalidTarget line text := by
  unfold pauliOf at h
  split at h
  next =>
    cases h
    exact ⟨_, rfl⟩
  next =>
    split at h
    next =>
      cases h
      exact ⟨_, rfl⟩
    next =>
      dsimp only at h
      split at h
      next =>
        split at h
        next => cases h
        next hq =>
          cases h
          exact qubitOf_error line hq
      next =>
        cases h
        exact ⟨_, rfl⟩

theorem recordOf_error {negative : Bool} {magnitude : Nat}
    (h : recordOf line negative magnitude = .error e) :
    e.line? = none ∨ ∃ text, e = .invalidTarget line text := by
  unfold recordOf at h
  split at h
  next =>
    split at h <;> cases h
    exact .inl rfl
  next =>
    cases h
    exact .inr ⟨_, rfl⟩

/-- The inverted target, where one stands behind an exclamation mark. -/
def invertedOf (t : Target) : Except ParseError Target :=
  match t with
  | .qubit _ _ | .pauli _ _ _ => .ok t.inverted
  | .record _ | .combiner => .error (.invalidTarget line ("!" ++ t.text))

theorem target_bang_eq :
    target line (.bang :: ts) = target line ts >>= fun x => (invertedOf line x.1).map (·, x.2) := by
  rw [target]
  cases target line ts with
  | error e => rfl
  | ok x =>
    obtain ⟨t, rest⟩ := x
    cases t <;> rfl

theorem target_rec_eq : target line (.word "rec" :: ts) =
    bracketed line ts >>= fun x => (recordOf line x.1.1 x.1.2.toNat).map (·, x.2) := by
  rw [← record_eq]
  show uprightTarget line (.word "rec") ts = _
  rw [uprightTarget, if_pos rfl]

/-- A target that is one token. -/
def plainTarget : Token → Except ParseError Target
  | .integer n => numberOf line n
  | .star => .ok .combiner
  | .word w => pauliOf line w
  | t => .error (unexpected line .target t)

theorem target_plain_eq (hbang : t ≠ .bang) (hrec : t ≠ .word "rec") :
    target line (t :: rest) = (plainTarget line t).map (·, rest) := by
  cases t with
  | bang => exact absurd rfl hbang
  | integer n =>
    show uprightTarget line (.integer n) rest = (numberOf line n).map _
    unfold uprightTarget
    dsimp only
    cases numberOf line n <;> rfl
  | word w =>
    have hw : w ≠ "rec" := fun h => hrec (congrArg Token.word h)
    show uprightTarget line (.word w) rest = (pauliOf line w).map _
    unfold uprightTarget
    dsimp only
    rw [if_neg hw]
    cases pauliOf line w <;> rfl
  | _ => rfl

theorem plainTarget_error (h : plainTarget line t = .error e) :
    e = unexpected line .target t ∨ ∃ text, e = .invalidTarget line text := by
  cases t with
  | integer n => exact .inr (numberOf_error line h)
  | word w => exact .inr (pauliOf_error line h)
  | star => cases h
  | _ =>
    cases h
    exact .inl rfl

theorem online_target : Online true line (target line) ts := by
  induction ts with
  | nil => exact .nil rfl
  | cons t rest ih =>
    by_cases hbang : t = .bang
    · subst hbang
      have hwhole : Online true line (fun ts => target line ts.tail) (.bang :: rest) :=
        .cons nofun (fun ts => rfl) id ih
      refine .congr_head (fun ts' hhead => ?_) (hwhole.check (f := invertedOf line) ?_)
      · obtain ⟨rest', rfl⟩ := List.head?_eq_some_iff.mp hhead
        exact target_bang_eq line rest'
      · intro a e front post hsplit hne hline he hfront
        obtain ⟨d, front, rfl⟩ := List.exists_cons_of_ne_nil hne
        cases hsplit
        have hwhole := (target_bang_eq line front).trans hfront
        cases a <;> cases he <;> exact blames_target line hwhole hline
    · by_cases hrec : t = .word "rec"
      · subst hrec
        have hwhole : Online true line (fun ts => bracketed line ts.tail) (.word "rec" :: rest) :=
          .cons nofun (fun ts => rfl) id (online_bracketed line rest)
        refine .congr_head (fun ts' hhead => ?_)
          (hwhole.check (f := fun x => recordOf line x.1 x.2.toNat) ?_)
        · obtain ⟨rest', rfl⟩ := List.head?_eq_some_iff.mp hhead
          exact target_rec_eq line rest'
        · intro a e front post hsplit hne hline he hfront
          obtain ⟨d, front, rfl⟩ := List.exists_cons_of_ne_nil hne
          cases hsplit
          rcases recordOf_error line he with hnone | ⟨text, rfl⟩
          · exact blames_of_line?_eq_none hnone
          · exact blames_target line ((target_rec_eq line front).trans hfront) hline
      · refine .single (fun rest => target_plain_eq line hbang hrec) ?_ fun e he => ?_
        · rintro a ha rfl
          cases ha
        · rcases plainTarget_error line he with rfl | ⟨text, rfl⟩
          · exact blames_unexpected line _ t
          · have hwhole : target line [t] = .error (.invalidTarget line text) := by
              rw [target_plain_eq line hbang hrec, he]
              rfl
            refine blames_target line hwhole fun hmem => ?_
            rw [← List.mem_singleton.mp hmem] at he
            cases he

theorem atLineEnd_congr {ts' : List Token} (hhead : ts'.head? = ts.head?) :
    atLineEnd ts' = atLineEnd ts := by
  cases ts with
  | nil => rw [List.head?_eq_none_iff.mp hhead]
  | cons t rest =>
    obtain ⟨rest', rfl⟩ := List.head?_eq_some_iff.mp hhead
    cases t <;> rfl

theorem online_targets : Online false line (targets line) ts := by
  induction hn : ts.length using Nat.strong_induction_on generalizing ts with
  | _ n ih =>
    subst hn
    by_cases hend : atLineEnd ts = true
    · exact .congr_head (fun ts' hhead => targets_of_end line ts' (atLineEnd_congr ts hhead ▸ hend))
        (.pure [])
    · refine .congr_head
        (fun ts' hhead => targets_eq line ts' (atLineEnd_congr ts hhead ▸ hend)) ?_
      exact (online_target line ts).weaken.bind fun t rest hread =>
        (ih _ (target_length hread) rest rfl).map (t :: ·)

/-! ### Instructions -/

theorem online_instruction : Online false line (instruction line) ts := by
  cases ts with
  | nil => exact .nil rfl
  | cons t rest =>
    cases t with
    | word name =>
      by_cases hname : name = "REPEAT"
      · have hopening : Online true line (fun ts => integer line ts >>= fun x =>
            (expect line .leftBrace x.2).map (Prod.mk (Instruction.opening x.1))) rest :=
          (online_integer line rest).bind fun n rest _ =>
            online_expect line rest .leftBrace nofun (Instruction.opening n)
        refine .cons nofun (fun ts => ?_) nofun hopening
        rw [instruction, if_pos hname]
        show _ = integer line ts >>= _
        cases integer line ts with
        | error e => rfl
        | ok x =>
          show (expect line .leftBrace x.2 >>= _) = (expect line .leftBrace x.2).map _
          cases expect line .leftBrace x.2 <;> rfl
      · refine .cons nofun (fun ts => ?_) id
          ((online_arguments line rest).bind fun args rest _ =>
            (online_targets line rest).map fun ts => Instruction.operation (.named name ts args))
        rw [instruction, if_neg hname]
        show _ = arguments line ts >>= _
        cases arguments line ts with
        | error e => rfl
        | ok x =>
          show (targets line x.2 >>= _) = (targets line x.2).map _
          cases targets line x.2 <;> rfl
    | _ =>
      refine .single (x := .error (unexpected line .instructionName _)) (fun rest => rfl) nofun ?_
      rintro e ⟨⟩
      exact blames_unexpected line _ _

end

end CircuitFrames.Text
