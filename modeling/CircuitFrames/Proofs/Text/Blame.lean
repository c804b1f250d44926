import CircuitFrames.Proofs.Text.Cutting
import CircuitFrames.Proofs.Text.Online

/-!
# The line of an error

`Fails` says as rules how `block` fails, beside those of `Takes` for what it takes. As the readers of
instructions go from left to right, so does it: it takes a nested block in front of any tokens, and it
fails by what it has seen. So a text that is refused at a line has a first place where the error is
certain, and the line is the one of that place, or the next one where a line break was found: that is
counted before the error is reported (`parse_error_line`).
-/

namespace CircuitFrames.Text

/-! ### Failing blocks as rules -/

/-- In a nested block or not, the tokens of a line on are refused. -/
inductive Fails : Bool → Nat → List Token → ParseError → Prop
  | atEnd {line : Nat} : Fails true line [] (.unexpectedEnd .blockEnd)
  | brace {line : Nat} {rest : List Token} :
    Fails false line (.rightBrace :: rest) (.unmatchedBrace line)
  | newline {nested : Bool} {line : Nat} {rest : List Token} {e : ParseError}
    (h : Fails nested (line + 1) rest e) : Fails nested line (.newline :: rest) e
  | instruction {nested : Bool} {line : Nat} {ts : List Token} {e : ParseError}
    (starts : atLineEnd ts = false) (first : instruction line ts = .error e) :
    Fails nested line ts e
  | operation {nested : Bool} {line : Nat} {ts rest : List Token} {o : Operation} {e : ParseError}
    (first : instruction line ts = .ok (.operation o, rest)) (h : Fails nested line rest e) :
    Fails nested line ts e
  | body {nested : Bool} {line : Nat} {ts rest : List Token} {count : UInt64} {e : ParseError}
    (first : instruction line ts = .ok (.opening count, rest)) (inner : Fails true line rest e) :
    Fails nested line ts e
  | count {nested : Bool} {line l : Nat} {ts rest r : List Token} {body : Circuit}
    (first : instruction line ts = .ok (.opening 0, rest)) (inner : Takes true line rest body l r) :
    Fails nested line ts (.circuit (.invalidArguments "REPEAT" .zeroRepeat))
  | behind {nested : Bool} {line l : Nat} {ts rest r : List Token} {count : UInt64} {body : Circuit}
    {e : ParseError} (first : instruction line ts = .ok (.opening count, rest))
    (inner : Takes true line rest body l r) (runs : count ≠ 0) (h : Fails nested l r e) :
    Fails nested line ts e

variable {nested : Bool} {line l : Nat} {ts rest r front : List Token} {count : UInt64} {o : Operation}
  {c : Circuit} {e e' : ParseError}

theorem block_newline_error_iff :
    block nested line (.newline :: rest) = .error e ↔ block nested (line + 1) rest = .error e := by
  rw [block]
  cases block nested (line + 1) rest <;> simp

theorem block_refused_error_iff (starts : atLineEnd ts = false)
    (first : instruction line ts = .error e') : block nested line ts = .error e ↔ e' = e := by
  rw [block.eq_def]
  split
  next => cases starts
  next => cases starts
  next => cases starts
  next =>
    split
    next heq =>
      cases first.symm.trans heq
      simp
    next heq => cases first.symm.trans heq
    next heq => cases first.symm.trans heq

theorem block_operation_error_iff (first : instruction line ts = .ok (.operation o, rest)) :
    block nested line ts = .error e ↔ block nested line rest = .error e := by
  obtain ⟨w, ts, rfl⟩ := instruction_head first
  rw [block.eq_def]
  dsimp only
  split
  next heq => cases first.symm.trans heq
  next heq =>
    cases first.symm.trans heq
    cases block nested line rest <;> simp
  next heq => cases first.symm.trans heq

theorem block_opening_error_iff (first : instruction line ts = .ok (.opening count, rest)) :
    block nested line ts = .error e ↔ block true line rest = .error e ∨
      ∃ body, block true line rest = .ok body ∧
        if count = 0 then .circuit (.invalidArguments "REPEAT" .zeroRepeat) = e
        else block nested body.line body.rest = .error e := by
  obtain ⟨w, ts, rfl⟩ := instruction_head first
  rw [block.eq_def]
  dsimp only
  split
  next heq => cases first.symm.trans heq
  next heq => cases first.symm.trans heq
  next heq =>
    cases first.symm.trans heq
    cases block true line rest with
    | error e' => simp
    | ok body =>
      dsimp only
      split
      next => simp
      next => cases hbehind : block nested body.line body.rest <;> simp [hbehind]

theorem fails_of_block (h : block nested line ts = .error e) : Fails nested line ts e := by
  induction hn : ts.length using Nat.strong_induction_on generalizing nested line ts with
  | _ n ih =>
    subst hn
    cases ts with
    | nil =>
      rw [block] at h
      split at h
      next hnested =>
        cases h
        rw [hnested]
        exact .atEnd
      next => cases h
    | cons t ts =>
      by_cases hline : t = .newline
      · subst hline
        exact .newline (ih _ (Nat.lt_succ_self _) (block_newline_error_iff.mp h) rfl)
      by_cases hbrace : t = .rightBrace
      · subst hbrace
        rw [block] at h
        split at h
        next => cases h
        next hnested =>
          cases h
          rw [Bool.eq_false_iff.mpr hnested]
          exact .brace
      have starts : atLineEnd (t :: ts) = false := atLineEnd_eq_false hline hbrace
      cases first : instruction line (t :: ts) with
      | error e' =>
        obtain rfl := (block_refused_error_iff starts first).mp h
        exact .instruction starts first
      | ok found =>
        obtain ⟨i, rest⟩ := found
        have hlength := instruction_length first
        cases i with
        | operation o =>
          exact .operation first (ih _ hlength ((block_operation_error_iff first).mp h) rfl)
        | opening count =>
          rcases (block_opening_error_iff first).mp h with hbody | ⟨body, hbody, hbehind⟩
          · exact .body first (ih _ hlength hbody rfl)
          · have inner := takes_of_block hbody
            split at hbehind
            next hcount =>
              subst hcount hbehind
              exact .count first inner
            next hcount =>
              have hrest := body.rest_le.trans_lt hlength
              exact .behind first inner hcount (ih _ hrest hbehind rfl)

theorem block_of_fails (h : Fails nested line ts e) : block nested line ts = .error e := by
  induction h with
  | atEnd | brace =>
    rw [block]
    rfl
  | newline h ih => exact block_newline_error_iff.mpr ih
  | instruction starts first => exact (block_refused_error_iff starts first).mpr rfl
  | operation first h ih => exact (block_operation_error_iff first).mpr ih
  | body first inner ih => exact (block_opening_error_iff first).mpr (.inl ih)
  | count first inner =>
    obtain ⟨body, hbody, -, -, -⟩ := block_of_takes inner
    refine (block_opening_error_iff first).mpr (.inr ⟨body, hbody, ?_⟩)
    rw [if_pos rfl]
  | behind first inner runs h ih =>
    obtain ⟨body, hbody, -, rfl, rfl⟩ := block_of_takes inner
    refine (block_opening_error_iff first).mpr (.inr ⟨body, hbody, ?_⟩)
    rwa [if_neg runs]

/-! ### What was seen decides -/

theorem instruction_in_front {i : Instruction} (first : instruction line ts = .ok (i, rest)) :
    ∃ done, ts = done ++ rest ∧ .newline ∉ done ∧
      ∀ more, more.head? = rest.head? → instruction line (done ++ more) = .ok (i, more) := by
  obtain ⟨done, hts, hline, -, hmore⟩ := (online_instruction line ts).taken i rest first
  exact ⟨done, hts, hline, fun more hhead => hmore more fun _ => hhead⟩

/-- A nested block is taken in front of any tokens, on as many lines as it has line breaks. -/
theorem Takes.in_front (h : Takes true line ts c l r) :
    ∃ done, ts = done ++ r ∧ done ≠ [] ∧ l = line + done.count .newline ∧
      ∀ more, Takes true line (done ++ more) c l more := by
  generalize hnested : true = nested at h
  induction h with
  | atEnd => cases hnested
  | brace => exact ⟨[.rightBrace], rfl, List.cons_ne_nil _ _, rfl, fun more => .brace⟩
  | newline h ih =>
    obtain ⟨done, rfl, -, rfl, hmore⟩ := ih hnested
    refine ⟨.newline :: done, rfl, List.cons_ne_nil _ _, ?_, fun more => .newline (hmore more)⟩
    rw [List.count_cons_self]
    omega
  | operation first h ih =>
    obtain ⟨mid, rfl, hne, rfl, hmore⟩ := ih hnested
    obtain ⟨done, rfl, hline, hfirst⟩ := instruction_in_front first
    refine ⟨done ++ mid, (List.append_assoc _ _ _).symm, List.append_ne_nil_of_right_ne_nil _ hne, ?_,
      fun more => ?_⟩
    · rw [List.count_append, List.count_eq_zero_of_not_mem hline, Nat.zero_add]
    · rw [List.append_assoc]
      refine .operation (hfirst _ ?_) (hmore more)
      rw [List.head?_append_of_ne_nil _ hne, List.head?_append_of_ne_nil _ hne]
  | opening first inner runs h ihinner ih =>
    obtain ⟨body, rfl, hbodyne, rfl, hbody⟩ := ihinner rfl
    obtain ⟨mid, rfl, -, rfl, hmore⟩ := ih hnested
    obtain ⟨done, rfl, hline, hfirst⟩ := instruction_in_front first
    refine ⟨done ++ (body ++ mid), by simp, ?_, ?_, fun more => ?_⟩
    · exact List.append_ne_nil_of_right_ne_nil _ (List.append_ne_nil_of_left_ne_nil hbodyne _)
    · rw [List.count_append, List.count_eq_zero_of_not_mem hline, List.count_append]
      omega
    · rw [List.append_assoc, List.append_assoc]
      refine .opening (hfirst _ ?_) (hbody _) runs (hmore more)
      rw [List.head?_append_of_ne_nil _ hbodyne, List.head?_append_of_ne_nil _ hbodyne]

theorem fault_of_fails (h : Fails nested line ts e) : Fault line e (Fails nested line · e) ts := by
  induction h with
  | atEnd => exact .inl ⟨_, rfl⟩
  | @brace line rest =>
    refine .inr ⟨[.rightBrace], rest, rfl, List.cons_ne_nil _ _, ?_, fun more => .brace⟩
    rintro n ⟨⟩
    exact ⟨[], [.rightBrace], rfl, .brace line, rfl⟩
  | @newline _ line rest e h ih =>
    show Fault line e _ ([.newline] ++ rest)
    exact .behind ih fun ts _ hfails => .newline hfails
  | @instruction _ line ts e starts first =>
    refine ((online_instruction line ts).refused e first).imp fun ts' hhead hfails => ?_
    exact .instruction ((atLineEnd_congr ts hhead).trans starts) hfails
  | operation first h ih =>
    obtain ⟨done, rfl, hline, hfirst⟩ := instruction_in_front first
    exact .along hline ih fun ts hhead hfails => .operation (hfirst ts hhead) hfails
  | body first inner ih =>
    obtain ⟨done, rfl, hline, hfirst⟩ := instruction_in_front first
    exact .along hline ih fun ts hhead hfails => .body (hfirst ts hhead) hfails
  | count first inner =>
    obtain ⟨body, rfl, hne, rfl, hbody⟩ := inner.in_front
    obtain ⟨done, rfl, hline, hfirst⟩ := instruction_in_front first
    refine .inr ⟨done ++ body, _, (List.append_assoc _ _ _).symm, ?_, blames_of_line?_eq_none rfl,
      fun more => ?_⟩
    · exact List.append_ne_nil_of_right_ne_nil _ hne
    · rw [List.append_assoc]
      refine .count (hfirst _ ?_) (hbody more)
      rw [List.head?_append_of_ne_nil _ hne, List.head?_append_of_ne_nil _ hne]
  | @behind nested line _ _ _ r _ _ e first inner runs h ih =>
    obtain ⟨body, rfl, hne, rfl, hbody⟩ := inner.in_front
    obtain ⟨done, rfl, hline, hfirst⟩ := instruction_in_front first
    have hcount : (done ++ body).count .newline = body.count .newline := by
      rw [List.count_append, List.count_eq_zero_of_not_mem hline, Nat.zero_add]
    have hbehind : Fault (line + (done ++ body).count .newline) e
        (Fails nested (line + body.count .newline) · e) r := by rwa [hcount]
    rw [← List.append_assoc]
    refine hbehind.behind fun ts _ hfails => ?_
    rw [List.append_assoc]
    refine .behind (hfirst _ ?_) (hbody ts) runs hfails
    rw [List.head?_append_of_ne_nil _ hne, List.head?_append_of_ne_nil _ hne]

/-! ### The first place where an error is certain -/

theorem parseTokens_eq_error_iff : parseTokens ts = .error e ↔ Fails false 1 ts e := by
  unfold parseTokens
  constructor
  · intro h
    refine fails_of_block ?_
    cases hblock : block false 1 ts with
    | error e' =>
      rw [hblock] at h
      cases h
      rfl
    | ok b =>
      rw [hblock] at h
      cases h
  · intro h
    rw [block_of_fails h]
    rfl

/-- Some tokens are refused as soon as they go up to the end of `front`, all of them with the same
error. Up to there they are a circuit, or only the end of the text is an error. -/
def Settles (e : ParseError) (front ts : List Token) : Prop :=
  ∀ p, p <+: ts → if front <+: p then parseTokens p = .error e
    else (∃ c, parseTokens p = .ok c) ∨ ∃ wanted, parseTokens p = .error (.unexpectedEnd wanted)

/-- An error that is certain with the tokens of `front`, whatever comes behind them, and that is about the
last of them. -/
structure Certain (e : ParseError) (front : List Token) : Prop where
  blames : Blames 1 e front
  refused : ∀ more, parseTokens (front ++ more) = .error e

theorem exists_certain (h : parseTokens ts = .error e) (hend : ∀ wanted, e ≠ .unexpectedEnd wanted) :
    ∃ front, front <+: ts ∧ Certain e front := by
  rcases fault_of_fails (parseTokens_eq_error_iff.mp h) with ⟨wanted, rfl⟩ |
    ⟨front, post, rfl, -, hblames, hmore⟩
  · exact absurd rfl (hend wanted)
  · refine ⟨front, List.prefix_append _ _, hblames, fun more => ?_⟩
    exact parseTokens_eq_error_iff.mpr (hmore more)

theorem exists_shortest_certain (h : parseTokens ts = .error e)
    (hend : ∀ wanted, e ≠ .unexpectedEnd wanted) :
    ∃ front, front <+: ts ∧ Certain e front ∧ ∀ p, p <+: ts → Certain e p → front <+: p := by
  classical
  obtain ⟨front, hfront, hcertain⟩ := exists_certain h hend
  have hlength : ∃ n, Certain e (ts.take n) :=
    ⟨front.length, (List.prefix_iff_eq_take.mp hfront) ▸ hcertain⟩
  refine ⟨ts.take (Nat.find hlength), List.take_prefix _ _, Nat.find_spec hlength, fun p hp hsure => ?_⟩
  have htake : p = ts.take p.length := List.prefix_iff_eq_take.mp hp
  rw [htake] at hsure ⊢
  exact List.take_prefix_take_left (Nat.find_min' hlength hsure)

theorem Certain.settles (h : Certain e front) (hfront : front <+: ts)
    (hshortest : ∀ p, p <+: ts → Certain e p → front <+: p) : Settles e front ts := by
  intro p hp
  split
  next hreaches =>
    obtain ⟨more, rfl⟩ := hreaches
    exact h.refused more
  next hshort =>
    cases hparse : parseTokens p with
    | ok c => exact .inl ⟨c, rfl⟩
    | error e' =>
      refine .inr (Classical.byContradiction fun hno => ?_)
      obtain ⟨front', hfront', hcertain⟩ :=
        exists_certain hparse fun wanted heq => hno ⟨wanted, congrArg _ heq⟩
      -- the error is that of all the tokens, so it was certain before the shortest place
      have heq : e' = e := by
        obtain ⟨more, rfl⟩ := hfront
        obtain ⟨more', hmore'⟩ := hfront'.trans hp
        have hboth := (hcertain.refused more').symm.trans (hmore' ▸ h.refused more)
        cases hboth
        rfl
      subst heq
      exact hshort ((hshortest front' (hfront'.trans hp) hcertain).trans hfront')

theorem exists_settles {n : Nat} (h : parseTokens ts = .error e) (hn : e.line? = some n) :
    ∃ pre blamed post, ts = pre ++ blamed ++ post ∧ Settles e (pre ++ blamed) ts ∧ Concerns e blamed ∧
      n = 1 + pre.count .newline + if blamed = [.newline] then 1 else 0 := by
  have hend : ∀ wanted, e ≠ .unexpectedEnd wanted := by
    rintro wanted rfl
    cases hn
  obtain ⟨front, hfront, hcertain, hshortest⟩ := exists_shortest_certain h hend
  have hsettles := hcertain.settles hfront hshortest
  obtain ⟨pre, blamed, rfl, hconcerns, hline⟩ := hcertain.blames n hn
  obtain ⟨post, rfl⟩ := hfront
  exact ⟨pre, blamed, post, rfl, hsettles, hconcerns, hline⟩

theorem scan_of_parse_error {source : String} {n : Nat} (h : parse source = .error e)
    (hn : e.line? = some n) : ∃ ts, scan source.toList = .ok ts ∧ parseTokens ts = .error e := by
  unfold parse tokenize at h
  dsimp only at h
  cases hscan : scan source.toList with
  | ok ts =>
    rw [hscan] at h
    exact ⟨ts, rfl, h⟩
  | error u =>
    rw [hscan] at h
    cases h
    cases hn

/-- **The line of an error.** If a text is refused with an error that names a line, then it can be cut
where the tokens start that the error is about: the token that was found, the closing brace, or the
target. With these tokens the error is certain, and not before. The line is one more than the line
breaks before the cut, except where the token that was found is a line break itself: then it is the
line behind that. -/
theorem parse_error_line {source : String} {n : Nat} (h : parse source = .error e)
    (hn : e.line? = some n) :
    ∃ before c behind pre blamed post, source.toList = before ++ c :: behind ∧
      isBlank c = false ∧ c ≠ '#' ∧ scan before = .ok pre ∧
      scan (c :: behind) = .ok (blamed ++ post) ∧
      scan source.toList = .ok (pre ++ blamed ++ post) ∧
      Concerns e blamed ∧ Settles e (pre ++ blamed) (pre ++ blamed ++ post) ∧
      n = 1 + before.count '\n' + if blamed = [.newline] then 1 else 0 := by
  obtain ⟨ts, hscan, hparse⟩ := scan_of_parse_error h hn
  obtain ⟨pre, blamed, post, rfl, hsettles, hconcerns, hline⟩ := exists_settles hparse hn
  obtain ⟨first, blamed, rfl⟩ := List.exists_cons_of_ne_nil hconcerns.ne_nil
  obtain ⟨before, c, behind, hsource, hblank, hcomment, hbefore, hbehind, hcount⟩ :=
    scan_cut hscan (List.append_assoc _ _ _)
  rw [← hcount] at hline
  exact ⟨before, c, behind, pre, first :: blamed, post, hsource, hblank, hcomment, hbefore, hbehind,
    hscan, hconcerns, hsettles, hline⟩

/-- A record cannot be inverted: the line of a target in a block, behind comments and blank lines. -/
theorem parse_error_line_in_block :
    let source := "# front\n\nREPEAT 2 \x7b\n\tX 0 # one\n\n  CX 0 1 !rec[-1] 2\n\x7d"
    let e := ParseError.invalidTarget 6 "!rec[-1]"
    parse source = .error e ∧ e.line? = some 6 ∧
      ∃ before c behind pre blamed post, source.toList = before ++ c :: behind ∧
        isBlank c = false ∧ c ≠ '#' ∧ scan before = .ok pre ∧
        scan (c :: behind) = .ok (blamed ++ post) ∧
        scan source.toList = .ok (pre ++ blamed ++ post) ∧
        Concerns e blamed ∧ Settles e (pre ++ blamed) (pre ++ blamed ++ post) ∧
        6 = 1 + before.count '\n' + if blamed = [.newline] then 1 else 0 := by
  intro source e
  have h : parse source = .error e := by decide +kernel
  exact ⟨h, rfl, parse_error_line h rfl⟩

/-- A line break among the arguments ends the first line, but the error names the second: no line break
of the text has a line break before it. -/
theorem found_line_break_late :
    let source := "X_ERROR(0.5\n) 0"
    parse source = .error (.unexpectedToken 2 (.token .comma) .newline) ∧
      ∀ before behind, source.toList = before ++ '\n' :: behind → 2 ≠ 1 + before.count '\n' := by
  intro source
  refine ⟨by decide +kernel, fun before behind hsource => ?_⟩
  have hcount : (before ++ '\n' :: behind).count '\n' = 1 := by
    rw [← hsource]
    decide +kernel
  rw [List.count_append, List.count_cons_self] at hcount
  omega

end CircuitFrames.Text
