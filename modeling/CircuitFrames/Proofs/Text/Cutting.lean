import CircuitFrames.Proofs.Text.Scanning

/-!
# Where a text can be cut

A text can be cut right before each of its tokens: both parts are scanned as the tokens on their side
(`scan_cut`). For a token is as long as the text allows, and what stands behind it cannot make it longer
when less of that is left. A line break of the text is a token always, also behind a comment.
-/

namespace CircuitFrames.Text

open Numeral

/-! ### Fronts of a text -/

section

variable {p : Char → Bool} {cs more rest : List Char}

theorem mem_head_of_cut {α : Type} {xs ys : List α} (h : xs <+: ys) :
    ∀ x ∈ xs.head?, x ∈ ys.head? := by
  obtain ⟨zs, rfl⟩ := h
  cases xs with
  | nil => exact nofun
  | cons x xs => exact fun y hy => hy

theorem head_dropWhile (cs : List Char) : ∀ c ∈ (cs.dropWhile p).head?, p c = false := by
  intro c hc
  have := List.head?_dropWhile_not p cs
  rw [Option.mem_def.mp hc] at this
  simpa using this

theorem span_cut (h : more <+: cs.dropWhile p) :
    (cs.takeWhile p ++ more).takeWhile p = cs.takeWhile p ∧
      (cs.takeWhile p ++ more).dropWhile p = more := by
  have hrun : ∀ c ∈ cs.takeWhile p, p c = true := fun c hc => List.mem_takeWhile_imp hc
  have hstop : ∀ c ∈ more.head?, p c = false :=
    fun c hc => head_dropWhile cs c (mem_head_of_cut h c hc)
  exact ⟨takeWhile_append_of_head hrun hstop, dropWhile_append_of_head hrun hstop⟩

theorem spanDigits_cut {ds : List Char} (h : spanDigits cs = (ds, rest)) :
    cs = ds ++ rest ∧ (∀ c ∈ ds, c.isDigit = true) ∧
      ∀ more, more <+: rest → spanDigits (ds ++ more) = (ds, more) := by
  cases h
  refine ⟨List.takeWhile_append_dropWhile.symm, fun c hc => List.mem_takeWhile_imp hc, ?_⟩
  intro more hmore
  obtain ⟨htake, hdrop⟩ := span_cut hmore
  rw [spanDigits, htake, hdrop]

end

/-! ### Exponents -/

/-- The digits of an exponent, of which there has to be one. -/
def exponentDigits? (negative : Bool) (cs : List Char) : Option (Int × List Char) :=
  let (digits, rest) := spanDigits cs
  if digits.isEmpty then none
  else some (if negative then -(digitValue digits : Int) else digitValue digits, rest)

/-- The sign in front of the digits of an exponent. -/
def exponentSign : List Char → List Char
  | '-' :: _ => ['-']
  | '+' :: _ => ['+']
  | _ => []

/-- What stands behind the letter of an exponent. -/
def signedExponent? (cs : List Char) : Option (Int × List Char) :=
  exponentDigits? (exponentSign cs == ['-']) (cs.drop (exponentSign cs).length)

theorem spanExponent?_cons (e : Char) (cs : List Char) :
    spanExponent? (e :: cs) = if e = 'e' ∨ e = 'E' then signedExponent? cs else none := by
  rcases cs with _ | ⟨s, cs⟩
  · rfl
  · by_cases hminus : s = '-'
    · rw [hminus]
      rfl
    · by_cases hplus : s = '+'
      · rw [hplus]
        rfl
      · simp [spanExponent?, signedExponent?, exponentSign, exponentDigits?, hminus, hplus]

variable {cs more rest : List Char} {v : Int}

theorem exponentSign_append (cs : List Char) :
    cs = exponentSign cs ++ cs.drop (exponentSign cs).length := by
  unfold exponentSign
  split <;> rfl

theorem exponentSign_cases (cs : List Char) :
    exponentSign cs = ['-'] ∨ exponentSign cs = ['+'] ∨ exponentSign cs = [] := by
  unfold exponentSign
  split
  · exact .inl rfl
  · exact .inr (.inl rfl)
  · exact .inr (.inr rfl)

theorem exponentSign_cons (c : Char) (cs cs' : List Char) :
    exponentSign (c :: cs) = exponentSign (c :: cs') := by
  by_cases hminus : c = '-'
  · rw [hminus]
    rfl
  · by_cases hplus : c = '+'
    · rw [hplus]
      rfl
    · simp [exponentSign, hminus, hplus]

theorem exponentDigits?_cut {negative : Bool} (h : exponentDigits? negative cs = some (v, rest)) :
    ∃ ds, cs = ds ++ rest ∧ ds ≠ [] ∧ (∀ c ∈ ds, c.isDigit = true) ∧
      ∀ more, more <+: rest → exponentDigits? negative (ds ++ more) = some (v, more) := by
  cases hspan : spanDigits cs with
  | mk ds tail =>
    obtain ⟨hcs, hdigits, hcut⟩ := spanDigits_cut hspan
    unfold exponentDigits? at h ⊢
    rw [hspan] at h
    dsimp only at h
    by_cases hempty : ds.isEmpty = true
    · rw [if_pos hempty] at h
      cases h
    · rw [if_neg hempty] at h
      cases h
      refine ⟨ds, hcs, by simpa using hempty, hdigits, fun more hmore => ?_⟩
      rw [hcut more hmore]
      exact if_neg hempty

theorem exponentSign_of_digit {d : Char} (hd : d.isDigit = true) (cs : List Char) :
    exponentSign (d :: cs) = [] := by
  unfold exponentSign
  split
  next heq =>
    cases heq
    exact absurd hd (by decide)
  next heq =>
    cases heq
    exact absurd hd (by decide)
  next => rfl

theorem signedExponent?_cut (h : signedExponent? cs = some (v, rest)) :
    ∃ used, cs = used ++ rest ∧ '\n' ∉ used ∧
      ∀ more, more <+: rest → signedExponent? (used ++ more) = some (v, more) := by
  obtain ⟨ds, hcs, hne, hds, hcut⟩ := exponentDigits?_cut h
  have hnewline : '\n' ∉ ds := fun hmem => absurd (hds _ hmem) (by decide)
  refine ⟨exponentSign cs ++ ds, ?_, ?_, fun more hmore => ?_⟩
  · rw [List.append_assoc, ← hcs]
    exact exponentSign_append cs
  · rcases exponentSign_cases cs with h | h | h <;> rw [h] <;> simpa using hnewline
  · have hsign : exponentSign (exponentSign cs ++ (ds ++ more)) = exponentSign cs := by
      rcases exponentSign_cases cs with h | h | h <;> rw [h]
      · rfl
      · rfl
      · obtain ⟨d, ds, rfl⟩ := List.exists_cons_of_ne_nil hne
        exact exponentSign_of_digit (hds d List.mem_cons_self) _
    rw [signedExponent?, List.append_assoc, hsign, List.drop_left]
    exact hcut more hmore

theorem exponentDigits?_eq_none_iff {negative : Bool} :
    exponentDigits? negative cs = none ↔ ∀ c ∈ cs.head?, c.isDigit = false := by
  unfold exponentDigits? spanDigits
  cases cs with
  | nil => simp
  | cons c cs => cases hc : c.isDigit <;> simp [hc]

theorem signedExponent?_of_prefix (h : signedExponent? cs = none) (hmore : more <+: cs) :
    signedExponent? more = none := by
  cases more with
  | nil => rfl
  | cons c more =>
    have hsign : exponentSign (c :: more) = exponentSign cs := by
      obtain ⟨tail, rfl⟩ := hmore
      exact exponentSign_cons c more (more ++ tail)
    unfold signedExponent? at h ⊢
    rw [exponentDigits?_eq_none_iff] at h ⊢
    rw [hsign]
    exact fun d hd => h d (mem_head_of_cut (hmore.drop _) d hd)

theorem spanExponent?_cut (h : spanExponent? cs = some (v, rest)) :
    ∃ e used, cs = e :: used ++ rest ∧ e ≠ '.' ∧ '\n' ∉ e :: used ∧
      ∀ more, more <+: rest → spanExponent? (e :: used ++ more) = some (v, more) := by
  cases cs with
  | nil => cases h
  | cons e cs =>
    rw [spanExponent?_cons] at h
    by_cases he : e = 'e' ∨ e = 'E'
    · rw [if_pos he] at h
      obtain ⟨used, rfl, hnewline, hcut⟩ := signedExponent?_cut h
      have hletter : e ≠ '.' ∧ '\n' ≠ e := by
        rcases he with rfl | rfl <;> decide
      refine ⟨e, used, rfl, hletter.1, by simp [hletter.2, hnewline], fun more hmore => ?_⟩
      rw [List.cons_append, spanExponent?_cons, if_pos he]
      exact hcut more hmore
    · rw [if_neg he] at h
      cases h

theorem spanExponent?_of_prefix (h : spanExponent? cs = none) (hmore : more <+: cs) :
    spanExponent? more = none := by
  cases more with
  | nil => rfl
  | cons e more =>
    obtain ⟨tail, rfl⟩ := hmore
    rw [List.cons_append, spanExponent?_cons] at h
    rw [spanExponent?_cons]
    split at h
    next he =>
      rw [if_pos he]
      exact signedExponent?_of_prefix h (List.prefix_append more tail)
    next he => rw [if_neg he]

/-! ### Numbers -/

theorem decimalToken_cut {whole fraction : List Char} {t : Token}
    (h : decimalToken whole fraction cs = (t, rest)) :
    ∃ used, cs = used ++ rest ∧ '\n' ∉ used ∧
      ∀ more, more <+: rest → decimalToken whole fraction (used ++ more) = (t, more) := by
  unfold decimalToken at h
  cases hexponent : spanExponent? cs with
  | none =>
    rw [hexponent] at h
    cases h
    refine ⟨[], rfl, List.not_mem_nil, fun more hmore => ?_⟩
    rw [List.nil_append, decimalToken, spanExponent?_of_prefix hexponent hmore]
  | some found =>
    obtain ⟨v, tail⟩ := found
    rw [hexponent] at h
    cases h
    obtain ⟨e, used, hcs, -, hnewline, hcut⟩ := spanExponent?_cut hexponent
    refine ⟨e :: used, hcs, hnewline, fun more hmore => ?_⟩
    rw [decimalToken, hcut more hmore]

theorem number_of_point {whole tail : List Char} (h : spanDigits cs = (whole, '.' :: tail)) :
    number cs =
      (some (decimalToken whole (spanDigits tail).1 (spanDigits tail).2).1,
        (decimalToken whole (spanDigits tail).1 (spanDigits tail).2).2) := by
  unfold number
  rw [h]
  rfl

theorem number_of_ne {whole tail : List Char} (h : spanDigits cs = (whole, tail))
    (hpoint : tail.head? ≠ some '.') :
    number cs =
      match spanExponent? tail with
      | some (exponent, rest) =>
        (some (.decimal (Decimal.ofLexeme whole [] exponent).toFloat), rest)
      | none => (integer? whole, tail) := by
  unfold number
  rw [h]
  dsimp only
  split
  next => exact absurd rfl hpoint
  next => rfl

theorem not_mem_of_digits {ds : List Char} (hds : ∀ c ∈ ds, c.isDigit = true) : '\n' ∉ ds :=
  fun hmem => absurd (hds _ hmem) (by decide)

theorem number_cut {t : Token} (h : number cs = (some t, rest)) :
    ∃ used, cs = used ++ rest ∧ '\n' ∉ used ∧
      ∀ more, more <+: rest → number (used ++ more) = (some t, more) := by
  cases hwhole : spanDigits cs with
  | mk whole tail =>
    obtain ⟨rfl, hdigits, hcut⟩ := spanDigits_cut hwhole
    have hnewline := not_mem_of_digits hdigits
    by_cases hpoint : tail.head? = some '.'
    · obtain ⟨tail, rfl⟩ := List.head?_eq_some_iff.mp hpoint
      rw [number_of_point hwhole] at h
      cases hfraction : spanDigits tail with
      | mk fraction behind =>
        obtain ⟨rfl, hdigits', hcut'⟩ := spanDigits_cut hfraction
        rw [hfraction] at h
        dsimp only at h
        cases htoken : decimalToken whole fraction behind with
        | mk token left =>
          rw [htoken] at h
          cases h
          obtain ⟨used, rfl, hused, hcut''⟩ := decimalToken_cut htoken
          refine ⟨whole ++ '.' :: (fraction ++ used), by simp, ?_, fun more hmore => ?_⟩
          · simp [hnewline, not_mem_of_digits hdigits', hused]
          · have hprefix : used ++ more <+: used ++ left := (List.prefix_append_right_inj used).mpr hmore
            have hspan : spanDigits (whole ++ '.' :: (fraction ++ (used ++ more))) =
                (whole, '.' :: (fraction ++ (used ++ more))) := by
              apply hcut
              simpa using (List.prefix_append_right_inj fraction).mpr hprefix
            rw [List.append_assoc, List.cons_append, List.append_assoc, number_of_point hspan,
              hcut' _ hprefix]
            dsimp only
            rw [hcut'' more hmore]
    · rw [number_of_ne hwhole hpoint] at h
      cases hexponent : spanExponent? tail with
      | none =>
        rw [hexponent] at h
        obtain ⟨hinteger, rfl⟩ := Prod.mk.inj h
        refine ⟨whole, rfl, hnewline, fun more hmore => ?_⟩
        have hpoint' : more.head? ≠ some '.' :=
          fun hhead => hpoint (mem_head_of_cut hmore '.' hhead)
        rw [number_of_ne (hcut more hmore) hpoint', spanExponent?_of_prefix hexponent hmore]
        exact congrArg (·, more) hinteger
      | some found =>
        obtain ⟨v, left⟩ := found
        rw [hexponent] at h
        cases h
        obtain ⟨e, used, rfl, he, hused, hcut'⟩ := spanExponent?_cut hexponent
        refine ⟨whole ++ (e :: used), by simp, ?_, fun more hmore => ?_⟩
        · rw [List.mem_append]
          exact not_or.mpr ⟨hnewline, hused⟩
        · have hspan : spanDigits (whole ++ (e :: used ++ more)) = (whole, e :: used ++ more) :=
            hcut _ ((List.prefix_append_right_inj _).mpr hmore)
          have hpoint' : (e :: used ++ more).head? ≠ some '.' := fun hhead => he (Option.some.inj hhead)
          rw [List.append_assoc, number_of_ne hspan hpoint', hcut' more hmore]

/-! ### Tokens -/

theorem ofChar?_eq_newline_iff {c : Char} {t : Token} (h : Token.ofChar? c = some t) :
    t = .newline ↔ c = '\n' := by
  unfold Token.ofChar? at h
  split at h <;> cases h <;> decide

theorem lexeme_cut {c : Char} {t : Token} (h : lexeme c cs = (some t, rest)) :
    ∃ used, cs = used ++ rest ∧ (c :: used).count '\n' = [t].count .newline ∧
      ∀ more, more <+: rest → lexeme c (used ++ more) = (some t, more) := by
  unfold lexeme at h ⊢
  by_cases hword : startsWord c = true
  · rw [if_pos hword] at h
    cases h
    refine ⟨cs.takeWhile continuesWord, List.takeWhile_append_dropWhile.symm, ?_, fun more hmore => ?_⟩
    · have hnewline : '\n' ∉ c :: cs.takeWhile continuesWord := by
        rw [List.mem_cons]
        rintro (rfl | hmem)
        · exact absurd hword (by decide)
        · exact absurd (List.mem_takeWhile_imp hmem) (by decide)
      rw [List.count_eq_zero_of_not_mem hnewline]
      rfl
    · obtain ⟨htake, hdrop⟩ := span_cut hmore
      rw [if_pos hword, htake, hdrop]
  · rw [if_neg hword] at h
    by_cases hdigit : c.isDigit = true
    · rw [if_pos hdigit] at h
      have hlength : (number (c :: cs)).2.length ≤ cs.length := number_length hdigit
      obtain ⟨used, hcs, hnewline, hcut⟩ := number_cut h
      rw [h] at hlength
      cases used with
      | nil =>
        rw [List.nil_append] at hcs
        rw [← hcs] at hlength
        exact absurd hlength (Nat.not_succ_le_self _)
      | cons d used =>
        cases hcs
        refine ⟨used, rfl, ?_, fun more hmore => ?_⟩
        · have htoken : t ≠ .newline := by
            rcases number_cases (congrArg Prod.fst h) with ⟨v, rfl⟩ | ⟨n, rfl⟩ <;> exact nofun
          rw [List.count_eq_zero_of_not_mem hnewline, List.count_singleton, if_neg (by simpa using htoken)]
        · rw [if_neg hword, if_pos hdigit]
          exact hcut more hmore
    · rw [if_neg hdigit] at h
      obtain ⟨htoken, rfl⟩ := Prod.mk.inj h
      have hnewline := ofChar?_eq_newline_iff htoken
      refine ⟨[], rfl, ?_, fun more hmore => ?_⟩
      · rw [List.count_singleton, List.count_singleton]
        by_cases hc : c = '\n' <;> simp [hnewline, hc]
      · rw [if_neg hword, if_neg hdigit, htoken]
        rfl

/-! ### Texts -/

theorem scanned_comment (cs : List Char) : scanned ('#' :: cs) = scanned (skipLine cs) := by
  rw [scanned, scan, if_neg (by decide), if_pos rfl, scanned]

theorem scanned_eq_some_iff {ts : List Token} : scanned cs = some ts ↔ scan cs = .ok ts := by
  unfold scanned
  cases scan cs with
  | error u => exact ⟨nofun, nofun⟩
  | ok found => simp [Except.toOption]

/-- **A text can be cut right before any of its tokens.** What stands before the cut is scanned as the
tokens before it, with a line break in the text for each line break among the tokens. -/
theorem scan_cut {ts pre post : List Token} {first : Token} (h : scan cs = .ok ts)
    (hts : ts = pre ++ first :: post) :
    ∃ before c behind, cs = before ++ c :: behind ∧ isBlank c = false ∧ c ≠ '#' ∧
      scan before = .ok pre ∧ scan (c :: behind) = .ok (first :: post) ∧
      before.count '\n' = pre.count .newline := by
  simp only [← scanned_eq_some_iff]
  fun_induction scan cs generalizing ts pre with
  | case1 =>
    cases h
    simp at hts
  | case2 d cs hblank ih =>
    obtain ⟨before, c, behind, rfl, hc, hcomment, hbefore, hbehind, hcount⟩ := ih h hts
    refine ⟨d :: before, c, behind, rfl, hc, hcomment, ?_, hbehind, ?_⟩
    · rw [scanned_blank hblank, hbefore]
    · have hd : d ≠ '\n' := by
        rintro rfl
        exact absurd hblank (by decide)
      rw [List.count_cons_of_ne hd, hcount]
  | case3 cs hblank ih =>
    obtain ⟨before, c, behind, hcs, hc, hcomment, hbefore, hbehind, hcount⟩ := ih h hts
    have hsplit : cs = cs.takeWhile (· != '\n') ++ (before ++ c :: behind) := by
      rw [← hcs]
      exact List.takeWhile_append_dropWhile.symm
    refine ⟨'#' :: (cs.takeWhile (· != '\n') ++ before), c, behind, ?_, hc, hcomment, ?_, hbehind, ?_⟩
    · rw [List.cons_append, List.append_assoc, ← hsplit]
    · have hskip : skipLine (cs.takeWhile (· != '\n') ++ before) = before := by
        refine (span_cut ?_).2
        rw [← skipLine, hcs]
        exact List.prefix_append before _
      rw [scanned_comment, hskip, hbefore]
    · have hline : '\n' ∉ '#' :: cs.takeWhile (· != '\n') := by
        rw [List.mem_cons]
        rintro (heq | hmem)
        · exact absurd heq (by decide)
        · exact absurd (List.mem_takeWhile_imp hmem) (by decide)
      rw [← List.cons_append, List.count_append, List.count_eq_zero_of_not_mem hline, Nat.zero_add,
        hcount]
  | case4 d cs hblank hcomment token rest hlexeme tokens hrest ih =>
    cases h
    have hd : isBlank d = false := by simpa using hblank
    cases pre with
    | nil =>
      obtain ⟨rfl, rfl⟩ := List.cons.inj hts
      refine ⟨[], d, cs, rfl, hd, hcomment, scanned_nil, ?_, rfl⟩
      rw [scanned_token hd hcomment hlexeme, scanned_eq_some_iff.mpr hrest]
      rfl
    | cons t pre =>
      obtain ⟨rfl, hmore⟩ := List.cons.inj hts
      obtain ⟨before, c, behind, rfl, hc, hcomment', hbefore, hbehind, hcount⟩ := ih hrest hmore
      obtain ⟨used, rfl, hnewlines, hcut⟩ := lexeme_cut hlexeme
      refine ⟨d :: (used ++ before), c, behind, by simp, hc, hcomment', ?_, hbehind, ?_⟩
      · rw [scanned_token hd hcomment (hcut before (List.prefix_append before _)), hbefore]
        rfl
      · rw [← List.cons_append, List.count_append, hnewlines, hcount, ← List.count_append]
        rfl
  | case5 => cases h
  | case6 => cases h

end CircuitFrames.Text
