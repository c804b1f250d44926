import CircuitFrames.Proofs.Text.Cutting

/-!
# Texts that stand apart

A blank, a comment, a line break and the end of a text end every token. So a text in front of one that
starts in such a way is scanned by itself, and what is left behind it is the whole of the other text,
or what follows its first line if a comment is open (`exists_leaves`). A line break cuts a text in two
in any case (`scanned_append_newline`).
-/

namespace CircuitFrames.Text

open Numeral

/-! ### Texts that stand apart -/

/-- A text that prolongs no token: it is empty, or starts with a blank, a comment or a line break. -/
def Apart (cs : List Char) : Prop :=
  ∀ c ∈ cs.head?, isBlank c = true ∨ c = '#' ∨ c = '\n'

section

variable {p : Char → Bool} {tail : List Char}

theorem Apart.closed (h : Apart tail) : Closed tail := by
  intro c hc
  have hc := h c hc
  simp only [isBlank, Bool.or_eq_true, beq_iff_eq] at hc
  rcases hc with ((rfl | rfl) | rfl) | rfl | rfl <;> decide

theorem Apart.exponentSign (h : Apart tail) : exponentSign tail = [] := by
  unfold Text.exponentSign
  split
  · exact absurd (h '-' rfl) (by decide)
  · exact absurd (h '+' rfl) (by decide)
  · rfl

theorem span_append (cs : List Char) (hstop : ∀ c ∈ tail.head?, p c = false) :
    (cs ++ tail).takeWhile p = cs.takeWhile p ∧ (cs ++ tail).dropWhile p = cs.dropWhile p ++ tail := by
  have hall : ∀ c ∈ cs.takeWhile p, p c = true := fun c hc => List.mem_takeWhile_imp hc
  have hnext : ∀ c ∈ (cs.dropWhile p ++ tail).head?, p c = false := by
    intro c hc
    cases hrest : cs.dropWhile p with
    | nil =>
      rw [hrest] at hc
      exact hstop c hc
    | cons d rest =>
      rw [hrest] at hc
      exact head_dropWhile cs c (by rw [hrest]; exact hc)
  have hsplit : cs ++ tail = cs.takeWhile p ++ (cs.dropWhile p ++ tail) := by
    rw [← List.append_assoc, List.takeWhile_append_dropWhile]
  constructor
  · rw [hsplit, takeWhile_append_of_head hall hnext]
  · rw [hsplit, dropWhile_append_of_head hall hnext]

end

variable {tail : List Char}

theorem spanDigits_apart (cs : List Char) (h : Apart tail) :
    spanDigits (cs ++ tail) = ((spanDigits cs).1, (spanDigits cs).2 ++ tail) := by
  obtain ⟨htake, hdrop⟩ := span_append cs h.closed.isDigit
  rw [spanDigits, htake, hdrop, spanDigits]

theorem exponentDigits?_apart (negative : Bool) (cs : List Char) (h : Apart tail) :
    exponentDigits? negative (cs ++ tail) =
      (exponentDigits? negative cs).map fun found => (found.1, found.2 ++ tail) := by
  unfold exponentDigits?
  rw [spanDigits_apart cs h]
  dsimp only
  split <;> rfl

theorem signedExponent?_apart (cs : List Char) (h : Apart tail) :
    signedExponent? (cs ++ tail) =
      (signedExponent? cs).map fun found => (found.1, found.2 ++ tail) := by
  have hsign : exponentSign (cs ++ tail) = exponentSign cs := by
    cases cs with
    | nil => exact h.exponentSign
    | cons c cs => exact exponentSign_cons c (cs ++ tail) cs
  have hlength : (exponentSign cs).length ≤ cs.length := by
    have := congrArg List.length (exponentSign_append cs)
    rw [List.length_append] at this
    omega
  rw [signedExponent?, hsign, List.drop_append_of_le_length hlength, exponentDigits?_apart _ _ h,
    signedExponent?]

theorem spanExponent?_apart (cs : List Char) (h : Apart tail) :
    spanExponent? (cs ++ tail) =
      (spanExponent? cs).map fun found => (found.1, found.2 ++ tail) := by
  cases cs with
  | nil => exact h.closed.spanExponent?
  | cons e cs =>
    rw [List.cons_append, spanExponent?_cons, spanExponent?_cons]
    split
    · exact signedExponent?_apart cs h
    · rfl

theorem decimalToken_apart (whole fraction cs : List Char) (h : Apart tail) :
    decimalToken whole fraction (cs ++ tail) =
      ((decimalToken whole fraction cs).1, (decimalToken whole fraction cs).2 ++ tail) := by
  unfold decimalToken
  rw [spanExponent?_apart cs h]
  cases spanExponent? cs <;> rfl

theorem number_apart (cs : List Char) (h : Apart tail) :
    number (cs ++ tail) = ((number cs).1, (number cs).2 ++ tail) := by
  cases hwhole : spanDigits cs with
  | mk whole rest =>
    have hspan : spanDigits (cs ++ tail) = (whole, rest ++ tail) := by
      rw [spanDigits_apart cs h, hwhole]
    by_cases hpoint : rest.head? = some '.'
    · obtain ⟨rest, rfl⟩ := List.head?_eq_some_iff.mp hpoint
      rw [List.cons_append] at hspan
      rw [number_of_point hspan, number_of_point hwhole, spanDigits_apart rest h]
      dsimp only
      rw [decimalToken_apart _ _ _ h]
    · have hpoint' : (rest ++ tail).head? ≠ some '.' := by
        cases rest with
        | nil => exact fun hhead => (h.closed '.' hhead).2 rfl
        | cons c rest => exact hpoint
      rw [number_of_ne hspan hpoint', number_of_ne hwhole hpoint, spanExponent?_apart rest h]
      cases spanExponent? rest <;> rfl

theorem lexeme_apart (c : Char) (cs : List Char) (h : Apart tail) :
    lexeme c (cs ++ tail) = ((lexeme c cs).1, (lexeme c cs).2 ++ tail) := by
  have hword : ∀ d ∈ tail.head?, continuesWord d = false := fun d hd => (h.closed d hd).1
  obtain ⟨htake, hdrop⟩ := span_append cs hword
  unfold lexeme
  rw [htake, hdrop]
  split
  · rfl
  · split
    · exact number_apart (c :: cs) h
    · rfl

/-! ### Scanning up to a text that stands apart -/

theorem skipLine_append (cs tail : List Char) :
    skipLine (cs ++ tail) = if skipLine cs = [] then skipLine tail else skipLine cs ++ tail := by
  unfold skipLine
  rw [List.dropWhile_append]
  simp only [List.isEmpty_iff]

/-- In front of a text that stands apart, `cs` is scanned by itself. If it ends in a comment, the
comment goes on to the end of the line. -/
def Leaves (cs : List Char) (commented : Bool) : Prop :=
  ∀ tail, Apart tail → scanned (cs ++ tail) = (scanned cs).bind fun ts =>
    (scanned (if commented then skipLine tail else tail)).map (ts ++ ·)

theorem Leaves.token {c : Char} {cs rest : List Char} {t : Token} {commented : Bool}
    (h : Leaves rest commented) (hblank : isBlank c = false) (hcomment : c ≠ '#')
    (hlexeme : lexeme c cs = (some t, rest)) : Leaves (c :: cs) commented := by
  intro tail htail
  have hlonger : lexeme c (cs ++ tail) = (some t, rest ++ tail) := by
    rw [lexeme_apart c cs htail, hlexeme]
  rw [List.cons_append, scanned_token hblank hcomment hlonger, scanned_token hblank hcomment hlexeme,
    h tail htail]
  cases scanned rest with
  | none => rfl
  | some ts => exact Option.map_map ..

theorem exists_leaves (cs : List Char) : ∃ commented, Leaves cs commented := by
  induction cs using scan.induct with
  | case1 =>
    refine ⟨false, fun tail _ => ?_⟩
    rw [scanned_nil]
    exact Option.map_id'.symm
  | case2 c cs hblank ih =>
    obtain ⟨commented, h⟩ := ih
    refine ⟨commented, fun tail htail => ?_⟩
    rw [List.cons_append, scanned_blank hblank, scanned_blank hblank, h tail htail]
  | case3 cs hblank ih =>
    obtain ⟨commented, h⟩ := ih
    -- whether the comment is still open where `cs` ends
    by_cases hopen : skipLine cs = []
    · refine ⟨true, fun tail _ => ?_⟩
      rw [List.cons_append, scanned_comment, scanned_comment, skipLine_append, if_pos hopen, hopen,
        scanned_nil]
      exact Option.map_id'.symm
    · refine ⟨commented, fun tail htail => ?_⟩
      rw [List.cons_append, scanned_comment, scanned_comment, skipLine_append, if_neg hopen,
        h tail htail]
  | case4 c cs hblank hcomment token rest hlexeme tokens hrest ih =>
    exact ih.imp fun _ h => h.token (by simpa using hblank) hcomment hlexeme
  | case5 c cs hblank hcomment token rest hlexeme e hrest ih =>
    exact ih.imp fun _ h => h.token (by simpa using hblank) hcomment hlexeme
  | case6 c cs hblank hcomment rest hlexeme =>
    have hblank : isBlank c = false := by simpa using hblank
    refine ⟨false, fun tail htail => ?_⟩
    have hlonger : lexeme c (cs ++ tail) = (none, rest ++ tail) := by
      rw [lexeme_apart c cs htail, hlexeme]
    rw [List.cons_append, scanned_unreadable hblank hcomment hlonger,
      scanned_unreadable hblank hcomment hlexeme]
    rfl

theorem scanned_newline (tail : List Char) :
    scanned ('\n' :: tail) = (scanned tail).map (.newline :: ·) :=
  scanned_token rfl (by decide) rfl

/-- **A line break cuts a text in two**, also behind a comment. -/
theorem scanned_append_newline (cs tail : List Char) :
    scanned (cs ++ '\n' :: tail) = (scanned cs).bind fun ts =>
      (scanned tail).map fun more => ts ++ .newline :: more := by
  obtain ⟨commented, h⟩ := exists_leaves cs
  have hapart : Apart ('\n' :: tail) := by
    intro c hc
    cases hc
    exact .inr (.inr rfl)
  have hline : (if commented then skipLine ('\n' :: tail) else '\n' :: tail) = '\n' :: tail := by
    cases commented <;> rfl
  rw [h _ hapart, hline, scanned_newline]
  simp only [Option.map_map]
  rfl

end CircuitFrames.Text
