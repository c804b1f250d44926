import CircuitFrames.Text.Lexer
import CircuitFrames.Proofs.Numeral.Plain

/-!
# Scanning piece by piece

A piece of text in front of a tail is scanned by itself when the tail cannot prolong its last token
(`Closed`). `Reads` is what such a piece contributes: its tokens in front of those of the tail, or,
if a number in it is too large, no tokens at all. Pieces are put together by `Reads.append`. The
words that scanning finds are names (`isName_of_scan`).
-/

namespace CircuitFrames.Text

open Numeral

/-! ### Classes of characters -/

/-- A name: a letter or underscore, then letters, digits and underscores. -/
def isName (s : String) : Bool :=
  match s.toList with
  | [] => false
  | c :: cs => startsWord c && cs.all continuesWord

/-- No word and no number goes on into the text. -/
def Closed (cs : List Char) : Prop :=
  ∀ c ∈ cs.head?, continuesWord c = false ∧ c ≠ '.'

theorem closed_cons {c : Char} {cs : List Char} (hword : continuesWord c = false) (hpoint : c ≠ '.') :
    Closed (c :: cs) := by
  intro d hd
  cases hd
  exact ⟨hword, hpoint⟩

theorem continuesWord_of_isDigit {c : Char} (h : c.isDigit = true) : continuesWord c = true := by
  simp [continuesWord, Char.isAlphanum, h]

theorem continuesWord_of_startsWord {c : Char} (h : startsWord c = true) : continuesWord c = true := by
  simp only [startsWord, continuesWord, Char.isAlphanum, Bool.or_eq_true] at h ⊢
  rcases h with h | h
  · exact .inl (.inl h)
  · exact .inr h

theorem not_blank_of_continuesWord {c : Char} (h : continuesWord c = true) :
    isBlank c = false ∧ c ≠ '#' := by
  constructor
  · cases hblank : isBlank c with
    | false => rfl
    | true =>
      simp only [isBlank, Bool.or_eq_true, beq_iff_eq] at hblank
      rcases hblank with (rfl | rfl) | rfl <;> exact absurd h (by decide)
  · rintro rfl
    exact absurd h (by decide)

theorem startsWord_of_isDigit {c : Char} (h : c.isDigit = true) : startsWord c = false := by
  have htoNat : c.toNat = c.val.toNat := rfl
  have hbounds : 48 ≤ c.val.toNat ∧ c.val.toNat ≤ 57 := by
    simpa [Char.isDigit, UInt32.le_iff_toNat_le] using h
  have hunderscore : c ≠ '_' := by
    rintro rfl
    exact absurd h (by decide)
  simp [startsWord, hunderscore, Char.isAlpha, Char.isUpper, Char.isLower, UInt32.le_iff_toNat_le]
  omega

/-! ### Texts that are closed -/

theorem Closed.isDigit {cs : List Char} (h : Closed cs) : ∀ c ∈ cs.head?, c.isDigit = false := by
  intro c hc
  cases hdigit : c.isDigit with
  | false => rfl
  | true => exact absurd (continuesWord_of_isDigit hdigit) (by rw [(h c hc).1]; exact Bool.false_ne_true)

theorem Closed.spanExponent? {cs : List Char} (h : Closed cs) : spanExponent? cs = none := by
  cases cs with
  | nil => rfl
  | cons c cs =>
    have hword := (h c rfl).1
    refine if_neg ?_
    rintro (rfl | rfl) <;> exact absurd hword (by decide)

/-! ### Tokens at the front -/

/-- The tokens of a text, if it has only tokens. -/
def scanned (cs : List Char) : Option (List Token) :=
  (scan cs).toOption

theorem scanned_nil : scanned [] = some [] := by
  rw [scanned, scan]
  rfl

theorem scanned_blank {c : Char} (h : isBlank c = true) (tail : List Char) :
    scanned (c :: tail) = scanned tail := by
  rw [scanned, scan, if_pos h, scanned]

theorem scanned_token {c : Char} (hblank : isBlank c = false) (hcomment : c ≠ '#')
    {cs rest : List Char} {t : Token} (h : lexeme c cs = (some t, rest)) :
    scanned (c :: cs) = (scanned rest).map (t :: ·) := by
  rw [scanned, scan, if_neg (by rw [hblank]; exact Bool.false_ne_true), if_neg hcomment, scanned]
  split
  next heq =>
    rw [h] at heq
    cases heq
    cases scan rest <;> rfl
  next heq =>
    rw [h] at heq
    cases heq

theorem scanned_unreadable {c : Char} (hblank : isBlank c = false) (hcomment : c ≠ '#')
    {cs rest : List Char} (h : lexeme c cs = (none, rest)) : scanned (c :: cs) = none := by
  rw [scanned, scan, if_neg (by rw [hblank]; exact Bool.false_ne_true), if_neg hcomment]
  split
  next heq =>
    rw [h] at heq
    cases heq
  next => rfl

/-! ### Pieces of text -/

/-- In front of `tail`, the piece `cs` is scanned as the tokens `ts` if its numbers fit, and else
stops the scan. -/
structure Reads (cs tail : List Char) (fits : Prop) (ts : List Token) : Prop where
  read : fits → scanned (cs ++ tail) = (scanned tail).map (ts ++ ·)
  stop : ¬fits → scanned (cs ++ tail) = none

namespace Reads

variable {cs cs' tail : List Char} {fits fits' : Prop} {ts ts' : List Token}

theorem nil : Reads [] tail True [] where
  read _ := by simp
  stop h := absurd trivial h

theorem append (h : Reads cs (cs' ++ tail) fits ts) (h' : Reads cs' tail fits' ts') :
    Reads (cs ++ cs') tail (fits ∧ fits') (ts ++ ts') := by
  constructor
  · rintro ⟨hfits, hfits'⟩
    rw [List.append_assoc, h.read hfits, h'.read hfits', Option.map_map]
    congr 1
    funext more
    exact (List.append_assoc ts ts' more).symm
  · intro hnot
    rw [List.append_assoc]
    by_cases hfits : fits
    · rw [h.read hfits, h'.stop fun hfits' => hnot ⟨hfits, hfits'⟩, Option.map_none]
    · exact h.stop hfits

theorem congr (h : Reads cs tail fits ts) (hiff : fits ↔ fits') : Reads cs tail fits' ts :=
  propext hiff ▸ h

theorem before (h : Reads cs (cs' ++ tail) True ts) (h' : Reads cs' tail fits' ts') :
    Reads (cs ++ cs') tail fits' (ts ++ ts') :=
  (h.append h').congr (iff_of_eq (true_and fits'))

theorem after (h : Reads cs (cs' ++ tail) fits ts) (h' : Reads cs' tail True ts') :
    Reads (cs ++ cs') tail fits (ts ++ ts') :=
  (h.append h').congr (iff_of_eq (and_true fits))

theorem of_scanned (h : scanned (cs ++ tail) = (scanned tail).map (ts ++ ·)) :
    Reads cs tail True ts where
  read _ := h
  stop hnot := absurd trivial hnot

theorem blank (h : Reads cs tail fits ts) : Reads (' ' :: cs) tail fits ts :=
  have hblank (tail : List Char) : scanned (' ' :: tail) = scanned tail := scanned_blank rfl tail
  ⟨fun hfits => (hblank _).trans (h.read hfits), fun hnot => (hblank _).trans (h.stop hnot)⟩

theorem blanks (n : Nat) (h : Reads cs tail fits ts) :
    Reads (List.replicate n ' ' ++ cs) tail fits ts := by
  induction n with
  | zero => exact h
  | succ n ih => exact ih.blank

theorem symbol {c : Char} {t : Token} (hc : Token.ofChar? c = some t) (h : Reads cs tail fits ts) :
    Reads (c :: cs) tail fits (t :: ts) := by
  have hlexeme : lexeme c (cs ++ tail) = (some t, cs ++ tail) ∧ isBlank c = false ∧ c ≠ '#' := by
    unfold Token.ofChar? at hc
    split at hc <;> cases hc <;> exact ⟨rfl, rfl, by decide⟩
  have hfirst : Reads [c] (cs ++ tail) True [t] :=
    of_scanned (scanned_token hlexeme.2.1 hlexeme.2.2 hlexeme.1)
  exact hfirst.before h

theorem word {s : String} (h : isName s = true) (htail : Closed tail) :
    Reads s.toList tail True [.word s] := by
  unfold isName at h
  split at h
  next => exact absurd h Bool.false_ne_true
  next c cs hs =>
    obtain ⟨hstart, hall⟩ := (Bool.and_eq_true _ _).mp h
    have hall : ∀ d ∈ cs, continuesWord d = true := List.all_eq_true.mp hall
    obtain ⟨hblank, hcomment⟩ := not_blank_of_continuesWord (continuesWord_of_startsWord hstart)
    have hstop : ∀ d ∈ tail.head?, continuesWord d = false := fun d hd => (htail d hd).1
    have hname : String.ofList (c :: cs) = s := by rw [← hs, String.ofList_toList]
    have hlexeme : lexeme c (cs ++ tail) = (some (.word s), tail) := by
      rw [lexeme, if_pos hstart, takeWhile_append_of_head hall hstop,
        dropWhile_append_of_head hall hstop, hname]
    rw [hs]
    exact of_scanned (scanned_token hblank hcomment hlexeme)

theorem lexeme_of_isDigit {c : Char} (h : c.isDigit = true) (cs : List Char) :
    lexeme c cs = number (c :: cs) := by
  rw [lexeme, if_neg (by rw [startsWord_of_isDigit h]; exact Bool.false_ne_true), if_pos h]

theorem number_digits {ds : List Char} (hds : ∀ c ∈ ds, c.isDigit = true) (htail : Closed tail) :
    number (ds ++ tail) = (integer? ds, tail) := by
  have hexponent := htail.spanExponent?
  unfold number
  rw [spanDigits_append hds htail.isDigit]
  dsimp only
  split
  next rest =>
    exact absurd rfl (htail '.' rfl).2
  next =>
    rw [hexponent]

theorem number_fraction {whole fraction : List Char} (hwhole : ∀ c ∈ whole, c.isDigit = true)
    (hfraction : ∀ c ∈ fraction, c.isDigit = true) (htail : Closed tail) :
    number (whole ++ '.' :: (fraction ++ tail)) =
      (some (.decimal (Decimal.ofLexeme whole fraction 0).toFloat), tail) := by
  have hpoint : ∀ c ∈ ('.' :: (fraction ++ tail)).head?, c.isDigit = false := by
    intro c hc
    cases hc
    rfl
  simp only [number, spanDigits_append hwhole hpoint, spanDigits_append hfraction htail.isDigit,
    decimalToken, htail.spanExponent?]

theorem digits {ds : List Char} (hne : ds ≠ []) (hds : ∀ c ∈ ds, c.isDigit = true)
    (htail : Closed tail) :
    Reads ds tail (digitValue ds < UInt64.size) [.integer (.ofNat (digitValue ds))] := by
  cases ds with
  | nil => exact absurd rfl hne
  | cons c cs =>
    have hdigit := hds c List.mem_cons_self
    obtain ⟨hblank, hcomment⟩ := not_blank_of_continuesWord (continuesWord_of_isDigit hdigit)
    have hlexeme : lexeme c (cs ++ tail) = (integer? (c :: cs), tail) :=
      (lexeme_of_isDigit hdigit _).trans (number_digits hds htail)
    constructor
    · intro hfits
      rw [integer?, if_pos hfits] at hlexeme
      exact scanned_token hblank hcomment hlexeme
    · intro hlarge
      rw [integer?, if_neg hlarge] at hlexeme
      exact scanned_unreadable hblank hcomment hlexeme

theorem fraction {whole fraction : List Char} (hne : whole ≠ [])
    (hwhole : ∀ c ∈ whole, c.isDigit = true) (hfraction : ∀ c ∈ fraction, c.isDigit = true)
    (htail : Closed tail) :
    Reads (whole ++ '.' :: fraction) tail True
      [.decimal (Decimal.ofLexeme whole fraction 0).toFloat] := by
  have hnumber := number_fraction hwhole hfraction htail
  cases whole with
  | nil => exact absurd rfl hne
  | cons c cs =>
    have hdigit := hwhole c List.mem_cons_self
    obtain ⟨hblank, hcomment⟩ := not_blank_of_continuesWord (continuesWord_of_isDigit hdigit)
    refine of_scanned ?_
    rw [List.append_assoc, List.cons_append, List.cons_append]
    exact scanned_token hblank hcomment ((lexeme_of_isDigit hdigit _).trans hnumber)

end Reads

/-! ### Words are names -/

theorem number_cases {cs : List Char} {t : Token} (h : (number cs).1 = some t) :
    (∃ v, t = .decimal v) ∨ ∃ n, t = .integer n := by
  have hdecimal (whole fraction rest : List Char) :
      ∃ v, (decimalToken whole fraction rest).1 = .decimal v := by
    unfold decimalToken
    split <;> exact ⟨_, rfl⟩
  unfold number at h
  split at h
  dsimp only at h
  split at h
  next =>
    obtain ⟨v, hv⟩ := hdecimal _ _ _
    exact .inl ⟨v, (Option.some.inj h).symm.trans hv⟩
  next =>
    split at h
    next => exact .inl ⟨_, (Option.some.inj h).symm⟩
    next =>
      unfold integer? at h
      dsimp only at h
      split at h
      · exact .inr ⟨_, (Option.some.inj h).symm⟩
      · cases h

theorem isName_of_lexeme {c : Char} {cs rest : List Char} {w : String}
    (h : lexeme c cs = (some (.word w), rest)) : isName w = true := by
  unfold lexeme at h
  split at h
  next hstart =>
    cases h
    rw [isName, String.toList_ofList]
    dsimp only
    rw [hstart, Bool.true_and, List.all_takeWhile]
  next =>
    split at h
    next => rcases number_cases (congrArg Prod.fst h) with ⟨v, hv⟩ | ⟨n, hn⟩ <;> contradiction
    next =>
      have h := congrArg Prod.fst h
      unfold Token.ofChar? at h
      dsimp only at h
      split at h <;> cases h

theorem isName_of_scan {cs : List Char} {ts : List Token} (h : scan cs = .ok ts) :
    ∀ w, .word w ∈ ts → isName w = true := by
  fun_induction scan cs generalizing ts with
  | case1 =>
    cases h
    exact fun w hw => absurd hw List.not_mem_nil
  | case2 c cs hblank ih => exact ih h
  | case3 cs hblank ih => exact ih h
  | case4 c cs hblank hcomment token rest hlexeme tokens hrest ih =>
    cases h
    intro w hw
    rcases List.mem_cons.mp hw with rfl | hw
    · exact isName_of_lexeme hlexeme
    · exact ih hrest w hw
  | case5 => cases h
  | case6 => cases h

end CircuitFrames.Text
