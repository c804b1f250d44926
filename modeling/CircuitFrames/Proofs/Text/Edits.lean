import CircuitFrames.Proofs.Text.Acceptance
import CircuitFrames.Proofs.Text.Apart

/-!
# Edits of the layout

An edit exchanges blanks, adds a comment to a line, or adds a blank line or a line with a comment alone.
Scanning passes over most of this (`Passed`); what it sees is another line break where one line ends and
the next has not begun, and there the grammar allows any number of them
(`Derivation.exists_insert_newline`). So an edited text is read as the same circuit (`parse_edited`).
-/

namespace CircuitFrames.Text

/-! ### What is passed over -/

/-- A run of blanks. -/
def Blanks (cs : List Char) : Prop :=
  ∀ c ∈ cs, isBlank c = true

/-- Blanks, a comment up to the end of its line, or both. -/
def Filler (cs : List Char) : Prop :=
  ∃ blanks comment, cs = blanks ++ comment ∧ Blanks blanks ∧
    (comment = [] ∨ ∃ content, comment = '#' :: content ∧ '\n' ∉ content)

/-- The text `cs` is passed over in front of `tail`, in a comment or outside. -/
structure Passed (cs tail : List Char) : Prop where
  apart : Apart (cs ++ tail)
  scanned : scanned (cs ++ tail) = scanned tail
  skipped : skipLine (cs ++ tail) = skipLine tail

theorem Passed.scanned_append {cs cs' tail : List Char} (h : Passed cs tail) (h' : Passed cs' tail)
    (before : List Char) :
    Text.scanned (before ++ (cs ++ tail)) = Text.scanned (before ++ (cs' ++ tail)) := by
  obtain ⟨commented, hbefore⟩ := exists_leaves before
  rw [hbefore _ h.apart, hbefore _ h'.apart]
  cases commented with
  | true => rw [if_pos rfl, if_pos rfl, h.skipped, h'.skipped]
  | false => rw [if_neg nofun, if_neg nofun, h.scanned, h'.scanned]

theorem Passed.nil {tail : List Char} (h : Apart tail) : Passed [] tail :=
  ⟨h, rfl, rfl⟩

theorem Blanks.passed {cs : List Char} (h : Blanks cs) (hne : cs ≠ []) (tail : List Char) :
    Passed cs tail where
  apart := by
    obtain ⟨c, cs, rfl⟩ := List.exists_cons_of_ne_nil hne
    intro d hd
    cases hd
    exact .inl (h c List.mem_cons_self)
  scanned := by
    clear hne
    induction cs with
    | nil => rfl
    | cons c cs ih =>
      obtain ⟨hc, hcs⟩ := List.forall_mem_cons.mp h
      exact (scanned_blank hc _).trans (ih hcs)
  skipped := by
    refine List.dropWhile_append_of_pos fun c hc => ?_
    rw [bne_iff_ne]
    rintro rfl
    exact absurd (h '\n' hc) (by decide)

/-- Whether a line ends before a text. -/
def LineEnds (tail : List Char) : Prop :=
  tail = [] ∨ tail.head? = some '\n'

theorem LineEnds.apart {tail : List Char} (h : LineEnds tail) : Apart tail := by
  intro c hc
  rcases h with rfl | h
  · cases hc
  · rw [h] at hc
    cases hc
    exact .inr (.inr rfl)

theorem LineEnds.skipLine_eq {tail : List Char} (h : LineEnds tail) : skipLine tail = tail := by
  rcases h with rfl | h
  · rfl
  · obtain ⟨rest, rfl⟩ := List.head?_eq_some_iff.mp h
    rfl

theorem skipLine_content {content tail : List Char} (h : '\n' ∉ content) (htail : LineEnds tail) :
    skipLine (content ++ tail) = tail := by
  rw [skipLine, List.dropWhile_append_of_pos, ← skipLine, htail.skipLine_eq]
  intro c hc
  rw [bne_iff_ne]
  rintro rfl
  exact h hc

theorem passed_comment {content tail : List Char} (h : '\n' ∉ content) (htail : LineEnds tail) :
    Passed ('#' :: content) tail where
  apart := by
    intro c hc
    cases hc
    exact .inr (.inl rfl)
  scanned := by rw [List.cons_append, scanned_comment, skipLine_content h htail]
  skipped := by
    have hmark : skipLine ('#' :: (content ++ tail)) = skipLine (content ++ tail) := rfl
    rw [List.cons_append, hmark, skipLine_content h htail, htail.skipLine_eq]

theorem Passed.append {cs cs' tail : List Char} (h : Passed cs (cs' ++ tail)) (h' : Passed cs' tail) :
    Passed (cs ++ cs') tail := by
  constructor <;> rw [List.append_assoc]
  · exact h.apart
  · exact h.scanned.trans h'.scanned
  · exact h.skipped.trans h'.skipped

theorem Filler.passed {cs tail : List Char} (h : Filler cs) (htail : LineEnds tail) :
    Passed cs tail := by
  obtain ⟨blanks, comment, rfl, hblanks, hcomment⟩ := h
  have hrest : Passed comment tail := by
    rcases hcomment with rfl | ⟨content, rfl, hcontent⟩
    · exact .nil htail.apart
    · exact passed_comment hcontent htail
  by_cases hne : blanks = []
  · rwa [hne]
  · exact (hblanks.passed hne _).append hrest

/-! ### Line breaks between lines -/

open Grammar

theorem newline_notMem_base (b : Base) : Token.newline ∉ b.tokens := by
  cases b with
  | record negative magnitude _ => cases negative <;> simp [Base.tokens, minus]
  | _ => simp [Base.tokens]

theorem newline_notMem_aim (a : Aim) : Token.newline ∉ a.tokens := by
  rw [Aim.tokens, List.mem_append]
  rintro (h | h)
  · cases List.eq_of_mem_replicate h
  · exact newline_notMem_base a.base h

theorem newline_notMem_number (n : Number) : Token.newline ∉ n.tokens := by
  obtain ⟨negative, l⟩ := n
  cases negative <;> cases l <;> simp [Number.tokens, minus, Literal.token]

theorem newline_notMem_arguments (a : Arguments) : Token.newline ∉ a.tokens := by
  cases a with
  | absent => exact List.not_mem_nil
  | empty => simp [Arguments.tokens]
  | numbers first others =>
    simp [Arguments.tokens, Arguments.furtherTokens, newline_notMem_number]

theorem newline_notMem_line (l : Line) : Token.newline ∉ l.tokens := by
  simp [Line.tokens, newline_notMem_arguments, newline_notMem_aim]

/-- A place among tokens that is not within a line: in front of all, behind a line break, or behind
all. -/
def BetweenLines (pre post : List Token) : Prop :=
  pre = [] ∨ pre.getLast? = some .newline ∨ post = []

namespace BetweenLines

variable {pre pre' post : List Token}

theorem suffix (h : BetweenLines (pre ++ pre') post) : BetweenLines pre' post := by
  by_cases hpre : pre' = []
  · exact .inl hpre
  · rcases h with h | h | h
    · exact absurd (List.append_eq_nil_iff.mp h).2 hpre
    · rw [List.getLast?_append_of_ne_nil pre hpre] at h
      exact .inr (.inl h)
    · exact .inr (.inr h)

theorem tail {t : Token} (h : BetweenLines (t :: pre) post) : BetweenLines pre post := by
  rw [← List.singleton_append] at h
  exact h.suffix

theorem eq_nil_of_newline_notMem (h : BetweenLines pre post) (hpre : Token.newline ∉ pre)
    (hpost : post ≠ []) : pre = [] := by
  rcases h with h | h | h
  · exact h
  · exact absurd (List.mem_of_getLast? h) hpre
  · exact absurd h hpost

theorem split (front : List Token) {rest : List Token} (h : BetweenLines pre post)
    (heq : front ++ rest = pre ++ post) (hfront : Token.newline ∉ front) (hrest : rest ≠ []) :
    pre = [] ∨ ∃ more, pre = front ++ more ∧ rest = more ++ post ∧ BetweenLines more post := by
  rcases List.append_eq_append_iff.mp heq with ⟨more, rfl, hmore⟩ | ⟨left, rfl, rfl⟩
  · exact .inr ⟨more, rfl, hmore, h.suffix⟩
  · have hpre : Token.newline ∉ pre := fun hmem => hfront (List.mem_append_left _ hmem)
    exact .inl (h.eq_nil_of_newline_notMem hpre (List.append_ne_nil_of_right_ne_nil _ hrest))

end BetweenLines

namespace Grammar.Derivation

theorem exists_insert_newline {d : Derivation} {pre post : List Token} (h : d.tokens = pre ++ post)
    (hbetween : BetweenLines pre post) :
    ∃ e : Derivation, e.tokens = pre ++ .newline :: post ∧ e.circuit = d.circuit := by
  have hfront (d : Derivation) {post : List Token} (h : d.tokens = post) :
      ∃ e : Derivation, e.tokens = .newline :: post ∧ e.circuit = d.circuit :=
    ⟨.newline d, by rw [tokens, h], rfl⟩
  induction d generalizing pre post with
  | done =>
    obtain ⟨rfl, rfl⟩ := List.nil_eq_append_iff.mp h
    exact hfront .done rfl
  | newline d ih =>
    cases pre with
    | nil => exact hfront (.newline d) h
    | cons t pre =>
      obtain ⟨rfl, hrest⟩ := List.cons.inj h
      obtain ⟨e, he, hc⟩ := ih hrest hbetween.tail
      exact ⟨.newline e, by rw [tokens, he]; rfl, hc⟩
  | last l =>
    by_cases hpost : post = []
    · subst hpost
      rw [List.append_nil] at h
      exact ⟨.line l .done, by rw [tokens, tokens, ← h, tokens], rfl⟩
    · have hpre : Token.newline ∉ pre := fun hmem =>
        newline_notMem_line l (by rw [tokens] at h; rw [h]; exact List.mem_append_left _ hmem)
      obtain rfl := hbetween.eq_nil_of_newline_notMem hpre hpost
      exact hfront (.last l) h
  | line l d ih =>
    rcases hbetween.split _ h (newline_notMem_line l) (List.cons_ne_nil _ _) with
      rfl | ⟨more, rfl, hrest, hmore⟩
    · exact hfront (.line l d) h
    · cases more with
      | nil =>
        obtain rfl : .newline :: d.tokens = post := hrest
        exact ⟨.line l (.newline d), by simp [tokens], rfl⟩
      | cons t more =>
        obtain ⟨rfl, hd⟩ := List.cons.inj hrest
        obtain ⟨e, he, hc⟩ := ih hd hmore.tail
        exact ⟨.line l e, by rw [tokens, he]; simp, by rw [circuit, hc, circuit]⟩
  | block n runs b d ihb ihd =>
    have hopen : Token.newline ∉ [.word "REPEAT", .integer n, .leftBrace] := by simp
    rcases hbetween.split [.word "REPEAT", .integer n, .leftBrace] h hopen (by simp) with
      rfl | ⟨more, rfl, hrest, hmore⟩
    · exact hfront (.block n runs b d) h
    · -- behind the opening brace the place is behind the body or in it
      rcases List.append_eq_append_iff.mp hrest with ⟨after, rfl, hafter⟩ | ⟨left, hb, rfl⟩
      · cases after with
        | nil =>
          -- in front of the closing brace, where the body takes the line break
          obtain rfl : .rightBrace :: d.tokens = post := hafter
          obtain ⟨e, he, hc⟩ := ihb (List.append_nil _).symm (.inr (.inr rfl))
          exact ⟨.block n runs e d, by rw [tokens, he]; simp, by rw [circuit, hc, circuit]⟩
        | cons t after =>
          obtain ⟨rfl, hd⟩ := List.cons.inj hafter
          have hplace : BetweenLines (b.tokens ++ [.rightBrace] ++ after) post := by simpa using hmore
          obtain ⟨e, he, hc⟩ := ihd hd hplace.suffix
          exact ⟨.block n runs b e, by rw [tokens, he]; simp, by rw [circuit, hc, circuit]⟩
      · have hplace : BetweenLines more left := by
          rcases hmore with h | h | h
          · exact .inl h
          · exact .inr (.inl h)
          · simp at h
        obtain ⟨e, he, hc⟩ := ihb hb hplace
        exact ⟨.block n runs e d, by rw [tokens, he]; simp, by rw [circuit, hc, circuit]⟩

end Grammar.Derivation

/-! ### Edits -/

/-- An edit of the layout of a text. -/
inductive Edit : List Char → List Char → Prop
  /-- A run of blanks is replaced by another. -/
  | respaced {before run other behind : List Char} (hrun : Blanks run) (hne : run ≠ [])
    (hother : Blanks other) (hne' : other ≠ []) :
    Edit (before ++ (run ++ behind)) (before ++ (other ++ behind))
  /-- Blanks and a comment are added at the end of a line. -/
  | trailed {before filler behind : List Char} (hfiller : Filler filler) (hend : LineEnds behind) :
    Edit (before ++ behind) (before ++ (filler ++ behind))
  /-- A line with nothing but blanks and a comment is inserted before a line. -/
  | inserted {before filler behind : List Char} (hfiller : Filler filler)
    (hstart : before = [] ∨ before.getLast? = some '\n') :
    Edit (before ++ behind) (before ++ (filler ++ '\n' :: behind))
  /-- Such a line is added behind the last one. -/
  | added {text filler : List Char} (hfiller : Filler filler) : Edit text (text ++ '\n' :: filler)

/-- A text whose tokens have a derivation of the circuit. -/
def Spells (cs : List Char) (c : Circuit) : Prop :=
  ∃ d : Derivation, scanned cs = some d.tokens ∧ d.circuit = c

theorem parse_eq_ok_iff_spells {source : String} {c : Circuit} :
    parse source = .ok c ↔ Spells source.toList c := by
  rw [parse_eq_ok_iff]
  constructor
  · rintro ⟨ts, l, r, hscan, htakes⟩
    obtain ⟨d, rfl, rfl⟩ := derivation_of_takes htakes
    refine ⟨d, ?_, rfl⟩
    rw [scanned_eq_some_iff.mpr hscan, behind, if_neg Bool.false_ne_true, List.append_nil]
  · rintro ⟨d, hscan, rfl⟩
    obtain ⟨l, htakes⟩ := takes_of_derivation d false 1 (r := []) fun _ => rfl
    rw [behind, if_neg Bool.false_ne_true, List.append_nil] at htakes
    exact ⟨d.tokens, l, [], scanned_eq_some_iff.mp hscan, htakes⟩

theorem scanned_filler_line {filler : List Char} (h : Filler filler) (behind : List Char) :
    scanned (filler ++ '\n' :: behind) = (scanned behind).map (.newline :: ·) := by
  rw [(h.passed (.inr rfl)).scanned, scanned_newline]

/-- The tokens of an edited text: the same, or with a line break more between lines. -/
theorem Edit.tokens {cs cs' : List Char} (h : Edit cs cs') {ts : List Token}
    (hts : scanned cs = some ts) :
    scanned cs' = some ts ∨ ∃ pre post, ts = pre ++ post ∧ BetweenLines pre post ∧
      scanned cs' = some (pre ++ .newline :: post) := by
  cases h with
  | @respaced before run other behind hrun hne hother hne' =>
    left
    rw [← hts]
    exact (hother.passed hne' behind).scanned_append (hrun.passed hne behind) before
  | @trailed before filler behind hfiller hend =>
    left
    rw [← hts]
    exact (hfiller.passed hend).scanned_append (.nil hend.apart) before
  | @inserted before filler behind hfiller hstart =>
    right
    rcases hstart with rfl | hstart
    · refine ⟨[], ts, rfl, .inl rfl, ?_⟩
      rw [List.nil_append, scanned_filler_line hfiller]
      exact congrArg (Option.map _) hts
    · obtain ⟨before, rfl⟩ := List.getLast?_eq_some_iff.mp hstart
      rw [List.append_assoc, List.singleton_append, scanned_append_newline,
        Option.bind_eq_some_iff] at hts
      obtain ⟨front, hfront, hts⟩ := hts
      obtain ⟨rest, hrest, rfl⟩ := Option.map_eq_some_iff.mp hts
      refine ⟨front ++ [.newline], rest, by simp, .inr (.inl (by simp)), ?_⟩
      rw [List.append_assoc, List.singleton_append, scanned_append_newline, hfront,
        scanned_filler_line hfiller, hrest]
      simp
  | @added _ filler hfiller =>
    right
    refine ⟨ts, [], (List.append_nil ts).symm, .inr (.inr rfl), ?_⟩
    have hnone : scanned filler = some [] := by
      have h := (hfiller.passed (.inl rfl)).scanned
      rwa [List.append_nil, scanned_nil] at h
    rw [scanned_append_newline, hts, hnone]
    rfl

theorem Edit.spells {cs cs' : List Char} (h : Edit cs cs') {c : Circuit} (hc : Spells cs c) :
    Spells cs' c := by
  obtain ⟨d, hd, rfl⟩ := hc
  rcases h.tokens hd with hsame | ⟨pre, post, hsplit, hbetween, hmore⟩
  · exact ⟨d, hsame, rfl⟩
  · obtain ⟨e, he, hc⟩ := Derivation.exists_insert_newline hsplit hbetween
    exact ⟨e, by rw [hmore, he], hc⟩

/-- **Layout does not matter.** However often a text that is read as a circuit is edited in its blanks,
comments and blank lines, it is read as the same circuit. -/
theorem parse_edited {source edited : String}
    (hedits : Relation.ReflTransGen Edit source.toList edited.toList) {c : Circuit}
    (h : parse source = .ok c) : parse edited = .ok c := by
  rw [parse_eq_ok_iff_spells] at h ⊢
  have hkeeps : ∀ cs, Relation.ReflTransGen Edit source.toList cs → Spells cs c := by
    intro cs hcs
    induction hcs with
    | refl => exact h
    | tail _ hedit ih => exact hedit.spells ih
  exact hkeeps _ hedits

/-- A block whose count is behind a tab, with a comment behind its brace, a blank line in front of its
body and a comment behind the end. -/
theorem parse_edited_block :
    let source := "REPEAT 2 \x7b\nTICK\n\x7d"
    let edited := "REPEAT\t2 \x7b#a\n \nTICK\n\x7d\n#"
    let c : Circuit := .repeated 2 (.op (.named "TICK" [] []) .nil) .nil
    Relation.ReflTransGen Edit source.toList edited.toList ∧ parse source = .ok c ∧
      parse edited = .ok c := by
  intro source edited c
  have hblank {c : Char} (h : isBlank c = true) : Blanks [c] :=
    fun d hd => List.mem_singleton.mp hd ▸ h
  have hspace : Edit "REPEAT 2 \x7b\nTICK\n\x7d".toList "REPEAT\t2 \x7b\nTICK\n\x7d".toList :=
    @Edit.respaced "REPEAT".toList [' '] ['\t'] "2 \x7b\nTICK\n\x7d".toList (hblank rfl) nofun
      (hblank rfl) nofun
  have hcomment : Edit "REPEAT\t2 \x7b\nTICK\n\x7d".toList "REPEAT\t2 \x7b#a\nTICK\n\x7d".toList :=
    @Edit.trailed "REPEAT\t2 \x7b".toList ['#', 'a'] _
      ⟨[], _, rfl, nofun, .inr ⟨['a'], rfl, by decide⟩⟩ (.inr rfl)
  have hline : Edit "REPEAT\t2 \x7b#a\nTICK\n\x7d".toList
      "REPEAT\t2 \x7b#a\n \nTICK\n\x7d".toList :=
    @Edit.inserted "REPEAT\t2 \x7b#a\n".toList [' '] _
      ⟨[' '], [], rfl, hblank rfl, .inl rfl⟩ (.inr (by decide))
  have hend : Edit "REPEAT\t2 \x7b#a\n \nTICK\n\x7d".toList
      "REPEAT\t2 \x7b#a\n \nTICK\n\x7d\n#".toList :=
    @Edit.added _ ['#'] ⟨[], _, rfl, nofun, .inr ⟨[], rfl, nofun⟩⟩
  have hedits : Relation.ReflTransGen Edit source.toList edited.toList :=
    .head hspace (.head hcomment (.head hline (.single hend)))
  have hparse : parse source = .ok c := by decide +kernel
  exact ⟨hedits, hparse, parse_edited hedits hparse⟩

end CircuitFrames.Text
