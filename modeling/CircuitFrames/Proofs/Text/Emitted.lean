import CircuitFrames.Text.Printer
import CircuitFrames.Proofs.Numeral.Plain
import CircuitFrames.Proofs.Text.Scanning

/-!
# The tokens of emitted text

`Circuit.tokens` are the tokens that the text of a circuit is made of. Scanning the text finds just
them as long as every argument that is shown as a natural number fits sixty-four bits, and finds no
tokens at all otherwise (`reads_emit`).
-/

namespace CircuitFrames

open Numeral Text
open Float.Model.UnpackedFloat (Sign)

/-! ### What a circuit consists of -/

namespace Circuit

/-- The operations of a circuit in the order in which they are written, those of a block once. -/
def written : Circuit → List Operation
  | nil => []
  | op o rest => o :: rest.written
  | repeated _ body rest => body.written ++ rest.written

/-- The counts of the blocks of a circuit, of nested ones too. -/
def counts : Circuit → List UInt64
  | nil => []
  | op _ rest => rest.counts
  | repeated n body rest => n :: (body.counts ++ rest.counts)

end Circuit

/-- An operation that its text can say: its name is a name but not that of a block, its kind is the
one that the name resolves to, and its lookbacks go back. -/
structure Operation.Spelled (o : Operation) : Prop where
  name : isName o.name = true
  notRepeat : o.name ≠ "REPEAT"
  kind : o.kind = .ofName o.name
  lookbacks : ∀ k, .record k ∈ o.targets → k < 0

/-- A circuit of such operations, in which every block runs. -/
structure Circuit.Spelled (c : Circuit) : Prop where
  operations : ∀ o ∈ c.written, o.Spelled
  counts : ∀ n ∈ c.counts, n ≠ 0

/-! ### Tokens -/

namespace Text

/-- The token in front of a number with a sign. -/
def signTokens : Sign → List Token
  | .positive => []
  | .negative => [.minus]

/-- The token of a decimal: digits alone are an integer. -/
def decimalShown (d : Decimal) : Token :=
  if 0 ≤ d.exponent then .integer (.ofNat d.natural) else .decimal d.toFloat

/-- The tokens of an argument. -/
def argumentTokens (x : Float) : List Token :=
  match shown? x, x.toModel.unpack with
  | some (s, d), _ => signTokens s ++ [decimalShown d]
  | none, .infinity s => signTokens s ++ [.word "inf"]
  | none, _ => [.word "NaN"]

/-- The tokens of further arguments, each with a comma before it. -/
def furtherTokens (xs : List Float) : List Token :=
  xs.flatMap fun x => .comma :: argumentTokens x

/-- The tokens of the arguments of an operation. -/
def argumentsTokens : List Float → List Token
  | [] => []
  | x :: xs => .leftParen :: (argumentTokens x ++ (furtherTokens xs ++ [.rightParen]))

/-- The token of an inverted result. -/
def bangTokens (inverted : Bool) : List Token :=
  if inverted then [.bang] else []

/-- The token of a natural number. -/
def naturalToken (n : Nat) : Token :=
  .integer (.ofNat n)

/-- The tokens of an offset. -/
def offsetTokens (k : Int) : List Token :=
  if k < 0 then [.minus, naturalToken k.natAbs] else [naturalToken k.natAbs]

/-- The word of a Pauli target. -/
def pauliWord (p : Pauli) (q : Qubit) : String :=
  .ofList (p.letter :: Nat.toDigits 10 q.toNat)

/-- The tokens of a target. -/
def targetTokens : Target → List Token
  | .qubit q inverted => bangTokens inverted ++ [naturalToken q.toNat]
  | .pauli p q inverted => bangTokens inverted ++ [.word (pauliWord p q)]
  | .record k => .word "rec" :: .leftBracket :: (offsetTokens k.toInt ++ [.rightBracket])
  | .combiner => [.star]

/-- The tokens of an operation. -/
def operationTokens (o : Operation) : List Token :=
  .word o.name :: (argumentsTokens o.args ++ o.targets.flatMap targetTokens)

end Text

/-- The tokens of the text of a circuit. -/
def Circuit.tokens : Circuit → List Token
  | nil => []
  | op o rest => operationTokens o ++ .newline :: rest.tokens
  | repeated n body rest =>
    .word "REPEAT" :: .integer n :: .leftBrace :: .newline ::
      (body.tokens ++ .rightBrace :: .newline :: rest.tokens)

namespace Text

/-- The text of a double is no natural number past sixty-four bits. -/
def Fits (x : Float) : Prop :=
  ∀ s d, shown? x = some (s, d) → d.FitsWord

variable {tail : List Char}

/-! ### Reading arguments -/

theorem closed_of_symbol {c : Char} {t : Token} (h : Token.ofChar? c = some t) (cs : List Char) :
    Closed (c :: cs) := by
  have hclass : continuesWord c = false ∧ c ≠ '.' := by
    unfold Token.ofChar? at h
    split at h <;> cases h <;> decide
  exact closed_cons hclass.1 hclass.2

theorem reads_sign (s : Sign) : Reads (signChars s) tail True (signTokens s) := by
  cases s with
  | positive => exact .nil
  | negative => exact .symbol rfl .nil

theorem reads_decimal (d : Decimal) (htail : Closed tail) :
    Reads d.chars tail d.FitsWord [decimalShown d] := by
  unfold decimalShown
  by_cases hnatural : 0 ≤ d.exponent
  · obtain ⟨hne, hdigits, hvalue⟩ := d.digits_of_natural hnatural
    have h := Reads.digits hne hdigits htail
    rw [hvalue] at h
    rw [if_pos hnatural]
    exact h.congr ⟨fun hlt _ => hlt, fun hfits => hfits hnatural⟩
  · obtain ⟨whole, fraction, hchars, hne, hwhole, hfraction, hlexeme⟩ :=
      d.chars_of_fraction (by omega)
    have h := Reads.fraction hne hwhole hfraction htail
    rw [hlexeme, ← hchars] at h
    rw [if_neg hnatural]
    exact h.congr ⟨fun _ hle => absurd hle hnatural, fun _ => trivial⟩

theorem reads_argument (x : Float) (htail : Closed tail) :
    Reads (plain x).toList tail (Fits x) (argumentTokens x) := by
  unfold argumentTokens Fits
  rw [plain, String.toList_ofList]
  cases hshown : shown? x with
  | some shown =>
    obtain ⟨s, d⟩ := shown
    rw [plainChars_of_shown hshown]
    refine ((reads_sign s).before (reads_decimal d htail)).congr ⟨?_, ?_⟩
    · intro hfits s' d' h
      cases h
      exact hfits
    · exact fun hfits => hfits s d rfl
  | none =>
    have hfits : True ↔ ∀ s d, (none : Option (Sign × Decimal)) = some (s, d) → d.FitsWord :=
      ⟨fun _ _ _ h => absurd h (Option.some_ne_none _).symm, fun _ => trivial⟩
    rcases unpack_of_not_shown hshown with hx | ⟨s, hx⟩
    · rw [plainChars_of_notANumber hx, hx]
      exact (Reads.word (s := "NaN") rfl htail).congr hfits
    · rw [plainChars_of_infinity hx, hx]
      exact ((reads_sign s).before (Reads.word (s := "inf") rfl htail)).congr hfits

/-- The characters of further arguments. -/
def furtherChars (xs : List Float) : List Char :=
  xs.flatMap fun x => ',' :: ' ' :: (plain x).toList

theorem intercalate_map_cons {α : Type} (sep : List Char) (f : α → List Char) (a : α)
    (as : List α) :
    sep.intercalate ((a :: as).map f) = f a ++ as.flatMap fun b => sep ++ f b := by
  induction as generalizing a with
  | nil => simp
  | cons b bs ih =>
    have hrest := ih b
    rw [List.map_cons] at hrest
    rw [List.map_cons, List.map_cons, List.intercalate_cons_cons, hrest, List.flatMap_cons,
      List.append_assoc, List.append_assoc]

theorem toList_argsText (x : Float) (xs : List Float) :
    (Operation.argsText (x :: xs)).toList =
      '(' :: ((plain x).toList ++ (furtherChars xs ++ [')'])) := by
  show ("(" ++ ", ".intercalate ((x :: xs).map plain) ++ ")").toList = _
  rw [String.toList_append, String.toList_append, String.toList_intercalate, List.map_map,
    intercalate_map_cons, List.append_assoc, List.append_assoc]
  rfl

theorem closed_further (xs : List Float) (tail : List Char) :
    Closed (furtherChars xs ++ ')' :: tail) := by
  cases xs with
  | nil => exact closed_of_symbol (t := .rightParen) rfl _
  | cons x xs => exact closed_of_symbol (t := .comma) rfl _

theorem reads_further (xs : List Float) :
    Reads (furtherChars xs) (')' :: tail) (∀ x ∈ xs, Fits x) (furtherTokens xs) := by
  induction xs with
  | nil => exact Reads.nil.congr ⟨fun _ _ h => absurd h List.not_mem_nil, fun _ => trivial⟩
  | cons x xs ih =>
    have hx := reads_argument x (closed_further xs tail)
    exact (Reads.symbol rfl (hx.append ih).blank).congr List.forall_mem_cons.symm

theorem reads_arguments (xs : List Float) :
    Reads (Operation.argsText xs).toList tail (∀ x ∈ xs, Fits x) (argumentsTokens xs) := by
  cases xs with
  | nil => exact Reads.nil.congr ⟨fun _ _ h => absurd h List.not_mem_nil, fun _ => trivial⟩
  | cons x xs =>
    have hclosed : Closed ((furtherChars xs ++ [')']) ++ tail) := by
      rw [List.append_assoc]
      exact closed_further xs tail
    have hlast : Reads [')'] tail True [.rightParen] := .symbol rfl .nil
    rw [toList_argsText]
    exact (Reads.symbol rfl ((reads_argument x hclosed).append
      ((reads_further xs).after hlast))).congr List.forall_mem_cons.symm

/-! ### Reading targets -/

theorem toList_toString (n : Nat) : (toString n).toList = Nat.toDigits 10 n := by
  rw [Nat.toString_eq_repr, Nat.toList_repr]

theorem toList_negSucc (n : Nat) :
    (toString (Int.negSucc n)).toList = '-' :: (toString (n + 1)).toList :=
  String.toList_append

theorem natAbs_lt_size (k : Int32) : k.toInt.natAbs < UInt64.size := by
  have hlow := k.le_toInt
  have hhigh := k.toInt_lt
  show k.toInt.natAbs < 18446744073709551616
  omega

theorem reads_natural {n : Nat} (hn : n < UInt64.size) (htail : Closed tail) :
    Reads (toString n).toList tail True [naturalToken n] := by
  have h := @Reads.digits _ (Nat.toDigits 10 n) Nat.toDigits_ne_nil
    (fun _ => isDigit_of_mem_toDigits) htail
  have hvalue : digitValue (Nat.toDigits 10 n) = n := Nat.ofDigitChars_ten_toDigits
  rw [hvalue] at h
  rw [toList_toString]
  exact h.congr (iff_of_true hn trivial)

theorem reads_bang (inverted : Bool) :
    Reads (Target.bang inverted).toList tail True (bangTokens inverted) := by
  cases inverted with
  | false => exact .nil
  | true => exact .symbol rfl .nil

theorem reads_offset (k : Int32) (htail : Closed tail) :
    Reads (toString k.toInt).toList tail True (offsetTokens k.toInt) := by
  have hsize := natAbs_lt_size k
  unfold offsetTokens
  generalize k.toInt = i at hsize ⊢
  cases i with
  | ofNat n =>
    rw [if_neg (by simp)]
    exact reads_natural hsize htail
  | negSucc n =>
    rw [toList_negSucc, if_pos (Int.negSucc_lt_zero n)]
    exact .symbol rfl (reads_natural hsize htail)

theorem isName_pauliWord (p : Pauli) (q : Qubit) : isName (pauliWord p q) = true := by
  have hletter : startsWord p.letter = true := by cases p <;> rfl
  rw [isName, pauliWord, String.toList_ofList]
  dsimp only
  rw [hletter, Bool.true_and, List.all_eq_true]
  exact fun c hc => continuesWord_of_isDigit (isDigit_of_mem_toDigits hc)

theorem reads_target (t : Target) (htail : Closed tail) :
    Reads t.text.toList tail True (targetTokens t) := by
  cases t with
  | qubit q inverted =>
    have hsize : q.toNat < UInt64.size := q.toNat_lt.trans (by decide)
    show Reads (Target.bang inverted ++ toString q.toNat).toList tail True _
    rw [String.toList_append]
    exact (reads_bang inverted).before (reads_natural hsize htail)
  | pauli p q inverted =>
    have htext : (Target.bang inverted ++ p.letter.toString ++ toString q.toNat).toList =
        (Target.bang inverted).toList ++ (pauliWord p q).toList := by
      simp [pauliWord]
    show Reads (Target.bang inverted ++ p.letter.toString ++ toString q.toNat).toList tail True _
    rw [htext]
    exact (reads_bang inverted).before (.word (isName_pauliWord p q) htail)
  | record k =>
    have htext : ("rec[" ++ toString k.toInt ++ "]").toList =
        "rec".toList ++ '[' :: ((toString k.toInt).toList ++ [']']) := by
      simp
    have hword : isName "rec" = true := rfl
    have hlast : Reads [']'] tail True [.rightBracket] := .symbol rfl .nil
    have hoffset := reads_offset k (closed_of_symbol (c := ']') (t := .rightBracket) rfl tail)
    show Reads ("rec[" ++ toString k.toInt ++ "]").toList tail True _
    rw [htext]
    exact (Reads.word hword (closed_of_symbol (t := .leftBracket) rfl _)).before
      (.symbol (c := '[') (t := .leftBracket) rfl (hoffset.before hlast))
  | combiner => exact .symbol rfl .nil

theorem targetsText_combiner (glued : Bool) (ts : List Target) :
    (Operation.targetsText glued (.combiner :: ts)).toList =
      '*' :: (Operation.targetsText true ts).toList :=
  String.toList_append

theorem targetsText_of_ne {t : Target} (ht : t ≠ .combiner) (glued : Bool) (ts : List Target) :
    (Operation.targetsText glued (t :: ts)).toList =
      (if glued then "" else " ").toList ++
        (t.text.toList ++ (Operation.targetsText false ts).toList) := by
  rw [Operation.targetsText, String.toList_append, String.toList_append, List.append_assoc]
  exact ht

theorem closed_targets (ts : List Target) (htail : Closed tail) :
    Closed ((Operation.targetsText false ts).toList ++ tail) := by
  cases ts with
  | nil => exact htail
  | cons t ts =>
    by_cases ht : t = .combiner
    · rw [ht, targetsText_combiner]
      exact closed_of_symbol (t := .star) rfl _
    · rw [targetsText_of_ne ht]
      exact closed_cons (c := ' ') rfl (by decide)

theorem reads_targets (glued : Bool) (ts : List Target) (htail : Closed tail) :
    Reads (Operation.targetsText glued ts).toList tail True (ts.flatMap targetTokens) := by
  induction ts generalizing glued with
  | nil => exact .nil
  | cons t ts ih =>
    by_cases ht : t = .combiner
    · rw [ht, targetsText_combiner]
      exact .symbol rfl (ih true)
    · have h := (reads_target t (closed_targets ts htail)).before (ih false)
      rw [targetsText_of_ne ht]
      cases glued with
      | false => exact h.blank
      | true => exact h

/-! ### Reading lines -/

theorem reads_operation {o : Operation} (hname : isName o.name = true) :
    Reads o.text.toList ('\n' :: tail) (∀ x ∈ o.args, Fits x) (operationTokens o) := by
  have hend : Closed ('\n' :: tail) := closed_of_symbol (t := .newline) rfl _
  have htext : o.text.toList = o.name.toList ++
      ((Operation.argsText o.args).toList ++ (Operation.targetsText false o.targets).toList) := by
    rw [Operation.text, String.toList_append, String.toList_append, List.append_assoc]
  have hclosed : Closed ((Operation.argsText o.args).toList ++
      (Operation.targetsText false o.targets).toList ++ '\n' :: tail) := by
    rw [List.append_assoc]
    cases o.args with
    | nil => exact closed_targets o.targets hend
    | cons x xs =>
      rw [toList_argsText]
      exact closed_of_symbol (t := .leftParen) rfl _
  rw [htext]
  exact (Reads.word hname hclosed).before
    ((reads_arguments o.args).after (reads_targets false o.targets hend))

/-- The characters of the lines of a circuit, each with a line break behind it. -/
def linesChars (depth : Nat) (c : Circuit) : List Char :=
  (lines depth c).flatMap fun line => line.toList ++ ['\n']

theorem linesChars_op (depth : Nat) (o : Operation) (rest : Circuit) :
    linesChars depth (.op o rest) =
      List.replicate (4 * depth) ' ' ++ (o.text.toList ++ '\n' :: linesChars depth rest) := by
  simp [linesChars, lines, indent]

theorem linesChars_repeated (depth : Nat) (n : UInt64) (body rest : Circuit) :
    linesChars depth (.repeated n body rest) =
      List.replicate (4 * depth) ' ' ++ ("REPEAT".toList ++ ' ' :: ((toString n.toNat).toList ++
        ' ' :: '\x7b' :: '\n' :: (linesChars (depth + 1) body ++
          (List.replicate (4 * depth) ' ' ++ '\x7d' :: '\n' :: linesChars depth rest)))) := by
  simp [linesChars, lines, indent]

theorem reads_lines {c : Circuit} (hnames : ∀ o ∈ c.written, isName o.name = true) (depth : Nat) :
    Reads (linesChars depth c) tail (∀ o ∈ c.written, ∀ x ∈ o.args, Fits x) c.tokens := by
  induction c generalizing depth tail with
  | nil => exact Reads.nil.congr ⟨fun _ _ h => absurd h List.not_mem_nil, fun _ => trivial⟩
  | op o rest ih =>
    obtain ⟨hname, hnames⟩ := List.forall_mem_cons.mp hnames
    have hrest : Reads (linesChars depth rest) tail _ _ := ih hnames depth
    have hbreak := hrest.symbol (c := '\n') (t := .newline) rfl
    rw [linesChars_op]
    exact (((reads_operation hname).append hbreak).congr List.forall_mem_cons.symm).blanks _
  | repeated n body rest ihbody ihrest =>
    obtain ⟨hbody, hrest⟩ := List.forall_mem_append.mp hnames
    have hword : isName "REPEAT" = true := rfl
    have hspace (cs : List Char) : Closed (' ' :: cs) := closed_cons rfl (by decide)
    have hcount (cs : List Char) : Reads (toString n.toNat).toList (' ' :: cs) True [.integer n] := by
      have h := reads_natural n.toNat_lt (hspace cs)
      rwa [naturalToken, UInt64.ofNat_toNat] at h
    have hrest : Reads (linesChars depth rest) tail _ _ := ihrest hrest depth
    have hclose := ((hrest.symbol (c := '\n') (t := .newline) rfl).symbol (c := '\x7d')
      (t := .rightBrace) rfl).blanks (4 * depth)
    have hblock := ((ihbody hbody (depth + 1)).append hclose).congr List.forall_mem_append.symm
    have hopen := (hblock.symbol (c := '\n') (t := .newline) rfl).symbol (c := '\x7b')
      (t := .leftBrace) rfl
    rw [linesChars_repeated]
    exact ((Reads.word hword (hspace _)).before ((hcount _).before hopen.blank).blank).blanks _

/-- The text of a circuit whose names are names is scanned as its tokens, if its natural numbers fit,
and else not at all. -/
theorem reads_emit {c : Circuit} (hnames : ∀ o ∈ c.written, isName o.name = true) :
    Reads (emit c).toList [] (∀ o ∈ c.written, ∀ x ∈ o.args, Fits x) c.tokens := by
  have htext : (emit c).toList = linesChars 0 c := by
    rw [emit, String.toList_join, List.flatMap_map, linesChars]
    simp
  rw [htext]
  exact reads_lines hnames 0

end Text

end CircuitFrames
