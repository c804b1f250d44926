import CircuitFrames.Diagram.Render
import CircuitFrames.Proofs.Circuit.Shift
import CircuitFrames.Proofs.Diagram.Acceptance
import CircuitFrames.Proofs.Text.Spelling

/-!
# What a link to an editor says

In a link underscores stand for spaces, also beside names that hold underscores themselves, and
semicolons for line breaks. Still one can see where each piece of an operation ends: its name
(`name_cancel`), its arguments (`args_cancel`) and its targets (`targets_cancel`). So a link is that
of one list of operations only (`operations_of_joined`), and tells of a circuit that renders how it
places its qubits and what else it does (`flattened_of_editorLink_eq`).
-/

namespace CircuitFrames

open Numeral Text

namespace EditorLink

/-- The characters of a link for those of a text. -/
def underscored (cs : List Char) : List Char :=
  cs.map fun ch => if ch = ' ' then '_' else ch

theorem underscored_append (cs cs' : List Char) :
    underscored (cs ++ cs') = underscored cs ++ underscored cs' :=
  List.map_append

theorem underscored_of_solid {cs : List Char} (h : Solid cs) : underscored cs = cs := by
  refine (List.map_congr_left fun c hc => if_neg ?_).trans (List.map_id' cs)
  rintro rfl
  cases h ' ' hc

theorem underscored_name {n : String} (hn : n ∈ Kind.names) : underscored n.toList = n.toList := by
  revert n
  decide +kernel

/-- Nothing is left, or what is left stands behind a semicolon. -/
def Ended (cs : List Char) : Prop :=
  ∀ c ∈ cs.head?, c = ';'

variable {tail tail' : List Char}

/-! ### Arguments -/

theorem parted_further (xs : List Float) (tail : List Char) :
    Parted (underscored (furtherChars xs) ++ ')' :: tail) := by
  cases xs with
  | nil => rintro c ⟨⟩; rfl
  | cons x xs => rintro c ⟨⟩; rfl

theorem underscored_further (x : Float) (xs : List Float) :
    underscored (furtherChars (x :: xs)) =
      ',' :: '_' :: ((plain x).toList ++ underscored (furtherChars xs)) := by
  have htext : furtherChars (x :: xs) = ',' :: ' ' :: ((plain x).toList ++ furtherChars xs) := by
    simp [furtherChars]
  rw [htext]
  show ',' :: '_' :: underscored _ = _
  rw [underscored_append, underscored_of_solid (solid_plain x)]

theorem number_cancel {x y : Float} {xs ys : List Float}
    (h : (plain x).toList ++ (underscored (furtherChars xs) ++ ')' :: tail) =
      (plain y).toList ++ (underscored (furtherChars ys) ++ ')' :: tail')) :
    x = y ∧ underscored (furtherChars xs) ++ ')' :: tail =
      underscored (furtherChars ys) ++ ')' :: tail' := by
  obtain ⟨hx, hrest⟩ := (solid_plain x).cancel (solid_plain y) (parted_further xs tail)
    (parted_further ys tail') h
  exact ⟨plain_injective (String.toList_inj.mp hx), hrest⟩

theorem numbers_cancel {x y : Float} {xs ys : List Float}
    (h : (plain x).toList ++ (underscored (furtherChars xs) ++ ')' :: tail) =
      (plain y).toList ++ (underscored (furtherChars ys) ++ ')' :: tail')) :
    x :: xs = y :: ys ∧ tail = tail' := by
  induction xs generalizing x y ys with
  | nil =>
    obtain ⟨rfl, hrest⟩ := number_cancel h
    cases ys with
    | nil => exact ⟨rfl, (List.cons.inj hrest).2⟩
    | cons z ys => cases (List.cons.inj hrest).1
  | cons w xs ih =>
    obtain ⟨rfl, hrest⟩ := number_cancel h
    cases ys with
    | nil => cases (List.cons.inj hrest).1
    | cons z ys =>
      simp only [underscored_further, List.cons_append, List.append_assoc, List.cons.injEq,
        true_and] at hrest
      obtain ⟨hmore, htail⟩ := ih hrest
      exact ⟨congrArg _ hmore, htail⟩

theorem underscored_args (x : Float) (xs : List Float) :
    underscored (Operation.argsText (x :: xs)).toList =
      '(' :: ((plain x).toList ++ (underscored (furtherChars xs) ++ [')'])) := by
  rw [toList_argsText]
  show '(' :: underscored _ = _
  rw [underscored_append, underscored_append, underscored_of_solid (solid_plain x)]
  rfl

theorem args_cancel {xs ys : List Float} (htail : '(' ∉ tail.head?) (htail' : '(' ∉ tail'.head?)
    (h : underscored (Operation.argsText xs).toList ++ tail =
      underscored (Operation.argsText ys).toList ++ tail') : xs = ys ∧ tail = tail' := by
  have hparen (z : Float) (zs : List Float) (more : List Char) :
      '(' ∈ (underscored (Operation.argsText (z :: zs)).toList ++ more).head? := by
    rw [underscored_args]
    rfl
  cases xs with
  | nil =>
    cases ys with
    | nil => exact ⟨rfl, h⟩
    | cons y ys =>
      have h : tail = underscored (Operation.argsText (y :: ys)).toList ++ tail' := h
      exact absurd (h ▸ hparen y ys tail') htail
  | cons x xs =>
    cases ys with
    | nil =>
      have h : underscored (Operation.argsText (x :: xs)).toList ++ tail = tail' := h
      exact absurd (h ▸ hparen x xs tail) htail'
    | cons y ys =>
      simp only [underscored_args, List.cons_append, List.append_assoc, List.nil_append,
        List.cons.injEq, true_and] at h
      exact numbers_cancel h

/-! ### Targets -/

theorem underscored_targets_combiner (glued : Bool) (ts : List Target) :
    underscored (Operation.targetsText glued (.combiner :: ts)).toList =
      '*' :: underscored (Operation.targetsText true ts).toList := by
  rw [targetsText_combiner]
  rfl

theorem underscored_targets_of_ne {t : Target} (ht : t ≠ .combiner) (glued : Bool)
    (ts : List Target) :
    underscored (Operation.targetsText glued (t :: ts)).toList =
      (if glued then [] else ['_']) ++
        (t.text.toList ++ underscored (Operation.targetsText false ts).toList) := by
  rw [targetsText_of_ne ht, underscored_append, underscored_append,
    underscored_of_solid (solid_text ht)]
  cases glued <;> rfl

theorem targets_start (glued : Bool) (t : Target) (ts : List Target) :
    ∃ c cs, underscored (Operation.targetsText glued (t :: ts)).toList = c :: cs ∧ c ≠ ';' ∧
      (c = '*' ↔ t = .combiner) := by
  by_cases ht : t = .combiner
  · subst ht
    exact ⟨_, _, underscored_targets_combiner glued ts, by decide, by simp⟩
  · rw [underscored_targets_of_ne ht]
    cases glued with
    | false => exact ⟨'_', _, rfl, by decide, iff_of_false (by decide) ht⟩
    | true =>
      obtain ⟨c, cs, hcs, -⟩ := text_start ht
      have hc : separates c = false := solid_text ht c (hcs ▸ List.mem_cons_self)
      rw [hcs]
      refine ⟨c, _, rfl, ?_, iff_of_false ?_ ht⟩
      · rintro rfl
        cases hc
      · rintro rfl
        cases hc

theorem targets_head (ts : List Target) (htail : Ended tail) :
    ∀ c ∈ (underscored (Operation.targetsText false ts).toList ++ tail).head?,
      c = ';' ∨ c = '*' ∨ c = '_' := by
  cases ts with
  | nil => exact fun c hc => .inl (htail c hc)
  | cons t ts =>
    by_cases ht : t = .combiner
    · subst ht
      rw [underscored_targets_combiner]
      rintro c ⟨⟩
      exact .inr (.inl rfl)
    · rw [underscored_targets_of_ne ht]
      rintro c ⟨⟩
      exact .inr (.inr rfl)

theorem parted_targets (ts : List Target) (htail : Ended tail) :
    Parted (underscored (Operation.targetsText false ts).toList ++ tail) := by
  intro c hc
  rcases targets_head ts htail c hc with rfl | rfl | rfl <;> rfl

/-- Combiners, and underscores that are not behind a combiner, tell targets apart. -/
theorem targets_cancel {glued : Bool} {ts ts' : List Target} (htail : Ended tail)
    (htail' : Ended tail')
    (h : underscored (Operation.targetsText glued ts).toList ++ tail =
      underscored (Operation.targetsText glued ts').toList ++ tail') : ts = ts' ∧ tail = tail' := by
  -- whether an underscore stands before a target hangs on the combiner before it, so `glued` varies
  induction ts generalizing glued ts' with
  | nil =>
    cases ts' with
    | nil => exact ⟨rfl, h⟩
    | cons t ts' =>
      obtain ⟨c, cs, hcs, hc, -⟩ := targets_start glued t ts'
      rw [hcs] at h
      have h : tail = c :: (cs ++ tail') := h
      exact absurd (htail c (by rw [h]; rfl)) hc
  | cons t ts ih =>
    cases ts' with
    | nil =>
      obtain ⟨c, cs, hcs, hc, -⟩ := targets_start glued t ts
      rw [hcs] at h
      have h : c :: (cs ++ tail) = tail' := h
      exact absurd (htail' c (by rw [← h]; rfl)) hc
    | cons t' ts' =>
      -- the first characters agree, and only a combiner starts with a star
      have hsort : t = .combiner ↔ t' = .combiner := by
        obtain ⟨c, cs, hcs, -, hc⟩ := targets_start glued t ts
        obtain ⟨c', cs', hcs', -, hc'⟩ := targets_start glued t' ts'
        rw [hcs, hcs'] at h
        rw [← hc, ← hc', (List.cons.inj h).1]
      by_cases ht : t = .combiner
      · have ht' := hsort.mp ht
        subst ht ht'
        rw [underscored_targets_combiner, underscored_targets_combiner] at h
        obtain ⟨rfl, htails⟩ := ih (List.cons.inj h).2
        exact ⟨rfl, htails⟩
      · have ht' := mt hsort.mpr ht
        simp only [underscored_targets_of_ne ht, underscored_targets_of_ne ht', List.append_assoc,
          List.append_cancel_left_eq] at h
        obtain ⟨htext, hrest⟩ := (solid_text ht).cancel (solid_text ht') (parted_targets ts htail)
          (parted_targets ts' htail') h
        obtain ⟨rfl, htails⟩ := ih hrest
        rw [text_injective (String.toList_inj.mp htext)]
        exact ⟨rfl, htails⟩

/-! ### Operations -/

theorem paren_notMem_head (ts : List Target) (htail : Ended tail) :
    '(' ∉ (underscored (Operation.targetsText false ts).toList ++ tail).head? := by
  intro hparen
  rcases targets_head ts htail '(' hparen with h | h | h <;> cases h

theorem not_continuesName_targets (ts : List Target) (htail : Ended tail) :
    continuesName (underscored (Operation.targetsText false ts).toList ++ tail) = false := by
  cases ts with
  | nil =>
    show continuesName tail = false
    cases tail with
    | nil => rfl
    | cons c cs =>
      obtain rfl := htail c rfl
      rfl
  | cons t ts =>
    by_cases ht : t = .combiner
    · subst ht
      rw [underscored_targets_combiner]
      rfl
    · obtain ⟨c, cs, hcs, hc⟩ := text_start ht
      rw [underscored_targets_of_ne ht, hcs, List.append_assoc, List.append_assoc]
      exact not_continuesName_underscore hc _

theorem not_continuesName_args (xs : List Float) (ts : List Target) (htail : Ended tail) :
    continuesName (underscored (Operation.argsText xs).toList ++
      (underscored (Operation.targetsText false ts).toList ++ tail)) = false := by
  cases xs with
  | nil => exact not_continuesName_targets ts htail
  | cons x xs =>
    rw [underscored_args]
    rfl

/-- An operation with a name that is supported and stands for its kind. -/
structure Supported (o : Operation) : Prop where
  kind : o.kind = .ofName o.name
  supported : o.kind ≠ .unsupported

theorem Supported.name_mem {o : Operation} (h : Supported o) : o.name ∈ Kind.names :=
  Kind.mem_names (h.kind ▸ h.supported)

theorem Supported.underscored_text {o : Operation} (h : Supported o) :
    underscored o.text.toList = o.name.toList ++ (underscored (Operation.argsText o.args).toList ++
      underscored (Operation.targetsText false o.targets).toList) := by
  rw [Operation.text, String.toList_append, String.toList_append, underscored_append,
    underscored_append, underscored_name h.name_mem, List.append_assoc]

/-- The text of an operation ends where the text of no other does. -/
theorem operation_cancel {o o' : Operation} (ho : Supported o) (ho' : Supported o')
    (htail : Ended tail) (htail' : Ended tail')
    (h : underscored o.text.toList ++ tail = underscored o'.text.toList ++ tail') :
    o = o' ∧ tail = tail' := by
  rw [ho.underscored_text, ho'.underscored_text] at h
  simp only [List.append_assoc] at h
  obtain ⟨hname, hrest⟩ := name_cancel ho.name_mem ho'.name_mem
    (not_continuesName_args _ _ htail) (not_continuesName_args _ _ htail') h
  obtain ⟨hargs, hrest⟩ :=
    args_cancel (paren_notMem_head _ htail) (paren_notMem_head _ htail') hrest
  obtain ⟨htargets, htails⟩ := targets_cancel htail htail' hrest
  have hkind : o.kind = o'.kind := by rw [ho.kind, ho'.kind, hname]
  refine ⟨?_, htails⟩
  cases o
  cases o'
  simp only [Operation.mk.injEq]
  exact ⟨hname, hkind, htargets, hargs⟩

/-! ### Lists of operations -/

/-- Operations that stand behind another, each behind a semicolon. -/
def behind (ops : List Operation) : List Char :=
  ops.flatMap fun o => ';' :: underscored o.text.toList

theorem ended_behind (ops : List Operation) : Ended (behind ops) := by
  cases ops with
  | nil => nofun
  | cons o ops =>
    rintro c ⟨⟩
    rfl

theorem operations_of_behind {ops ops' : List Operation} (hops : ∀ o ∈ ops, Supported o)
    (hops' : ∀ o ∈ ops', Supported o) (h : behind ops = behind ops') : ops = ops' := by
  induction ops generalizing ops' with
  | nil =>
    cases ops' with
    | nil => rfl
    | cons o' ops' => cases h
  | cons o ops ih =>
    cases ops' with
    | nil => cases h
    | cons o' ops' =>
      obtain ⟨ho, hmore⟩ := List.forall_mem_cons.mp hops
      obtain ⟨ho', hmore'⟩ := List.forall_mem_cons.mp hops'
      obtain ⟨rfl, hrest⟩ := operation_cancel ho ho' (ended_behind ops) (ended_behind ops')
        (List.cons.inj h).2
      rw [ih hmore hmore' hrest]

/-- The operations of a link with semicolons between them. -/
def joined (ops : List Operation) : List Char :=
  underscored (";".intercalate (ops.map Operation.text)).toList

theorem joined_cons (o : Operation) (ops : List Operation) :
    joined (o :: ops) = underscored o.text.toList ++ behind ops := by
  have hbehind : underscored (ops.flatMap fun o => ';' :: o.text.toList) = behind ops := by
    rw [underscored, List.map_flatMap]
    rfl
  rw [joined, String.toList_intercalate, List.map_map, intercalate_map_cons, underscored_append,
    ← hbehind]
  rfl

theorem joined_cons_ne_nil {o : Operation} (ho : Supported o) (ops : List Operation) :
    joined (o :: ops) ≠ [] := by
  have hname : ∀ n ∈ Kind.names, n.toList ≠ [] := by decide +kernel
  rw [joined_cons, ho.underscored_text, List.append_assoc]
  exact List.append_ne_nil_of_left_ne_nil (hname o.name ho.name_mem) _

theorem operations_of_joined {ops ops' : List Operation} (hops : ∀ o ∈ ops, Supported o)
    (hops' : ∀ o ∈ ops', Supported o) (h : joined ops = joined ops') : ops = ops' := by
  cases ops with
  | nil =>
    cases ops' with
    | nil => rfl
    | cons o' ops' => exact absurd h.symm (joined_cons_ne_nil (hops' o' List.mem_cons_self) ops')
  | cons o ops =>
    cases ops' with
    | nil => exact absurd h (joined_cons_ne_nil (hops o List.mem_cons_self) ops)
    | cons o' ops' =>
      apply operations_of_behind hops hops'
      rw [joined_cons, joined_cons] at h
      exact congrArg (';' :: ·) h

/-! ### Circuits -/

variable {c c₁ c₂ : Circuit}

theorem supported_foldShifts {shift : ShiftVector} {ops : List Operation}
    (hops : ∀ o ∈ ops, Supported o) : ∀ o ∈ Circuit.foldShifts shift ops, Supported o := by
  induction ops generalizing shift with
  | nil => nofun
  | cons o ops ih =>
    obtain ⟨ho, hops⟩ := List.forall_mem_cons.mp hops
    rw [Circuit.foldShifts_cons]
    split_ifs with hshift hmoved
    · exact ih hops
    · exact List.forall_mem_cons.mpr ⟨⟨ho.kind, ho.supported⟩, ih hops⟩
    · exact List.forall_mem_cons.mpr ⟨ho, ih hops⟩

theorem supported_of_render {config : Config} {known : Option FaultMechanism}
    {search : Option FaultSearch} {r : Rendering}
    (hkinds : ∀ o ∈ c.executed, o.kind = .ofName o.name)
    (h : render config c known search = .ok r) : ∀ o ∈ editorOperations c, Supported o := by
  obtain ⟨style, w, hw, -⟩ := exists_walk_of_render h
  have hshape : c.InShape := Walk.exists_of_iff.mp ⟨w, hw⟩
  have hexecuted : ∀ o ∈ c.executed, Supported o := by
    intro o ho
    refine ⟨hkinds o ho, fun hunsupported => ?_⟩
    have ho := hshape o ho
    rw [Operation.InShape, hunsupported] at ho
    exact ho
  have hflattened : ∀ o ∈ c.flattened.executed, Supported o := by
    rw [Circuit.executed_flattened]
    exact supported_foldShifts hexecuted
  intro o ho
  rcases List.mem_append.mp ho with ho | ho <;> exact hflattened o (List.mem_of_mem_filter ho)

theorem joined_of_editorLink_eq {base : String} (h : editorLink c₁ base = editorLink c₂ base) :
    joined (editorOperations c₁) = joined (editorOperations c₂) := by
  have h := congrArg String.toList h
  simp only [editorLink, String.toList_append, String.toList_ofList] at h
  exact List.append_cancel_left h

theorem filters_of_editorOperations_eq (h : editorOperations c₁ = editorOperations c₂) :
    c₁.flattened.executed.filter (·.kind == .qubitCoords) =
        c₂.flattened.executed.filter (·.kind == .qubitCoords) ∧
      c₁.flattened.executed.filter (·.kind != .qubitCoords) =
        c₂.flattened.executed.filter (·.kind != .qubitCoords) := by
  have hplacing (c : Circuit) : (editorOperations c).filter (·.kind == .qubitCoords) =
      c.flattened.executed.filter (·.kind == .qubitCoords) := by
    simp [editorOperations, List.filter_filter, bne]
  have hother (c : Circuit) : (editorOperations c).filter (·.kind != .qubitCoords) =
      c.flattened.executed.filter (·.kind != .qubitCoords) := by
    simp [editorOperations, List.filter_filter, bne]
  constructor
  · rw [← hplacing, h, hplacing]
  · rw [← hother, h, hother]

end EditorLink

/-- **The link to an editor loses nothing.** If two circuits that render have one link at a base
address, then their flat circuits have the same placements of qubits in the same order, and the same
other operations in the same order. -/
theorem flattened_of_editorLink_eq {config₁ config₂ : Config} {c₁ c₂ : Circuit}
    {known₁ known₂ : Option FaultMechanism} {search₁ search₂ : Option FaultSearch}
    {r₁ r₂ : Rendering}
    (hkinds₁ : ∀ o ∈ c₁.executed, o.kind = .ofName o.name)
    (hkinds₂ : ∀ o ∈ c₂.executed, o.kind = .ofName o.name)
    (hrender₁ : render config₁ c₁ known₁ search₁ = .ok r₁)
    (hrender₂ : render config₂ c₂ known₂ search₂ = .ok r₂) (base : String)
    (h : editorLink c₁ base = editorLink c₂ base) :
    c₁.flattened.executed.filter (·.kind == .qubitCoords) =
        c₂.flattened.executed.filter (·.kind == .qubitCoords) ∧
      c₁.flattened.executed.filter (·.kind != .qubitCoords) =
        c₂.flattened.executed.filter (·.kind != .qubitCoords) :=
  EditorLink.filters_of_editorOperations_eq
    (EditorLink.operations_of_joined (EditorLink.supported_of_render hkinds₁ hrender₁)
      (EditorLink.supported_of_render hkinds₂ hrender₂) (EditorLink.joined_of_editorLink_eq h))

/-- Rounds of a block with a placement behind them, and the rounds one by one with the placement in
front. -/
theorem flattened_of_editorLink_eq_rounds :
    let gate : Operation := .named "SQRT_X_DAG" [.qubit 0 false, .qubit 12 false] []
    let product : Operation := .named "MPP"
      [.pauli .x 0 true, .combiner, .pauli .y 12 false, .pauli .z 0 false] [0.125]
    let place : Operation := .named "QUBIT_COORDS" [.qubit 0 false] [1, -2.5]
    let c₁ : Circuit := .repeated 2 (.ofOperations [gate, product]) (.ofOperations [place])
    let c₂ : Circuit := .ofOperations [place, gate, product, gate, product]
    let link := "circuits.html#circuit=QUBIT_COORDS(1,_-2.5)_0;" ++
      "SQRT_X_DAG_0_12;MPP(0.125)_!X0*Y12_Z0;SQRT_X_DAG_0_12;MPP(0.125)_!X0*Y12_Z0"
    (editorLink c₁ "circuits.html" = link ∧ editorLink c₂ "circuits.html" = link) ∧
      c₁.flattened.executed.filter (·.kind == .qubitCoords) =
          c₂.flattened.executed.filter (·.kind == .qubitCoords) ∧
        c₁.flattened.executed.filter (·.kind != .qubitCoords) =
          c₂.flattened.executed.filter (·.kind != .qubitCoords) := by
  intro gate product place c₁ c₂ link
  have hlinks : editorLink c₁ "circuits.html" = link ∧ editorLink c₂ "circuits.html" = link := by
    decide +kernel
  have hkinds₁ : ∀ o ∈ c₁.executed, o.kind = .ofName o.name := by decide +kernel
  have hkinds₂ : ∀ o ∈ c₂.executed, o.kind = .ofName o.name := by decide +kernel
  obtain ⟨r₁, hr₁⟩ : ∃ r, render .default c₁ none none = .ok r :=
    exists_eq_ok_of_isSome (by decide +kernel)
  obtain ⟨r₂, hr₂⟩ : ∃ r, render .default c₂ none none = .ok r :=
    exists_eq_ok_of_isSome (by decide +kernel)
  exact ⟨hlinks, flattened_of_editorLink_eq hkinds₁ hkinds₂ hr₁ hr₂ "circuits.html"
    (hlinks.1.trans hlinks.2.symm)⟩

end CircuitFrames
