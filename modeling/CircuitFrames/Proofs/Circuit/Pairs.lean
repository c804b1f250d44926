import CircuitFrames.Proofs.Circuit.Shapes

/-!
# Pairs of targets

The targets of a two-qubit gate are read two by two. Two plain qubits ask for an edge, a record and a
plain qubit for a correction; a record beside anything else asks for nothing (`Target.Stray`), and
every other pair is refused (`pairs_eq_ok`, `pairs_eq_error`). So edges and corrections together are
as many as there are pairs exactly if no pair is stray (`edges_add_corrected_iff`).
-/

namespace CircuitFrames

namespace PairAction

/-- The qubits of an edge. -/
def edge? : PairAction → Option (Qubit × Qubit)
  | edge a b => some (a, b)
  | correction _ => none
  | nothing => none

/-- The qubit of a correction. -/
def corrected? : PairAction → Option Qubit
  | edge _ _ => none
  | correction q => some q
  | nothing => none

end PairAction

namespace Target

/-- Targets two by two; an odd one at the end has no partner. -/
def pairUp : List Target → List (Target × Target)
  | a :: b :: rest => (a, b) :: pairUp rest
  | _ => []

/-- Whether one of a pair of targets is a record. -/
def refers (ab : Target × Target) : Bool :=
  ab.1.isRecord || ab.2.isRecord

/-- The qubits of a pair of plain qubits. -/
def edge? (ab : Target × Target) : Option (Qubit × Qubit) :=
  ab.1.plain?.bind fun a => ab.2.plain?.map fun b => (a, b)

/-- The plain qubit that stands beside a record. -/
def corrected? (ab : Target × Target) : Option Qubit :=
  if ab.1.isRecord then ab.2.plain? else if ab.2.isRecord then ab.1.plain? else none

/-- A record stands beside something that is no plain qubit. -/
def Stray (ab : Target × Target) : Prop :=
  refers ab = true ∧ corrected? ab = none

instance (ab : Target × Target) : Decidable (Stray ab) :=
  inferInstanceAs (Decidable (_ ∧ _))

/-- What a pair of targets asks for, if it is not refused. -/
def action? (ab : Target × Target) : Option PairAction :=
  match edge? ab, corrected? ab with
  | some e, _ => some (.edge e.1 e.2)
  | none, some q => some (.correction q)
  | none, none => if refers ab then some .nothing else none

theorem length_pairUp (ts : List Target) : (pairUp ts).length = ts.length / 2 := by
  fun_induction pairUp ts with
  | case1 a b rest ih =>
    rw [List.length_cons, ih, List.length_cons, List.length_cons]
    omega
  | case2 ts hts =>
    match ts with
    | [] => rfl
    | [a] =>
      rw [List.length_nil, List.length_singleton]
    | a :: b :: rest => exact absurd rfl (hts a b rest)

variable {ab : Target × Target}

theorem edge?_of_refers (h : refers ab = true) : edge? ab = none := by
  obtain ⟨a, b⟩ := ab
  cases a <;> cases b <;> first | rfl | cases h

theorem corrected?_of_not_refers (h : refers ab = false) : corrected? ab = none := by
  obtain ⟨a, b⟩ := ab
  cases a <;> cases b <;> first | rfl | cases h

theorem isSome_action? : (action? ab).isSome = ((edge? ab).isSome || refers ab) := by
  obtain ⟨a, b⟩ := ab
  cases a <;> cases b <;> rfl

theorem of_action? {action : PairAction} (h : action? ab = some action) :
    action.edge? = edge? ab ∧ action.corrected? = corrected? ab := by
  unfold action? at h
  split at h
  next e he =>
    cases h
    have hrefers : refers ab = false := by
      by_contra hr
      rw [edge?_of_refers (by simpa using hr)] at he
      cases he
    exact ⟨he.symm, (corrected?_of_not_refers hrefers).symm⟩
  next q he hq =>
    cases h
    exact ⟨he.symm, hq.symm⟩
  next he hq =>
    split at h
    · cases h
      exact ⟨he.symm, hq.symm⟩
    · cases h

theorem edge_add_corrected_add_stray (h : (action? ab).isSome = true) :
    (if (edge? ab).isSome then 1 else 0) + (if (corrected? ab).isSome then 1 else 0) +
      (if Stray ab then 1 else 0) = 1 := by
  obtain ⟨a, b⟩ := ab
  cases a <;> cases b <;> first | rfl | cases h

end Target

namespace Operation

open Target (pairUp action?)

variable (op : Operation)

/-- The pairs of plain qubits among the targets, in order. -/
def edges : List (Qubit × Qubit) :=
  (pairUp op.targets).filterMap Target.edge?

/-- The plain qubits beside records among the targets, in order. -/
def corrected : List Qubit :=
  (pairUp op.targets).filterMap Target.corrected?

theorem qubitAt_of_getElem? {i : Nat} {t : Target} (h : op.targets[i]? = some t) :
    op.qubitAt i = match t.plain? with
      | some q => .ok q
      | none => .error (op.malformed i .qubit) := by
  unfold qubitAt
  rw [h]
  cases t <;> rfl

theorem pairAt_eq {i : Nat} {a b : Target} (ha : op.targets[i]? = some a)
    (hb : op.targets[i + 1]? = some b) :
    op.pairAt i a b = match action? (a, b) with
      | some action => .ok action
      | none => .error (op.malformed (if a.isQubit then i + 1 else i) .qubit) := by
  unfold pairAt
  rw [op.qubitAt_of_getElem? ha, op.qubitAt_of_getElem? hb]
  cases a <;> cases b <;> rfl

theorem pairsFrom_spec {i : Nat} {ts : List Target} (hts : op.targets.drop i = ts) :
    (∃ actions, op.pairsFrom i ts = .ok actions ∧
        (pairUp ts).map action? = actions.map some) ∨
      ∃ j, op.pairsFrom i ts = .error (op.malformed j .qubit) ∧
        ∃ ab ∈ pairUp ts, action? ab = none := by
  fun_induction pairUp ts generalizing i with
  | case1 a b rest ih =>
    have hrest := drop_succ_of_drop (drop_succ_of_drop hts)
    rw [pairsFrom, op.pairAt_eq (drop_of_getElem? hts) (drop_of_getElem? (drop_succ_of_drop hts))]
    cases haction : action? (a, b) with
    | none => exact .inr ⟨_, rfl, _, List.mem_cons_self, haction⟩
    | some action =>
      rcases ih hrest with ⟨actions, hactions, hmap⟩ | ⟨j, hj, ab, hab, hnone⟩
      · refine .inl ⟨action :: actions, ?_, ?_⟩
        · dsimp only
          rw [hactions]
          rfl
        · rw [List.map_cons, List.map_cons, haction, hmap]
      · refine .inr ⟨j, ?_, ab, List.mem_cons_of_mem _ hab, hnone⟩
        dsimp only
        rw [hj]
        rfl
  | case2 ts hts' =>
    refine .inl ⟨[], ?_, rfl⟩
    rw [pairsFrom]
    exact hts'

theorem pairs_eq_ok {actions : List PairAction} :
    op.pairs = .ok actions ↔
      op.targets.length % 2 = 0 ∧ (pairUp op.targets).map action? = actions.map some := by
  unfold pairs
  split
  next hodd =>
    constructor
    · intro h
      cases h
    · rintro ⟨heven, -⟩
      omega
  next heven =>
    have heven : op.targets.length % 2 = 0 := by omega
    rcases op.pairsFrom_spec (i := 0) List.drop_zero with
      ⟨actions', hactions, hmap⟩ | ⟨j, hj, ab, hab, hnone⟩
    · rw [hactions, Except.ok.injEq, hmap]
      constructor
      · rintro rfl
        exact ⟨heven, rfl⟩
      · rintro ⟨-, h⟩
        exact List.map_injective_iff.mpr (Option.some_injective _) h
    · rw [hj]
      constructor
      · intro h
        cases h
      · rintro ⟨-, h⟩
        have hmem := List.mem_map_of_mem (f := action?) hab
        rw [hnone, h] at hmem
        simp at hmem

theorem pairs_eq_error {e : CircuitError} (h : op.pairs = .error e) :
    ∃ j, e = op.malformed j .qubit := by
  unfold pairs at h
  split at h
  · cases h
    exact ⟨_, rfl⟩
  · rcases op.pairsFrom_spec (i := 0) List.drop_zero with ⟨actions, hactions, -⟩ | ⟨j, hj, -⟩
    · rw [hactions] at h
      cases h
    · rw [hj] at h
      cases h
      exact ⟨j, rfl⟩

theorem exists_map_eq_some_iff {α β : Type} {view : α → Option β} {as : List α} :
    (∃ bs : List β, as.map view = bs.map some) ↔ ∀ a ∈ as, (view a).isSome = true := by
  induction as with
  | nil => exact iff_of_true ⟨[], rfl⟩ nofun
  | cons a as ih =>
    rw [List.forall_mem_cons, ← ih]
    constructor
    · rintro ⟨bs, h⟩
      cases bs with
      | nil => cases h
      | cons b bs =>
        rw [List.map_cons, List.map_cons, List.cons.injEq] at h
        rw [h.1]
        exact ⟨rfl, bs, h.2⟩
    · rintro ⟨ha, bs, hbs⟩
      obtain ⟨b, hb⟩ := Option.isSome_iff_exists.mp ha
      exact ⟨b :: bs, by rw [List.map_cons, List.map_cons, hb, hbs]⟩

theorem exists_pairs_iff :
    (∃ actions, op.pairs = .ok actions) ↔
      op.targets.length % 2 = 0 ∧
        ∀ ab ∈ pairUp op.targets, (Target.edge? ab).isSome = true ∨ Target.refers ab = true := by
  simp only [pairs_eq_ok]
  rw [exists_and_left, exists_map_eq_some_iff]
  simp only [Target.isSome_action?, Bool.or_eq_true]

variable {op}

theorem edges_of_pairs {actions : List PairAction} (h : op.pairs = .ok actions) :
    actions.filterMap PairAction.edge? = op.edges ∧
      actions.filterMap PairAction.corrected? = op.corrected := by
  have hmap := (op.pairs_eq_ok.mp h).2
  clear h
  unfold edges corrected
  generalize pairUp op.targets = pairs at hmap
  induction pairs generalizing actions with
  | nil =>
    rw [List.map_nil, eq_comm, List.map_eq_nil_iff] at hmap
    rw [hmap]
    exact ⟨rfl, rfl⟩
  | cons ab pairs ih =>
    cases actions with
    | nil => cases hmap
    | cons action actions =>
      rw [List.map_cons, List.map_cons, List.cons.injEq] at hmap
      obtain ⟨hedge, hcorrected⟩ := Target.of_action? hmap.1
      obtain ⟨hedges, hcorrections⟩ := ih hmap.2
      rw [List.filterMap_cons, List.filterMap_cons, List.filterMap_cons, List.filterMap_cons, hedge,
        hcorrected, hedges, hcorrections]
      exact ⟨rfl, rfl⟩

/-- Edges and corrections are as many as the pairs exactly if no pair is stray. -/
theorem edges_add_corrected_iff
    (h : ∀ ab ∈ pairUp op.targets, (Target.edge? ab).isSome = true ∨ Target.refers ab = true) :
    op.edges.length + op.corrected.length = op.targets.length / 2 ↔
      ∀ ab ∈ pairUp op.targets, ¬Target.Stray ab := by
  have hsum : op.edges.length + op.corrected.length +
      (pairUp op.targets).countP (fun ab => Target.Stray ab) = op.targets.length / 2 := by
    unfold edges corrected
    rw [← Target.length_pairUp]
    generalize pairUp op.targets = pairs at h
    induction pairs with
    | nil => rfl
    | cons ab pairs ih =>
      obtain ⟨hab, hpairs⟩ := List.forall_mem_cons.mp h
      have htaken : (action? ab).isSome = true := by
        rw [Target.isSome_action?, Bool.or_eq_true]
        exact hab
      have hone := Target.edge_add_corrected_add_stray htaken
      have hrest := ih hpairs
      rw [List.length_filterMap_eq_countP, List.length_filterMap_eq_countP] at hrest ⊢
      simp only [List.countP_cons, List.length_cons, decide_eq_true_eq]
      omega
  rw [← hsum, Nat.left_eq_add, List.countP_eq_zero]
  simp only [decide_eq_true_eq]

end Operation

end CircuitFrames
