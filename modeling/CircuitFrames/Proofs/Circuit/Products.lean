import CircuitFrames.Circuit.Builder
import CircuitFrames.Proofs.Circuit.Shapes

/-!
# Pauli products as they are written

A product is a factor, and further factors with a combiner before each (`Product.targets`). The products
that are read off a list of targets are those that it is written as, and a list that is not so written
is refused for a target that is no factor where one has to stand (`products_eq_ok_iff`,
`products_eq_error`). The list can as well be cut by positions, in a loop that goes on by two as long as
it stands at a combiner and that may end behind the last target (`chunksFrom_zero`).
-/

namespace CircuitFrames

/-- A factor of a product as it is written. -/
structure Factor where
  basis : Pauli
  qubit : Qubit
  inverted : Bool
deriving DecidableEq, Repr

namespace Factor

def target (f : Factor) : Target :=
  .pauli f.basis f.qubit f.inverted

/-- What is read of the factor. -/
def value (f : Factor) : Qubit × Pauli :=
  (f.qubit, f.basis)

end Factor

/-- A Pauli product as it is written. -/
structure Product where
  first : Factor
  others : List Factor
deriving DecidableEq, Repr

namespace Product

/-- The first factor, and each other one behind a combiner. -/
def targets (p : Product) : List Target :=
  p.first.target :: p.others.flatMap fun f => [.combiner, f.target]

/-- What is read of the product. -/
def factors (p : Product) : List (Qubit × Pauli) :=
  (p.first :: p.others).map Factor.value

variable (f g : Factor) (fs : List Factor)

theorem targets_single : targets ⟨f, []⟩ = [f.target] := rfl

theorem targets_cons : targets ⟨f, g :: fs⟩ = f.target :: .combiner :: targets ⟨g, fs⟩ := rfl

theorem factors_cons : factors ⟨f, g :: fs⟩ = f.value :: factors ⟨g, fs⟩ := rfl

end Product

namespace Operation

variable (o : Operation)

/-! ### One factor -/

theorem pauliAt_target {i : Nat} {f : Factor} {rest : List Target}
    (h : o.targets.drop i = f.target :: rest) : o.pauliAt i = .ok f.value := by
  rw [pauliAt_eq_ok, drop_of_getElem? h]
  rfl

theorem exists_factor_of_pauliAt {i : Nat} {v : Qubit × Pauli} (h : o.pauliAt i = .ok v) :
    ∃ f : Factor, o.targets[i]? = some f.target ∧ f.value = v := by
  rw [pauliAt_eq_ok] at h
  obtain ⟨t, ht, h⟩ := Option.bind_eq_some_iff.mp h
  cases t with
  | pauli p q b =>
    cases h
    exact ⟨⟨p, q, b⟩, ht, rfl⟩
  | _ => cases h

theorem pauliAt_eq_error {i : Nat} {e : CircuitError} (h : o.pauliAt i = .error e) :
    e = o.malformed i .pauli := by
  unfold pauliAt at h
  split at h <;> cases h
  rfl

/-! ### All products -/

theorem written_of_productsFrom {i : Nat} {ts : List Target} (hts : o.targets.drop i = ts)
    {first : List (Qubit × Pauli)} {more : List (List (Qubit × Pauli))}
    (h : o.productsFrom i ts = .ok (first, more)) :
    ∃ (p : Product) (ps : List Product), ts = p.targets ++ ps.flatMap Product.targets ∧
      first = p.factors ∧ more = ps.map Product.factors := by
  induction i, ts using productsFrom.induct generalizing first more with
  | case1 i =>
    -- no factor stands where one has to
    rw [productsFrom, bind_eq_ok] at h
    obtain ⟨v, hv, -⟩ := h
    obtain ⟨f, hf, -⟩ := o.exists_factor_of_pauliAt hv
    rw [← List.head?_drop, hts] at hf
    cases hf
  | case2 i t =>
    rw [productsFrom, bind_eq_ok] at h
    obtain ⟨v, hv, h⟩ := h
    cases h
    obtain ⟨f, hf, rfl⟩ := o.exists_factor_of_pauliAt hv
    rw [drop_of_getElem? hts] at hf
    cases hf
    exact ⟨⟨f, []⟩, [], rfl, rfl, rfl⟩
  | case3 i t rest ih =>
    rw [productsFrom, bind_eq_ok] at h
    obtain ⟨v, hv, h⟩ := h
    rw [bind_eq_ok] at h
    obtain ⟨⟨first', more'⟩, hrest, h⟩ := h
    cases h
    obtain ⟨f, hf, rfl⟩ := o.exists_factor_of_pauliAt hv
    rw [drop_of_getElem? hts] at hf
    cases hf
    obtain ⟨⟨g, fs⟩, ps, rfl, rfl, rfl⟩ := ih (drop_succ_of_drop (drop_succ_of_drop hts)) hrest
    exact ⟨⟨f, g :: fs⟩, ps, rfl, rfl, rfl⟩
  | case4 i t u rest hu ih =>
    rw [productsFrom, bind_eq_ok] at h
    · obtain ⟨v, hv, h⟩ := h
      rw [bind_eq_ok] at h
      obtain ⟨⟨first', more'⟩, hrest, h⟩ := h
      cases h
      obtain ⟨f, hf, rfl⟩ := o.exists_factor_of_pauliAt hv
      rw [drop_of_getElem? hts] at hf
      cases hf
      obtain ⟨p, ps, hps, rfl, rfl⟩ := ih (drop_succ_of_drop hts) hrest
      exact ⟨⟨f, []⟩, p :: ps, congrArg (f.target :: ·) hps, rfl, rfl⟩
    · exact hu

theorem productsFrom_of_written (i : Nat) (p : Product) (ps : List Product)
    (hts : o.targets.drop i = p.targets ++ ps.flatMap Product.targets) :
    o.productsFrom i (p.targets ++ ps.flatMap Product.targets) =
      .ok (p.factors, ps.map Product.factors) := by
  match p, ps with
  | ⟨f, g :: fs⟩, ps =>
    rw [Product.targets_cons, List.cons_append, List.cons_append] at hts ⊢
    rw [productsFrom, o.pauliAt_target hts,
      productsFrom_of_written (i + 2) ⟨g, fs⟩ ps (drop_succ_of_drop (drop_succ_of_drop hts))]
    rfl
  | ⟨f, []⟩, [] =>
    rw [Product.targets_single, List.flatMap_nil, List.append_nil] at hts ⊢
    rw [productsFrom, o.pauliAt_target hts]
    rfl
  | ⟨f, []⟩, ⟨g, fs⟩ :: ps =>
    have hrest := productsFrom_of_written (i + 1) ⟨g, fs⟩ ps (drop_succ_of_drop hts)
    rw [Product.targets_single, List.flatMap_cons, List.singleton_append] at hts ⊢
    rw [Product.targets, List.cons_append] at hts hrest ⊢
    rw [productsFrom, o.pauliAt_target hts, hrest]
    · rfl
    · exact nofun
termination_by (ps.length, p.others.length)

/-- **The products that are read are those that the targets are written as.** -/
theorem products_eq_ok_iff {read : List (List (Qubit × Pauli))} :
    o.products = .ok read ↔ ∃ ps : List Product, o.targets = ps.flatMap Product.targets ∧
      read = ps.map Product.factors := by
  constructor
  · intro h
    unfold products at h
    split at h
    next hempty =>
      cases h
      exact ⟨[], List.isEmpty_iff.mp hempty, rfl⟩
    next =>
      rw [bind_eq_ok] at h
      obtain ⟨⟨first, more⟩, hread, h⟩ := h
      cases h
      obtain ⟨p, ps, hts, rfl, rfl⟩ := o.written_of_productsFrom List.drop_zero hread
      exact ⟨p :: ps, hts, rfl⟩
  · rintro ⟨ps, hts, rfl⟩
    unfold products
    cases ps with
    | nil =>
      rw [hts]
      rfl
    | cons p ps =>
      have hnonempty : o.targets.isEmpty = false := by
        rw [hts]
        rfl
      have hread := o.productsFrom_of_written 0 p ps hts
      rw [← List.flatMap_cons, ← hts] at hread
      rw [hnonempty, hread]
      rfl

theorem productsFrom_eq_error {i : Nat} {ts : List Target} (hts : o.targets.drop i = ts)
    (hi : i ≤ o.targets.length) {e : CircuitError} (h : o.productsFrom i ts = .error e) :
    ∃ j ≤ o.targets.length, o.pauliAt j = .error e := by
  induction i, ts using productsFrom.induct with
  | case1 i =>
    rw [productsFrom, bind_eq_error] at h
    rcases h with h | ⟨v, -, h⟩
    · exact ⟨i, hi, h⟩
    · cases h
  | case2 i t =>
    rw [productsFrom, bind_eq_error] at h
    rcases h with h | ⟨v, -, h⟩
    · exact ⟨i, hi, h⟩
    · cases h
  | case3 i t rest ih =>
    have hlength := congrArg List.length hts
    simp only [List.length_drop, List.length_cons] at hlength
    rw [productsFrom, bind_eq_error] at h
    rcases h with h | ⟨v, -, h⟩
    · exact ⟨i, hi, h⟩
    · rcases bind_eq_error.mp h with h | ⟨read, -, h⟩
      · exact ih (drop_succ_of_drop (drop_succ_of_drop hts)) (by omega) h
      · cases h
  | case4 i t u rest hu ih =>
    have hlength := congrArg List.length hts
    simp only [List.length_drop, List.length_cons] at hlength
    rw [productsFrom, bind_eq_error] at h
    · rcases h with h | ⟨v, -, h⟩
      · exact ⟨i, hi, h⟩
      · rcases bind_eq_error.mp h with h | ⟨read, -, h⟩
        · exact ih (drop_succ_of_drop hts) (by omega) h
        · cases h
    · exact hu

/-- A list that is not written as products has something else than a factor where one has to stand, if
only behind its end. -/
theorem products_eq_error {e : CircuitError} (h : o.products = .error e) :
    ∃ i ≤ o.targets.length, e = o.malformed i .pauli ∧ o.targets[i]?.bind Target.factor? = none := by
  obtain ⟨i, hi, hfault⟩ : ∃ i ≤ o.targets.length, o.pauliAt i = .error e := by
    unfold products at h
    split at h
    · cases h
    · rcases bind_eq_error.mp h with h | ⟨read, -, h⟩
      · exact o.productsFrom_eq_error List.drop_zero (Nat.zero_le _) h
      · cases h
  refine ⟨i, hi, o.pauliAt_eq_error hfault, ?_⟩
  rw [Option.eq_none_iff_forall_ne_some]
  intro v hv
  rw [← pauliAt_eq_ok, hfault] at hv
  cases hv

/-! ### Leaders and counts -/

/-- The qubits whose factors lead a product: those with no combiner before them. -/
def leaders : List Target → List Qubit
  | [] => []
  | .combiner :: rest => leaders (rest.drop 1)
  | t :: rest => t.touched?.toList ++ leaders rest
termination_by ts => ts.length

theorem leaders_nil : leaders [] = [] := by
  rw [leaders]

theorem leaders_combiner (rest : List Target) :
    leaders (.combiner :: rest) = leaders (rest.drop 1) := by
  rw [leaders]

theorem leaders_pauli (p : Pauli) (q : Qubit) (b : Bool) (rest : List Target) :
    leaders (.pauli p q b :: rest) = q :: leaders rest := by
  rw [leaders]
  · rfl
  · exact nofun

/-- The leaders of products that were read. -/
def firsts (products : List (List (Qubit × Pauli))) : List Qubit :=
  products.filterMap fun factors => factors.head?.map (·.1)

theorem firsts_cons_cons (f : Qubit × Pauli) (factors : List (Qubit × Pauli))
    (more : List (List (Qubit × Pauli))) :
    firsts ((f :: factors) :: more) = f.1 :: firsts more := rfl

theorem leaders_written (ps : List Product) :
    leaders (ps.flatMap Product.targets) = firsts (ps.map Product.factors) := by
  have hothers (fs : List Factor) (rest : List Target) :
      leaders ((fs.flatMap fun f => [.combiner, f.target]) ++ rest) = leaders rest := by
    induction fs with
    | nil => rfl
    | cons f fs ih =>
      rw [List.flatMap_cons, List.append_assoc, List.cons_append, leaders_combiner]
      exact ih
  induction ps with
  | nil => exact leaders_nil
  | cons p ps ih =>
    rw [List.flatMap_cons, Product.targets, List.cons_append, Factor.target, leaders_pauli, hothers,
      ih]
    rfl

theorem leaders_eq_of_products {read : List (List (Qubit × Pauli))} (h : o.products = .ok read) :
    leaders o.targets = firsts read := by
  obtain ⟨ps, hts, rfl⟩ := o.products_eq_ok_iff.mp h
  rw [hts, leaders_written]

theorem length_written (ps : List Product) :
    (ps.flatMap Product.targets).length =
      2 * (ps.flatMap Product.targets).countP Target.isCombiner + ps.length := by
  have hothers (fs : List Factor) : (fs.flatMap fun f => [Target.combiner, f.target]).length =
      2 * (fs.flatMap fun f => [Target.combiner, f.target]).countP Target.isCombiner := by
    induction fs with
    | nil => rfl
    | cons f fs ih =>
      rw [List.flatMap_cons, List.length_append, List.countP_append, ih]
      have hone : [Target.combiner, f.target].countP Target.isCombiner = 1 := rfl
      rw [hone, List.length_cons, List.length_singleton]
      omega
  induction ps with
  | nil => rfl
  | cons p ps ih =>
    have hp : p.targets.length = 2 * p.targets.countP Target.isCombiner + 1 := by
      have hfirst : p.first.target.isCombiner = false := rfl
      rw [Product.targets, List.length_cons, List.countP_cons_of_neg (by rw [hfirst]; exact nofun),
        hothers]
    rw [List.flatMap_cons, List.length_append, List.countP_append, ih, hp, List.length_cons]
    omega

theorem length_of_products {read : List (List (Qubit × Pauli))} (h : o.products = .ok read) :
    o.targets.length - 2 * o.targets.countP Target.isCombiner = read.length := by
  obtain ⟨ps, hts, rfl⟩ := o.products_eq_ok_iff.mp h
  have hlength := length_written ps
  rw [hts, List.length_map]
  omega

theorem ne_nil_of_products {read : List (List (Qubit × Pauli))} (h : o.products = .ok read) :
    ∀ factors ∈ read, factors ≠ [] := by
  obtain ⟨ps, -, rfl⟩ := o.products_eq_ok_iff.mp h
  intro factors hfactors
  obtain ⟨p, -, rfl⟩ := List.mem_map.mp hfactors
  exact List.cons_ne_nil _ _

theorem touched_written (ps : List Product) :
    (ps.flatMap Product.targets).filterMap Target.touched? =
      (ps.map Product.factors).flatten.map (·.1) := by
  have hothers (fs : List Factor) :
      (fs.flatMap fun f => [Target.combiner, f.target]).filterMap Target.touched? =
        fs.map (·.qubit) := by
    induction fs with
    | nil => rfl
    | cons f fs ih =>
      rw [List.flatMap_cons, List.filterMap_append, ih]
      rfl
  induction ps with
  | nil => rfl
  | cons p ps ih =>
    rw [List.flatMap_cons, List.filterMap_append, ih, List.map_cons, List.flatten_cons,
      List.map_append]
    congr 1
    show p.first.qubit :: List.filterMap _ _ = _
    rw [hothers, Product.factors, List.map_map]
    rfl

theorem touched_of_products {read : List (List (Qubit × Pauli))} (h : o.products = .ok read) :
    o.targets.filterMap Target.touched? = read.flatten.map (·.1) := by
  obtain ⟨ps, hts, rfl⟩ := o.products_eq_ok_iff.mp h
  rw [hts, touched_written]

/-! ### Products given to the builder -/

open Circuit (productTargets)

theorem exists_product_of_ne_nil {product : List (Pauli × Qubit)} (h : product ≠ []) :
    ∃ p : Product, productTargets product = p.targets ∧ product.map Prod.swap = p.factors := by
  induction product with
  | nil => exact absurd rfl h
  | cons x xs ih =>
    cases xs with
    | nil => exact ⟨⟨⟨x.1, x.2, false⟩, []⟩, rfl, rfl⟩
    | cons y ys =>
      obtain ⟨⟨f, fs⟩, htargets, hfactors⟩ := ih (List.cons_ne_nil _ _)
      refine ⟨⟨⟨x.1, x.2, false⟩, f :: fs⟩, ?_, ?_⟩
      · rw [Product.targets_cons, ← htargets]
        rfl
      · rw [Product.factors_cons, ← hfactors]
        rfl

theorem products_of_productTargets {products : List (List (Pauli × Qubit))}
    (hproducts : ∀ p ∈ products, p ≠ []) (h : o.targets = products.flatMap productTargets) :
    o.products = .ok (products.map (·.map Prod.swap)) := by
  rw [products_eq_ok_iff, h]
  clear h
  induction products with
  | nil => exact ⟨[], rfl, rfl⟩
  | cons product more ih =>
    obtain ⟨hproduct, hmore⟩ := List.forall_mem_cons.mp hproducts
    obtain ⟨p, htargets, hfactors⟩ := exists_product_of_ne_nil hproduct
    obtain ⟨ps, hts, hread⟩ := ih hmore
    refine ⟨p :: ps, ?_, ?_⟩
    · rw [List.flatMap_cons, List.flatMap_cons, htargets, hts]
    · rw [List.map_cons, List.map_cons, hfactors, hread]

/-! ### Cut by positions -/

/-- Where the product ends that goes on if a combiner stands at a position. -/
def chunkEnd (ts : List Target) (stop : Nat) : Nat :=
  if h : stop < ts.length then
    if ts[stop].isCombiner then chunkEnd ts (stop + 2) else stop
  else stop
termination_by ts.length - stop

theorem le_chunkEnd (ts : List Target) (stop : Nat) : stop ≤ chunkEnd ts stop := by
  fun_induction chunkEnd ts stop with
  | case1 stop h hcombiner ih => omega
  | case2 => exact Nat.le_refl _
  | case3 => exact Nat.le_refl _

/-- The factors at every other position from one position up to another. -/
def factorsBetween (start stop : Nat) : Except CircuitError (List (Qubit × Pauli)) :=
  (List.range' start ((stop - start + 1) / 2) 2).mapM o.pauliAt

/-- The products from a position on, each cut off before it is read. -/
def chunksFrom (o : Operation) (start : Nat) : Except CircuitError (List (List (Qubit × Pauli))) :=
  if start < o.targets.length then do
    let stop := chunkEnd o.targets (start + 1)
    let factors ← o.factorsBetween start stop
    let more ← o.chunksFrom stop
    return factors :: more
  else .ok []
termination_by o.targets.length - start
decreasing_by
  have := le_chunkEnd o.targets (start + 1)
  omega

theorem factorsBetween_succ (i : Nat) : o.factorsBetween i (i + 1) = (o.pauliAt i).map ([·]) := by
  have hcount : (i + 1 - i + 1) / 2 = 1 := by omega
  rw [factorsBetween, hcount, List.range'_one, List.mapM_cons]
  cases o.pauliAt i <;> rfl

theorem factorsBetween_cons {i stop : Nat} (h : i < stop) :
    o.factorsBetween i stop = (do
      let factor ← o.pauliAt i
      let factors ← o.factorsBetween (i + 2) stop
      return factor :: factors) := by
  have hcount : (stop - i + 1) / 2 = (stop - (i + 2) + 1) / 2 + 1 := by omega
  rw [factorsBetween, hcount, List.range'_succ, List.mapM_cons]
  rfl

theorem chunkEnd_of_combiner {i : Nat} {ts : List Target} (h : ts[i]? = some .combiner) :
    chunkEnd ts i = chunkEnd ts (i + 2) := by
  obtain ⟨hi, hcombiner⟩ := List.getElem?_eq_some_iff.mp h
  rw [chunkEnd.eq_def, dif_pos hi, hcombiner]
  rfl

theorem chunkEnd_of_ne {i : Nat} {ts : List Target} (h : ts[i]? ≠ some .combiner) :
    chunkEnd ts i = i := by
  rw [chunkEnd.eq_def]
  split
  next hi =>
    rw [List.getElem?_eq_getElem hi] at h
    cases ht : ts[i] <;> simp_all [Target.isCombiner]
  next => rfl

theorem chunk_of_last {i : Nat} (hend : o.targets.length ≤ i + 1) :
    (do
      let factors ← o.factorsBetween i (chunkEnd o.targets (i + 1))
      let more ← o.chunksFrom (chunkEnd o.targets (i + 1))
      return (factors, more)) = (do
      let factor ← o.pauliAt i
      return ([factor], [])) := by
  have hne : o.targets[i + 1]? ≠ some .combiner := by
    rw [List.getElem?_eq_none hend]
    exact nofun
  rw [chunkEnd_of_ne hne, factorsBetween_succ, chunksFrom, if_neg (by omega)]
  cases o.pauliAt i <;> rfl

theorem productsFrom_eq_chunk {i : Nat} {ts : List Target} (hts : o.targets.drop i = ts) :
    o.productsFrom i ts = (do
      let factors ← o.factorsBetween i (chunkEnd o.targets (i + 1))
      let more ← o.chunksFrom (chunkEnd o.targets (i + 1))
      return (factors, more)) := by
  have hlength : o.targets.length - i = ts.length := by rw [← hts, List.length_drop]
  induction i, ts using productsFrom.induct with
  | case1 i =>
    rw [List.length_nil] at hlength
    rw [productsFrom, o.chunk_of_last (by omega)]
  | case2 i t =>
    rw [List.length_singleton] at hlength
    rw [productsFrom, o.chunk_of_last (by omega)]
  | case3 i t rest ih =>
    have hrest := drop_succ_of_drop (drop_succ_of_drop hts)
    have hcombiner := drop_of_getElem? (drop_succ_of_drop hts)
    have hstop := le_chunkEnd o.targets (i + 1 + 2)
    rw [List.length_cons, List.length_cons] at hlength
    rw [productsFrom, chunkEnd_of_combiner hcombiner, o.factorsBetween_cons (by omega),
      ih hrest (by omega)]
    simp only [bind_assoc, pure_bind]
  | case4 i t u rest hu ih =>
    have hrest := drop_succ_of_drop hts
    have hne : o.targets[i + 1]? ≠ some .combiner := by
      rw [drop_of_getElem? hrest]
      exact fun h => hu (Option.some.inj h)
    rw [List.length_cons, List.length_cons] at hlength
    rw [productsFrom, chunkEnd_of_ne hne, factorsBetween_succ, chunksFrom, if_pos (by omega),
      ih hrest (by rw [List.length_cons]; omega)]
    · cases o.pauliAt i with
      | error e => rfl
      | ok factor =>
        simp only [bind_assoc, pure_bind]
        rfl
    · exact hu

/-- **Cutting by positions gives the same products**, and fails with the same fault. -/
theorem chunksFrom_zero : o.chunksFrom 0 = o.products := by
  rw [chunksFrom, products]
  cases hts : o.targets with
  | nil => rfl
  | cons t ts =>
    rw [if_pos (by simp), ← hts, o.productsFrom_eq_chunk (i := 0) List.drop_zero]
    simp only [bind_assoc, pure_bind, hts]
    rfl

end Operation

end CircuitFrames
