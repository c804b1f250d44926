import CircuitFrames.Circuit.Basic
import Mathlib

/-!
# Runs as folds

A run over the nested blocks of a circuit is the fold over the operations that it executes
(`run_eq_foldlM`), so whatever one step keeps, a whole run keeps, and a run can be cut at any of its
operations. A weight that is added up over nested blocks, by multiplying with their counts, is the sum
over these operations (`total_eq_sum`).
-/

namespace CircuitFrames

/-! ### Answers that may be errors -/

theorem bind_eq_ok {ε α β : Type} {x : Except ε α} {f : α → Except ε β} {b : β} :
    (x >>= f) = .ok b ↔ ∃ a, x = .ok a ∧ f a = .ok b := by
  cases x with
  | error e =>
    constructor
    · intro h
      cases h
    · rintro ⟨a, ha, -⟩
      cases ha
  | ok a =>
    constructor
    · intro h
      exact ⟨a, rfl, h⟩
    · rintro ⟨a', ha, h⟩
      cases ha
      exact h

theorem bind_eq_error {ε α β : Type} {x : Except ε α} {f : α → Except ε β} {e : ε} :
    (x >>= f) = .error e ↔ x = .error e ∨ ∃ a, x = .ok a ∧ f a = .error e := by
  cases x with
  | error e' =>
    constructor
    · intro h
      cases h
      exact .inl rfl
    · rintro (h | ⟨a, ha, -⟩)
      · cases h
        rfl
      · cases ha
  | ok a =>
    constructor
    · intro h
      exact .inr ⟨a, rfl, h⟩
    · rintro (h | ⟨a', ha, h⟩)
      · cases h
      · cases ha
        exact h

theorem map_eq_ok {ε α β : Type} {x : Except ε α} {f : α → β} {b : β} :
    x.map f = .ok b ↔ ∃ a, x = .ok a ∧ f a = b := by
  cases x with
  | error e => simp [Except.map]
  | ok a => simp [Except.map]

theorem mapError_eq_ok {ε ε' α : Type} {f : ε → ε'} {x : Except ε α} {a : α} :
    x.mapError f = .ok a ↔ x = .ok a := by
  cases x with
  | error e => simp [Except.mapError]
  | ok a => simp [Except.mapError]

theorem mapError_eq_error {ε ε' α : Type} {f : ε → ε'} {x : Except ε α} {e' : ε'} :
    x.mapError f = .error e' ↔ ∃ e, x = .error e ∧ f e = e' := by
  cases x with
  | error e => simp [Except.mapError]
  | ok a => simp [Except.mapError]

theorem exists_eq_ok_of_isSome {ε α : Type} {x : Except ε α} (h : x.toOption.isSome = true) :
    ∃ a, x = .ok a := by
  cases x with
  | error e => cases h
  | ok a => exact ⟨a, rfl⟩

theorem exists_eq_ok_of_any {ε α : Type} {x : Except ε α} {p : α → Bool}
    (h : x.toOption.any p = true) : ∃ a, x = .ok a ∧ p a = true := by
  cases x with
  | error e => cases h
  | ok a => exact ⟨a, rfl, h⟩

namespace Circuit

variable {ε σ : Type} (step : σ → Operation → Except ε σ)

theorem iterate_eq_foldlM {body : List Operation} {f : σ → Except ε σ}
    (hf : ∀ s, f s = body.foldlM step s) (n : Nat) (s : σ) :
    iterate f n s = (List.replicate n body).flatten.foldlM step s := by
  induction n generalizing s with
  | zero => rfl
  | succ n ih =>
    rw [iterate, hf, List.replicate_succ, List.flatten_cons, List.foldlM_append]
    cases body.foldlM step s with
    | error e => rfl
    | ok t => exact ih t

/-- **A run is the fold over the operations in the order in which they run.** -/
theorem run_eq_foldlM (c : Circuit) (s : σ) : c.run step s = c.executed.foldlM step s := by
  induction c generalizing s with
  | nil => rfl
  | op o rest ih =>
    rw [run, executed, List.foldlM_cons]
    cases step s o with
    | error e => rfl
    | ok t => exact ih t
  | repeated n body rest ihb ihr =>
    rw [run_repeated, executed_repeated, List.foldlM_append, iterate_eq_foldlM step ihb]
    cases (List.replicate n.toNat body.executed).flatten.foldlM step s with
    | error e => rfl
    | ok t => exact ihr t

/-- **Counting by blocks counts what is executed.** -/
theorem total_eq_sum (weight : Operation → Nat) (c : Circuit) :
    c.total weight = (c.executed.map weight).sum := by
  induction c with
  | nil => rfl
  | op o rest ih => simp [total, executed, ih]
  | repeated n body rest ihb ihr =>
    have hblock : ((List.replicate n.toNat body.executed).flatten.map weight).sum =
        n.toNat * (body.executed.map weight).sum := by
      simp [List.map_flatten, List.sum_flatten]
    rw [total, executed_repeated, List.map_append, List.sum_append, hblock, ihb, ihr]

end Circuit

/-! ### Folds of steps -/

theorem foldl_relates {α σ : Type} {R : σ → σ → Prop} (hrefl : ∀ s, R s s)
    (htrans : ∀ s t u, R s t → R t u → R s u) {f : σ → α → σ} (hf : ∀ s a, R s (f s a))
    (as : List α) (s : σ) : R s (as.foldl f s) := by
  induction as generalizing s with
  | nil => exact hrefl s
  | cons a as ih => exact htrans _ _ _ (hf s a) (ih (f s a))

section folds

variable {ε σ : Type} {step : σ → Operation → Except ε σ}

theorem foldlM_split {pre post : List Operation} {o : Operation} {s t : σ}
    (h : (pre ++ o :: post).foldlM step s = .ok t) :
    ∃ before after, pre.foldlM step s = .ok before ∧ step before o = .ok after ∧
      post.foldlM step after = .ok t := by
  rw [List.foldlM_append, bind_eq_ok] at h
  obtain ⟨before, hpre, h⟩ := h
  rw [List.foldlM_cons, bind_eq_ok] at h
  obtain ⟨after, ho, hpost⟩ := h
  exact ⟨before, after, hpre, ho, hpost⟩

/-- What every step keeps between the state and the operations so far, a fold keeps. -/
theorem foldlM_keeps {P : List Operation → σ → Prop}
    (hstep : ∀ past o s t, P past s → step s o = .ok t → P (past ++ [o]) t)
    {past ops : List Operation} {s t : σ} (hs : P past s) (h : ops.foldlM step s = .ok t) :
    P (past ++ ops) t := by
  induction ops generalizing past s with
  | nil =>
    cases h
    simpa using hs
  | cons o ops ih =>
    rw [List.foldlM_cons, bind_eq_ok] at h
    obtain ⟨u, ho, h⟩ := h
    have := ih (hstep past o s u hs ho) h
    rwa [List.append_assoc] at this

theorem foldlM_relates {R : σ → σ → Prop} (hrefl : ∀ s, R s s)
    (htrans : ∀ s t u, R s t → R t u → R s u) (hstep : ∀ s o t, step s o = .ok t → R s t)
    {ops : List Operation} {s t : σ} (h : ops.foldlM step s = .ok t) : R s t := by
  induction ops generalizing s with
  | nil =>
    cases h
    exact hrefl _
  | cons o ops ih =>
    rw [List.foldlM_cons, bind_eq_ok] at h
    obtain ⟨u, ho, h⟩ := h
    exact htrans _ _ _ (hstep s o u ho) (ih h)

end folds

end CircuitFrames
