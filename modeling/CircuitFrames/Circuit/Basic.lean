import CircuitFrames.Circuit.Operation

/-!
# Circuits

A circuit is a sequence of operations and repeated blocks. `executed` lists the operations in the
order in which they run, every block as often as it is repeated; `run` folds a step over that order
and stops at the first error, and `total` adds up a weight over it without listing it.
-/

namespace CircuitFrames

/-- A circuit in program order. -/
inductive Circuit
  /-- The empty circuit. -/
  | nil
  /-- An operation, then the rest. -/
  | op (first : Operation) (rest : Circuit)
  /-- A block that runs `count` times, then the rest. -/
  | repeated (count : UInt64) (body rest : Circuit)
deriving BEq, DecidableEq

namespace Circuit

instance : EmptyCollection Circuit := ⟨nil⟩

instance : Inhabited Circuit := ⟨nil⟩

/-- One circuit after another. -/
def append : Circuit → Circuit → Circuit
  | nil, c => c
  | op o rest, c => op o (rest.append c)
  | repeated n body rest, c => repeated n body (rest.append c)

instance : Append Circuit := ⟨append⟩

/-- How many operations and blocks the circuit has at its top. -/
def length : Circuit → Nat
  | nil => 0
  | op _ rest => rest.length + 1
  | repeated _ _ rest => rest.length + 1

/-- Whether the circuit has no operation and no block. -/
def isEmpty : Circuit → Bool
  | nil => true
  | _ => false

/-- A circuit of operations alone. -/
def ofOperations : List Operation → Circuit
  | [] => nil
  | o :: rest => op o (ofOperations rest)

/-- An operation added at the end. -/
def push (c : Circuit) (o : Operation) : Circuit :=
  c ++ op o nil

/-- Whether no operation runs. -/
def isIdle : Circuit → Bool
  | nil => true
  | op _ _ => false
  | repeated n body rest => (n == 0 || body.isIdle) && rest.isIdle

/-- How often a block has to be gone through. If no operation of it runs, that is not at all, however
large its count is. -/
def rounds (count : UInt64) (body : Circuit) : Nat :=
  if body.isIdle then 0 else count.toNat

/-- The operations in the order in which they run. -/
def executed : Circuit → List Operation
  | nil => []
  | op o rest => o :: rest.executed
  | repeated n body rest =>
    (List.replicate (rounds n body) body.executed).flatten ++ rest.executed

/-- The sum of a weight over all operations that run, each as often as it runs. -/
def total (weight : Operation → Nat) : Circuit → Nat
  | nil => 0
  | op o rest => weight o + rest.total weight
  | repeated n body rest => n.toNat * body.total weight + rest.total weight

/-- The number of measurement results. -/
def numMeasurements (c : Circuit) : Nat :=
  c.total Operation.numMeasurements

/-- The number of detectors. -/
def numDetectors (c : Circuit) : Nat :=
  c.total fun o => if o.isDetector then 1 else 0

/-- The number of ticks. -/
def numTicks (c : Circuit) : Nat :=
  c.total fun o => if o.isTick then 1 else 0

/-- Applies a fallible step a number of times and stops at the first error. -/
def iterate {ε σ : Type} (step : σ → Except ε σ) : Nat → σ → Except ε σ
  | 0, s => .ok s
  | n + 1, s =>
    match step s with
    | .error e => .error e
    | .ok s => iterate step n s

/-- Folds a fallible step over the operations in the order in which they run. -/
def run {ε σ : Type} (step : σ → Operation → Except ε σ) : Circuit → σ → Except ε σ
  | nil, s => .ok s
  | op o rest, s =>
    match step s o with
    | .error e => .error e
    | .ok s => rest.run step s
  | repeated n body rest, s =>
    match iterate (body.run step) (rounds n body) s with
    | .error e => .error e
    | .ok s => rest.run step s

/-! ## Views -/

@[simp] theorem nil_append (c : Circuit) : nil ++ c = c := rfl

@[simp] theorem op_append (o : Operation) (c d : Circuit) : op o c ++ d = op o (c ++ d) := rfl

@[simp] theorem repeated_append (n : UInt64) (b c d : Circuit) :
    repeated n b c ++ d = repeated n b (c ++ d) := rfl

theorem append_nil (c : Circuit) : c ++ nil = c := by
  induction c with
  | nil => rfl
  | op o rest ih => simp [ih]
  | repeated n body rest _ ih => simp [ih]

theorem executed_of_isIdle {c : Circuit} (h : c.isIdle) : c.executed = [] := by
  induction c with
  | nil => rfl
  | op => simp [isIdle] at h
  | repeated n body rest ihb ihr =>
    simp only [isIdle, Bool.and_eq_true, Bool.or_eq_true, beq_iff_eq] at h
    rcases h with ⟨rfl | hb, hr⟩
    · simp [executed, rounds, ihr hr]
    · simp [executed, rounds, hb, ihr hr]

/-- A block runs as often as its count says. -/
theorem executed_repeated (n : UInt64) (body rest : Circuit) :
    (repeated n body rest).executed =
      (List.replicate n.toNat body.executed).flatten ++ rest.executed := by
  by_cases h : body.isIdle
  · simp [executed, rounds, h, executed_of_isIdle h]
  · simp [executed, rounds, h]

theorem iterate_ok {ε σ : Type} (n : Nat) (s : σ) : iterate (.ok : σ → Except ε σ) n s = .ok s := by
  induction n with
  | zero => rfl
  | succ n ih => simpa [iterate] using ih

theorem run_of_isIdle {ε σ : Type} {step : σ → Operation → Except ε σ} {c : Circuit}
    (h : c.isIdle) : c.run step = .ok := by
  induction c with
  | nil => rfl
  | op => simp [isIdle] at h
  | repeated n body rest ihb ihr =>
    simp only [isIdle, Bool.and_eq_true, Bool.or_eq_true, beq_iff_eq] at h
    funext s
    rcases h with ⟨rfl | hb, hr⟩
    · simp [run, rounds, iterate, ihr hr]
    · simp [run, rounds, hb, iterate, ihr hr]

/-- A run goes through a block as often as its count says, and then through the rest. -/
theorem run_repeated {ε σ : Type} (step : σ → Operation → Except ε σ) (n : UInt64)
    (body rest : Circuit) (s : σ) :
    (repeated n body rest).run step s =
      match iterate (body.run step) n.toNat s with
      | .error e => .error e
      | .ok s => rest.run step s := by
  by_cases h : body.isIdle
  · simp [run, rounds, h, run_of_isIdle h, iterate_ok]
  · simp [run, rounds, h]

@[simp] theorem executed_append (c d : Circuit) :
    (c ++ d).executed = c.executed ++ d.executed := by
  induction c with
  | nil => simp [executed]
  | op o rest ih => simp [executed, ih]
  | repeated n body rest _ ih => simp [executed_repeated, ih]

@[simp] theorem executed_ofOperations (ops : List Operation) :
    (ofOperations ops).executed = ops := by
  induction ops with
  | nil => rfl
  | cons o rest ih => simp [ofOperations, executed, ih]

end Circuit

end CircuitFrames
