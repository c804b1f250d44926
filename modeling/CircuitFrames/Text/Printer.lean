import CircuitFrames.Circuit.Flatten

/-!
# Writing circuits

`emit` writes a circuit an operation a line; the lines of a block stand four spaces further in than
its first and last line. `editorLink` writes a flat circuit into one line, the link that opens it in an
editor.
-/

namespace CircuitFrames

namespace Text

/-- The spaces before a line at a depth of blocks. -/
def indent (depth : Nat) : String :=
  .ofList (List.replicate (4 * depth) ' ')

/-- The lines of a circuit at a depth of blocks. -/
def lines (depth : Nat) : Circuit → List String
  | .nil => []
  | .op o rest => (indent depth ++ o.text) :: lines depth rest
  | .repeated count body rest =>
    (indent depth ++ "REPEAT " ++ toString count.toNat ++ " \x7b") :: lines (depth + 1) body
      ++ (indent depth ++ "\x7d") :: lines depth rest

/-- The text of a circuit. Every line ends with a line break. -/
def emit (c : Circuit) : String :=
  String.join ((lines 0 c).map (· ++ "\n"))

end Text

/-! ## Links to a circuit editor -/

/-- The operations of a circuit that an editor is given: the flat circuit with all placements of
qubits in front. -/
def editorOperations (c : Circuit) : List Operation :=
  let ops := c.flattened.executed
  ops.filter (·.kind == .qubitCoords) ++ ops.filter (·.kind != .qubitCoords)

/-- The link that opens a circuit in the editor at a base address: the operations with semicolons
between them, and underscores for spaces. -/
def editorLink (c : Circuit) (base : String) : String :=
  let lines := ";".intercalate ((editorOperations c).map Operation.text)
  base ++ "#circuit=" ++ .ofList (lines.toList.map fun ch => if ch = ' ' then '_' else ch)

end CircuitFrames
