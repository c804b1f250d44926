import CircuitFrames.Json.Lexer

/-!
# Reading JSON

`parse?` reads a whole text as one value.
-/

namespace CircuitFrames.Json

/-- What stands at the front of some tokens, and the fewer tokens after it. -/
abbrev Front (α : Type) (ts : List Token) : Type :=
  Option (α × { rest : List Token // rest.length < ts.length })

mutual

/-- The value at the front of the tokens. -/
def value? (ts : List Token) : Front Value ts :=
  match ts with
  | .null :: rest => some (.null, ⟨rest, by simp⟩)
  | .bool b :: rest => some (.bool b, ⟨rest, by simp⟩)
  | .number n :: rest => some (.number n, ⟨rest, by simp⟩)
  | .string s :: rest => some (.string s, ⟨rest, by simp⟩)
  | .leftBracket :: .rightBracket :: rest =>
    some (.array [], ⟨rest, by simp only [List.length_cons]; omega⟩)
  | .leftBracket :: rest =>
    match items? rest with
    | some (items, ⟨rest', h⟩) =>
      some (.array items, ⟨rest', by simp only [List.length_cons]; omega⟩)
    | none => none
  | .leftBrace :: .rightBrace :: rest =>
    some (.object [], ⟨rest, by simp only [List.length_cons]; omega⟩)
  | .leftBrace :: rest =>
    match members? rest with
    | some (members, ⟨rest', h⟩) =>
      some (.object members, ⟨rest', by simp only [List.length_cons]; omega⟩)
    | none => none
  | _ => none
termination_by (ts.length, 0)

/-- The values of an array up to its closing bracket. -/
def items? (ts : List Token) : Front (List Value) ts :=
  match value? ts with
  | some (v, ⟨.comma :: rest, h⟩) =>
    have shorter : rest.length < ts.length := by simp only [List.length_cons] at h; omega
    match items? rest with
    | some (vs, ⟨rest', h'⟩) => some (v :: vs, ⟨rest', by omega⟩)
    | none => none
  | some (v, ⟨.rightBracket :: rest, h⟩) =>
    some ([v], ⟨rest, by simp only [List.length_cons] at h; omega⟩)
  | _ => none
termination_by (ts.length, 1)

/-- The members of an object up to its closing brace. -/
def members? (ts : List Token) : Front (List (Option String × Value)) ts :=
  match ts with
  | .string key :: .colon :: tail =>
    match value? tail with
    | some (v, ⟨.comma :: rest, h⟩) =>
      have shorter : rest.length < tail.length := by simp only [List.length_cons] at h; omega
      match members? rest with
      | some (more, ⟨rest', h'⟩) =>
        some ((key, v) :: more, ⟨rest', by simp only [List.length_cons]; omega⟩)
      | none => none
    | some (v, ⟨.rightBrace :: rest, h⟩) =>
      some ([(key, v)], ⟨rest, by simp only [List.length_cons] at h ⊢; omega⟩)
    | _ => none
  | _ => none
termination_by (ts.length, 1)

end

/-- The value that a text spells. -/
def parse? (source : String) : Option Value := do
  let ts ← tokenize? source
  match ← value? ts with
  | (v, ⟨[], _⟩) => some v
  | _ => none

end CircuitFrames.Json
