import CircuitFrames.Yaml.Node

/-!
# YAML documents

`Document.ofText?` reads the one document of a text. What its scalars mean depends on how they are
written: without a tag, only a plain one can mean a number, a truth value or nothing.
-/

namespace CircuitFrames.Yaml

/-- Whether a token is a directive. -/
def Token.isDirective : Token → Bool
  | .versionDirective .. | .tagDirective .. => true
  | _ => false

/-- Whether a token stands between documents. -/
def Token.isBetween (t : Token) : Bool :=
  t.isDirective || t == .documentStart || t == .documentEnd

namespace Read

/-! ## Around the root -/

/-- Adds what a handle stands for, which may be said once. -/
def addHandle? (handle expansion : List Char) : Read Unit := do
  if ((← get).handles.lookup handle).isSome then failure
  else modify fun r => { r with handles := (handle, expansion) :: r.handles }

/-- Takes the directives in front of a document. The version may be said once, and has to be a known
one. -/
def directives? : Nat → (versioned : Bool) → Read Unit
  | 0, _ => return
  | rounds + 1, versioned => do
    match ← next? with
    | some (.versionDirective major minor) =>
      if versioned ∨ major ≠ 1 ∨ ¬ (minor = 1 ∨ minor = 2) then failure
      else do
        skip
        directives? rounds true
    | some (.tagDirective handle expansion) => do
      addHandle? handle expansion
      skip
      directives? rounds versioned
    | _ => return

/-- What the two handles stand for that need no directive. -/
def defaultHandles : List (List Char × List Char) :=
  [(['!'], ['!']), (['!', '!'], "tag:yaml.org,2002:".toList)]

/-- Takes what stands before the root, and says whether the document has a mark for its start, which
it has to have behind directives. -/
def start? : Read Bool := do
  let directed := (← next?).any Token.isDirective
  directives? (← get).tokens.length false
  modify fun r => { r with handles := r.handles ++ defaultHandles }
  if ← skip? .documentStart then return true
  else if directed then failure
  else return false

/-- The root of the only document. It may be left out behind a mark for the start, and so may the
whole document. -/
def document? : Read Node := do
  if (← next?).isNone then return .empty
  else
    let marked ← start?
    let leftOut := marked ∧ (← next?).all Token.isBetween
    let root ← if leftOut then pure .empty else root?
    modify fun r => { r with tokens := r.tokens.dropWhile (· == .documentEnd) }
    if (← next?).isNone then return root else failure

end Read

/-- A document. -/
structure Document where
  root : Node
  /-- The nodes that others stand for, by their numbers; none stands for a collection. -/
  marked : Std.ExtTreeMap Nat (Option Scalar)

namespace Document

/-- The only document of a text. -/
def ofText? (text : String) : Option Document := do
  let (root, last) ← Read.document?.run ⟨← tokens? text, [], ∅, ∅⟩
  some ⟨root, last.marked⟩

/-- The scalar that a node is or stands for. -/
def scalar? (d : Document) : Node → Option Scalar
  | .scalar s => some s
  | .alias number => d.marked[number]?.join
  | _ => none

/-- The texts of the keys at the root with their values, where none stands for a collection. A key
has to be a scalar. A root that is left out has no entries. -/
def entries? (d : Document) : Option (List (String × Option Scalar)) :=
  match d.root with
  | .mapping entries => entries.mapM fun (key, value) => do
    let key ← d.scalar? key
    some (key.text, d.scalar? value)
  | .scalar s => if s.isEmpty then some [] else none
  | _ => none

end Document

/-! ## Meanings of scalars -/

namespace Scalar

/-- Whether a scalar has a tag of the common ones. -/
def isTagged (s : Scalar) (name : String) : Bool :=
  s.tag == some ("tag:yaml.org,2002:" ++ name).toList

/-- Whether a scalar can mean a value of the kind that a tag names: a plain one can, and so can a
block that has the tag. -/
def mayMean (s : Scalar) (name : String) : Bool :=
  s.style == .plain || s.style == .literal && s.isTagged name

/-- The truth value that a scalar means. -/
def bool? (s : Scalar) : Option Bool :=
  if !s.mayMean "bool" then none
  else if ["true", "True", "TRUE"].contains s.text then some true
  else if ["false", "False", "FALSE"].contains s.text then some false
  else none

/-- The natural number that a scalar means: digits without a zero in front, or a prefix for another
base and digits of that base; a plus may stand before either. -/
def natural? (s : Scalar) : Option Nat :=
  if !s.mayMean "int" then none
  else
    let cs :=
      match s.text.toList with
      | '+' :: cs => cs
      | cs => cs
    match cs with
    | '0' :: 'x' :: ds => ofDigits? 16 ds
    | '0' :: 'o' :: ds => ofDigits? 8 ds
    | '0' :: 'b' :: ds => ofDigits? 2 ds
    | '0' :: _ :: _ => none
    | ds => ofDigits? 10 ds

/-- The text that a scalar means, or that it means nothing. A plain scalar means nothing if it is
empty or one of the words for that. With a tag it means its text; one that is tagged as nothing has
to be such a word. -/
def optional? (s : Scalar) : Option (Option String) :=
  let isNull := ["~", "null", "Null", "NULL"].contains s.text
  if s.style ≠ .plain then some (some s.text)
  else if s.tag.isNone then some (if s.text.isEmpty || isNull then none else some s.text)
  else if !s.isTagged "null" then some (some s.text)
  else if isNull then some none
  else none

end Scalar

end CircuitFrames.Yaml
