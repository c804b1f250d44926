import CircuitFrames.Yaml.Tokens
import Std.Data.ExtTreeMap

/-!
# Nodes of a YAML document

A document is a tree of scalars, sequences and mappings, which `Read.root?` reads off the tokens. A
node may be left out where one is expected; an empty scalar stands for it.
-/

namespace CircuitFrames.Yaml

/-- A scalar and how it is written. -/
structure Scalar where
  style : Style
  /-- The tag with the expansion of its handle. -/
  tag : Option (List Char)
  text : String
deriving DecidableEq, Repr

namespace Scalar

/-- The scalar that stands for a node that is left out. -/
def empty : Scalar := ⟨.plain, none, ""⟩

/-- Whether a scalar is written as nothing at all, but for its tag. -/
def isEmpty (s : Scalar) : Bool :=
  s.style == .plain && s.text.isEmpty

end Scalar

/-- A node of a document. -/
inductive Node
  | scalar (s : Scalar)
  /-- Stands for the node that is marked with a number. -/
  | alias (number : Nat)
  | sequence (items : List Node)
  | mapping (entries : List (Node × Node))
deriving Repr

namespace Node

/-- The node that stands for one that is left out. -/
def empty : Node := .scalar .empty

/-- The scalar that a node is. -/
def scalar? : Node → Option Scalar
  | .scalar s => some s
  | _ => none

end Node

/-! ## Reading tokens -/

/-- The state of reading a document. -/
structure Reading where
  /-- The tokens that are left. -/
  tokens : List Token
  /-- What the handles of tags stand for. -/
  handles : List (List Char × List Char)
  /-- The numbers of the names so far. A name that is given again has the number of its last node. -/
  names : Std.ExtTreeMap (List Char) Nat
  /-- The last node of each number; none stands for a collection. -/
  marked : Std.ExtTreeMap Nat (Option Scalar)

/-- A step of reading, which may fail. -/
abbrev Read := StateT Reading Option

namespace Read

/-- The next token. -/
def next? : Read (Option Token) :=
  return (← get).tokens.head?

/-- Passes the next token. -/
def skip : Read Unit :=
  modify fun r => { r with tokens := r.tokens.tail }

/-- Passes the next token if it is the given one. -/
def skip? (t : Token) : Read Bool := do
  if (← next?) = some t then
    skip
    return true
  else return false

/-- A node, which is left out if one of the given tokens comes next. -/
def orEmpty (ends : List Token) (node : Read Node) : Read Node := do
  if (← next?).any ends.contains then return .empty else node

/-! ## Names and tags -/

/-- The tag behind a handle. A tag without a handle is written out. -/
def expand? (handle suffix : List Char) : Read (List Char) := do
  if handle.isEmpty then return suffix
  else
    let expansion ← ((← get).handles.lookup handle).map pure |>.getD failure
    return expansion ++ suffix

/-- The name and the tag in front of a node. -/
structure Properties where
  name : Option (List Char)
  tag : Option (List Char)
deriving DecidableEq, Repr

/-- Takes a name, if one comes next. -/
def takeName : Read (Option (List Char)) := do
  match ← next? with
  | some (.anchor name) => do
    skip
    return some name
  | _ => return none

/-- Takes a tag, if one comes next. -/
def takeTag? : Read (Option (List Char)) := do
  match ← next? with
  | some (.tag handle suffix) => do
    skip
    return some (← expand? handle suffix)
  | _ => return none

/-- Takes a name and a tag in either order. -/
def properties? : Read Properties := do
  match ← takeName with
  | some name => return ⟨some name, ← takeTag?⟩
  | none => do
    let tag ← takeTag?
    return ⟨← takeName, tag⟩

/-- Marks the node that starts here, if it has a name. Its number is how many names there are so far,
so that a name that is given again may leave a number to two nodes; the later one has it. -/
def mark (name : Option (List Char)) (s : Option Scalar) : Read Unit :=
  match name with
  | none => return
  | some name => modify fun r =>
    { r with
      names := r.names.insert name r.names.size
      marked := r.marked.insert r.names.size s }

/-- The node that a name stands for, which has to be given before. -/
def named? (name : List Char) : Read Node := do
  match (← get).names[name]? with
  | some number => return .alias number
  | none => failure

/-- A scalar behind its name. -/
def named (name : Option (List Char)) (s : Scalar) : Read Node := do
  mark name (some s)
  return .scalar s

/-- A scalar behind its name and tag. -/
def scalar (p : Properties) (style : Style) (text : List Char) : Read Node :=
  named p.name ⟨style, p.tag, .ofList text⟩

/-- The scalar that is left out behind a name or a tag. -/
def empty? (p : Properties) : Read Node :=
  if p.name.isNone ∧ p.tag.isNone then failure else named p.name ⟨.plain, p.tag, ""⟩

/-! ## Collections -/

/-- The value of a key, which may be left out. -/
def value? (ends : List Token) (node : Read Node) : Read Node := do
  if ← skip? .value then orEmpty ends node else return .empty

/-- The tokens that end an entry outside brackets. -/
def entryEnds : List Token := [.key, .value, .blockEnd]

/-- The only entry of a mapping between square brackets. If the key is left out, the token in its
place is lost. -/
def pair? (node : Read Node) : Read Node := do
  let key ←
    if (← next?).any [Token.value, .flowEntry, .flowSequenceEnd].contains then do
      skip
      pure Node.empty
    else node
  let value ← value? [.flowEntry, .flowSequenceEnd] node
  return .mapping [(key, value)]

/-- An entry between curly brackets. Only what has a mark of a key can have a value. -/
def flowEntry? (node : Read Node) : Read (Node × Node) := do
  if ← skip? .key then
    let key ← orEmpty [.value, .flowEntry, .flowMappingEnd] node
    let value ← value? [.flowEntry, .flowMappingEnd] node
    return (key, value)
  else return (← node, .empty)

/-- What follows an item or entry: a comma and more, or the closing bracket. -/
def more? {α : Type} (closing : Token) (more : Read (List α)) : Read (List α) := do
  if ← skip? .flowEntry then more
  else if ← skip? closing then return []
  else failure

mutual

/-- The node that starts here. Outside brackets it may be a collection by indentation, and behind a
key a sequence that is not indented. -/
def node? : Nat → (block indentless : Bool) → Read Node
  | 0, _, _ => failure
  | rounds + 1, block, indentless => do
    if let some (.alias name) ← next? then
      skip
      named? name
    else
      let p ← properties?
      match ← next? with
      | some (.scalar style text) => do
        skip
        scalar p style text
      | some .blockEntry =>
        if indentless then do
          mark p.name none
          return .sequence (← indentlessItems? rounds)
        else empty? p
      | some .flowSequenceStart => do
        skip
        mark p.name none
        return .sequence (← flowItems? rounds)
      | some .flowMappingStart => do
        skip
        mark p.name none
        return .mapping (← flowEntries? rounds)
      | some .blockSequenceStart =>
        if block then do
          skip
          mark p.name none
          return .sequence (← blockItems? rounds)
        else empty? p
      | some .blockMappingStart =>
        if block then do
          skip
          mark p.name none
          return .mapping (← blockEntries? rounds)
        else empty? p
      | _ => empty? p

/-- The items of an indented sequence. -/
def blockItems? : Nat → Read (List Node)
  | 0 => failure
  | rounds + 1 => do
    if ← skip? .blockEntry then
      let item ← orEmpty [.blockEntry, .blockEnd] (node? rounds true false)
      return item :: (← blockItems? rounds)
    else if ← skip? .blockEnd then return []
    else failure

/-- The items of a sequence that is not indented. It ends before anything but a dash. -/
def indentlessItems? : Nat → Read (List Node)
  | 0 => failure
  | rounds + 1 => do
    if ← skip? .blockEntry then
      let item ← orEmpty (.blockEntry :: entryEnds) (node? rounds true false)
      return item :: (← indentlessItems? rounds)
    else return []

/-- The entries of an indented mapping. -/
def blockEntries? : Nat → Read (List (Node × Node))
  | 0 => failure
  | rounds + 1 => do
    if ← skip? .key then
      let key ← orEmpty entryEnds (node? rounds true true)
      let value ← value? entryEnds (node? rounds true true)
      return (key, value) :: (← blockEntries? rounds)
    else if ← skip? .blockEnd then return []
    else failure

/-- The items up to the closing square bracket. -/
def flowItems? : Nat → Read (List Node)
  | 0 => failure
  | rounds + 1 => do
    if ← skip? .flowSequenceEnd then return []
    else
      let item ←
        if ← skip? .key then pair? (node? rounds false false) else node? rounds false false
      return item :: (← more? .flowSequenceEnd (flowItems? rounds))

/-- The entries up to the closing curly bracket. -/
def flowEntries? : Nat → Read (List (Node × Node))
  | 0 => failure
  | rounds + 1 => do
    if ← skip? .flowMappingEnd then return []
    else
      let entry ← flowEntry? (node? rounds false false)
      return entry :: (← more? .flowMappingEnd (flowEntries? rounds))

end

/-- The node at the root. Every two steps into the tree take a token. -/
def root? : Read Node := do
  node? (2 * (← get).tokens.length + 2) true false

end Read

end CircuitFrames.Yaml
