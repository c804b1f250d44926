import CircuitFrames.Json.Number

/-!
# Decoding JSON values

Decoders of the stored forms: records, lists, tagged alternatives, integers within bounds. Each
container that a decoder opens takes one unit of `room`, and a document may nest no deeper than
`documentRoom`; what no decoder looks at may nest as it likes.
-/

namespace CircuitFrames.Json

/-- How many containers may stand one within the other. -/
def documentRoom : Nat := 127

namespace Value

/-- The integer of a number within the bounds `lo` and `hi`. -/
def intBetween? (lo hi : Int) : Value → Option Int
  | .number n => do
    let k ← n.integer?
    if lo ≤ k ∧ k ≤ hi then some k else none
  | _ => none

/-- A natural number of thirty-two bits. -/
def uint32? (v : Value) : Option UInt32 :=
  (v.intBetween? 0 (UInt32.size - 1)).map fun k => .ofNat k.toNat

/-- A natural number of sixty-four bits. -/
def uint64? (v : Value) : Option UInt64 :=
  (v.intBetween? 0 (UInt64.size - 1)).map fun k => .ofNat k.toNat

/-- An integer of thirty-two bits. -/
def int32? (v : Value) : Option Int32 :=
  (v.intBetween? Int32.minValue.toInt Int32.maxValue.toInt).map .ofInt

/-- A double. -/
def float? : Value → Option Float
  | .number n => n.float?
  | _ => none

/-- A truth value. -/
def bool? : Value → Option Bool
  | .bool b => some b
  | _ => none

/-- A text. -/
def string? : Value → Option String
  | .string s => s
  | _ => none

/-- The items of a list, each decoded with the room that is left in it. -/
def list? {α : Type} (room : Nat) (item : Nat → Value → Option α) : Value → Option (List α)
  | .array items =>
    match room with
    | 0 => none
    | room + 1 => items.mapM (item room)
  | _ => none

/-- The one value that an object has for a field, if it has any; a field may not be repeated. -/
def field? (members : List (String × Value)) (name : String) : Option (Option Value) :=
  match members.filter (·.1 == name) with
  | [] => some none
  | [(_, v)] => some (some v)
  | _ => none

/-- The values of the fields of a record, with none for each that is absent: an object, whose other
members do not count, or an array of the values in the order of the fields, from which the last
may be missing. -/
def record? (room : Nat) (names : List String) (v : Value) : Option (List (Option Value)) :=
  match room, v with
  | 0, _ => none
  | _, .object members => do
    let members ← members.mapM fun (key, v) => key.map (·, v)
    names.mapM (field? members)
  | _, .array items =>
    if items.length ≤ names.length then
      some (items.map some ++ List.replicate (names.length - items.length) none)
    else none
  | _, _ => none

/-- A tagged alternative: the tag, and what it holds unless it stands alone. -/
def tagged? (room : Nat) : Value → Option (String × Option Value)
  | .string (some tag) => some (tag, none)
  | .object [(some tag, v)] => if room = 0 then none else some (tag, some v)
  | _ => none

/-- The tag of an alternative that holds nothing. -/
def unitTag? (room : Nat) (v : Value) : Option String :=
  match v.tagged? room with
  | some (tag, none) | some (tag, some .null) => some tag
  | _ => none

end Value

end CircuitFrames.Json
