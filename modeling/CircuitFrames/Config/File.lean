import CircuitFrames.Config.Basic
import CircuitFrames.Yaml.Document

/-!
# Settings from a file

Each setting is looked up under its key. A file may leave out settings and may have other keys, but
it may not give a setting twice.
-/

namespace CircuitFrames

namespace Config

/-- A setting that a file gives under a key: a scalar, or none for a collection. -/
abbrev Entry := String × Option Yaml.Scalar

/-- The setting under a key, with its default if it is left out. -/
def setting? {α : Type} (entries : List Entry) (key : String) (read : Yaml.Scalar → Option α)
    (default : α) : Option α :=
  match entries.filter (·.1 == key) with
  | [] => some default
  | [(_, value)] => value.bind read
  | _ => none

/-- A size of thirty-two bits. -/
def readSize (s : Yaml.Scalar) : Option UInt32 := do
  let n ← s.natural?
  if n < UInt32.size then some (.ofNat n) else none

/-- The settings that a mapping gives. -/
def ofEntries? (entries : List Entry) : Option Config := do
  let width ← setting? entries "width" readSize default.width
  let height ← setting? entries "height" readSize default.height
  let editorUrl ← setting? entries "editor_url" Yaml.Scalar.optional? default.editorUrl
  let labels ← setting? entries "label_detector_coordinates" Yaml.Scalar.bool?
    default.labelDetectorCoordinates
  return ⟨width, height, editorUrl, labels⟩

/-- The settings of a file, which have to make sense by themselves. -/
def ofYaml (text : String) : Except ConfigError Config :=
  match (Yaml.Document.ofText? text).bind (·.entries?) |>.bind ofEntries? with
  | none => .error .malformed
  | some c => c.validate

/-- The settings of a run: those of the file, if there is one, then those of the environment over
them, then the given sizes. They are checked after each of the three. -/
def load (file : Option String) (lookup : String → Option String) (width height : Option UInt32) :
    Except ConfigError Config := do
  let base ←
    match file with
    | none => .ok default
    | some text => ofYaml text
  let merged ← (base.withEnvironment lookup).validate
  (merged.withSize width height).validate

end Config

end CircuitFrames
