/-!
# Settings of the viewer

A setting comes from the first of these that gives it: the options of a command, the environment, a
settings file, the default.
-/

namespace CircuitFrames

/-- The settings of the viewer. -/
structure Config where
  /-- The width of the viewer panel in pixels. -/
  width : UInt32
  /-- The height of the viewer panel in pixels. -/
  height : UInt32
  /-- The address of the circuit editor; none leaves out the link. -/
  editorUrl : Option String
  /-- Whether labels of detectors show declared coordinates. -/
  labelDetectorCoordinates : Bool
deriving DecidableEq, Repr

/-- Why settings are refused. -/
inductive ConfigError
  /-- The panel has no area. -/
  | emptyPanel (width height : UInt32)
  /-- The editor does not have a web address. -/
  | editorScheme (url : String)
  /-- A settings file cannot be read; the reason is that of the system. -/
  | unreadable (path reason : String)
  /-- A settings file is not written as one. -/
  | malformed
deriving DecidableEq, Repr

namespace ConfigError

/-- The wording of the reason. -/
def reason : ConfigError → String
  | emptyPanel w h =>
    "viewer size must be positive, got " ++ toString w.toNat ++ "x" ++ toString h.toNat
  | editorScheme url => "editor URL must be http(s): " ++ url
  | unreadable path reason => path ++ ": " ++ reason
  | malformed => "malformed settings"

/-- The full wording. -/
def message (e : ConfigError) : String :=
  "Configuration error: " ++ e.reason

end ConfigError

namespace Config

/-- The address of the editor unless another is set. -/
def defaultEditorUrl : String :=
  "http://localhost:63342/crumble/crumble.html"

/-- The settings where nothing is set. -/
def default : Config :=
  ⟨500, 500, some defaultEditorUrl, false⟩

instance : Inhabited Config := ⟨default⟩

/-- Whether an address is one of the web. -/
def isWebAddress (url : String) : Bool :=
  "http://".toList.isPrefixOf url.toList || "https://".toList.isPrefixOf url.toList

/-- The settings if they make sense. The size is looked at before the address. -/
def validate (c : Config) : Except ConfigError Config :=
  if c.width = 0 ∨ c.height = 0 then .error (.emptyPanel c.width c.height)
  else
    match c.editorUrl with
    | none => .ok c
    | some url => if isWebAddress url then .ok c else .error (.editorScheme url)

/-! ## The environment -/

/-- A size in the environment: digits with an optional plus, within thirty-two bits. -/
def size? (text : String) : Option UInt32 :=
  let digits :=
    match text.toList with
    | '+' :: ds => ds
    | ds => ds
  let value := Nat.ofDigitChars 10 digits 0
  if digits ≠ [] ∧ digits.all Char.isDigit ∧ value < UInt32.size then some (.ofNat value) else none

/-- The settings with those of the environment over them. A size that cannot be read is passed
over, and an empty address leaves out the link. -/
def withEnvironment (c : Config) (lookup : String → Option String) : Config where
  width := ((lookup "TESSEL_WIDTH").bind size?).getD c.width
  height := ((lookup "TESSEL_HEIGHT").bind size?).getD c.height
  editorUrl :=
    match lookup "TESSEL_EDITOR_URL" with
    | none => c.editorUrl
    | some url => if url.isEmpty then none else some url
  labelDetectorCoordinates := c.labelDetectorCoordinates

/-- The settings with the given options over them. -/
def withSize (c : Config) (width height : Option UInt32) : Config :=
  { c with width := width.getD c.width, height := height.getD c.height }

end Config

end CircuitFrames
