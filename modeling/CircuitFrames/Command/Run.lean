import CircuitFrames.Command.Arguments
import CircuitFrames.Command.Host
import CircuitFrames.Config.File
import CircuitFrames.Diagram.Page
import CircuitFrames.Json.Mechanism
import CircuitFrames.Text.Parser

/-!
# Commands

`runRender` reads a circuit and, where they are given, the settings and a fault mechanism, renders
the circuit, and writes the page. Nothing is written before everything else has succeeded.
-/

namespace CircuitFrames

/-- Why a command fails. -/
inductive CommandError
  /-- There is no circuit file. -/
  | noInput (path : String)
  /-- A file cannot be read. -/
  | unreadable (path : String) (error : SystemError)
  /-- The circuit file does not hold a circuit. -/
  | parse (error : Text.ParseError)
  /-- The settings are refused. -/
  | config (error : ConfigError)
  /-- The fault file does not hold a fault mechanism. -/
  | invalidFault (path : String)
  /-- The circuit cannot be rendered. -/
  | render (path : String) (error : RenderError)
  /-- The page cannot be written. -/
  | unwritable (path : String) (error : SystemError)
deriving DecidableEq

namespace CommandError

/-- The wording of an error of rendering with the cause behind it. A fault of the circuit is its own
cause, so its wording comes twice. -/
def renderText : RenderError → String
  | .walk (.circuit error) => (RenderError.walk (.circuit error)).message ++ ": " ++ error.message
  | error => error.message

/-- The wording of a failure. -/
def message : CommandError → String
  | noInput path => "File not found: " ++ path
  | unreadable path error => "Failed to read file: " ++ path ++ ": " ++ error.text
  | parse error => "Parse error: " ++ error.message
  | config error => error.message
  | invalidFault path => "Invalid fault mechanism: " ++ path
  | render path error => "Failed to render " ++ path ++ ": " ++ renderText error
  | unwritable path error => "Failed to write file: " ++ path ++ ": " ++ error.text

end CommandError

/-- The page that is written for a circuit file unless another is named. -/
def defaultOutput (input : String) : String :=
  Path.withExtension input "html"

section

variable {m : Type → Type} [Monad m] (host : Host m)

/-- The circuit of a file. -/
def loadCircuit (path : String) : ExceptT CommandError m Circuit := do
  if ← host.isThere path then
    match ← host.readFile path with
    | .error e => throw (.unreadable path e)
    | .ok source =>
      match Text.parse source with
      | .error e => throw (.parse e)
      | .ok c => return c
  else throw (.noInput path)

/-- The settings of a run. -/
def loadConfig (o : RenderOptions) : ExceptT CommandError m Config := do
  let file ←
    match o.config with
    | none => pure none
    | some path =>
      match ← host.readFile path with
      | .error e => throw (.config (.unreadable path e.text))
      | .ok text => pure (some text)
  let names := ["TESSEL_WIDTH", "TESSEL_HEIGHT", "TESSEL_EDITOR_URL"]
  let values ← names.mapM fun name => return (name, ← host.getVariable name)
  match Config.load file (fun name => (values.lookup name).join) o.width o.height with
  | .error e => throw (.config e)
  | .ok config => return config

/-- The fault mechanism of a file. -/
def loadFault (path : String) : ExceptT CommandError m FaultMechanism := do
  match ← host.readFile path with
  | .error e => throw (.unreadable path e)
  | .ok text =>
    match FaultMechanism.ofJsonText? text with
    | none => throw (.invalidFault path)
    | some mechanism => return mechanism

/-- Renders a circuit file into a page. -/
def runRender (o : RenderOptions) : ExceptT CommandError m Unit := do
  host.printLine ("→ Rendering " ++ o.input)
  let circuit ← loadCircuit host o.input
  host.printLine ("  Loaded: " ++ toString circuit.numMeasurements ++ " measurements, "
    ++ toString circuit.numDetectors ++ " detectors, " ++ toString circuit.numTicks ++ " ticks")
  let config ← loadConfig host o
  let fault ←
    match o.fault with
    | none => pure none
    | some path => do
      let mechanism ← loadFault host path
      host.printLine ("  Highlighting " ++ toString mechanism.errors.length ++ " errors")
      pure (some mechanism)
  match render config circuit fault none with
  | .error e => throw (.render o.input e)
  | .ok rendering =>
    let output := o.output.getD (defaultOutput o.input)
    match ← host.writeFile output (rendering.diagram.page config) with
    | .error e => throw (.unwritable output e)
    | .ok () =>
      host.printLine ("✓ Rendered " ++ toString rendering.diagram.frames.length ++ " layers")
      host.printLine ("  Output: " ++ output)

/-- The lines that show what the program consists of. -/
def versionLines : List String :=
  ["Tessel v0.3.0 - stabilizer circuit layer viewer",
    "",
    "Components:",
    "  tessel-ir      Circuit model and fault mechanism types",
    "  tessel-text    Circuit text format parser and emitter",
    "  tessel-viewer  Layered SVG/HTML renderer",
    "  tessel-cli     Command-line interface",
    "",
    "License:    Apache-2.0"]

/-- The lines that show how the program is used. -/
def helpLines : List String :=
  ["Usage: tessel [-v]... render -i FILE [-o FILE] [-c FILE] [-f FILE] [--width N] [--height N]",
    "       tessel [-v]... version"]

/-- Does what a run is asked to do. -/
def run : Invocation → ExceptT CommandError m Unit
  | .render options => runRender host options
  | .version => versionLines.forM fun line => host.printLine line
  | .programVersion => host.printLine "tessel 0.3.0"
  | .help => helpLines.forM fun line => host.printLine line

end

/-- How a run ends. -/
inductive Outcome
  | success
  /-- The arguments make no sense. -/
  | usage
  | failure (error : CommandError)
deriving DecidableEq

/-- The exit code of an outcome. -/
def Outcome.code : Outcome → UInt8
  | success => 0
  | failure _ => 1
  | usage => 2

/-- A whole run on the given arguments. -/
def runProgram {m : Type → Type} [Monad m] (host : Host m) (arguments : List String) : m Outcome :=
  match Invocation.parse? arguments with
  | none => return .usage
  | some invocation => do
    match ← (run host invocation).run with
    | .ok () => return .success
    | .error e => return .failure e

end CircuitFrames
