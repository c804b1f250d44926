import CircuitFrames.Config.Basic
import CircuitFrames.Diagram.Frame
import CircuitFrames.Diagram.Overlay
import CircuitFrames.Text.Printer

/-!
# Rendering

`render` turns a circuit into a diagram, a frame for every layer, with the overlay of a fault
mechanism. It also hands back what there is to report.
-/

namespace CircuitFrames

/-- Why a circuit cannot be rendered. -/
inductive RenderError
  /-- The settings do not make sense. -/
  | config (error : ConfigError)
  /-- The circuit cannot be drawn. -/
  | walk (error : WalkError)
deriving DecidableEq

/-- The wording of a walk error. -/
def WalkError.message : WalkError → String
  | unsupported name => "Unsupported operation: " ++ name
  | circuit error => "Malformed circuit: " ++ error.message

/-- The wording of a render error. -/
def RenderError.message : RenderError → String
  | config error => error.message
  | walk error => error.message

/-- A rendered circuit. -/
structure Diagram where
  frames : List Frame
  /-- The link to the circuit editor, unless the settings leave it out. -/
  editorLink : Option String
deriving DecidableEq

/-- A diagram and what there is to report about it. -/
structure Rendering where
  diagram : Diagram
  events : List Event
deriving DecidableEq

/-- How the detectors of a circuit are labelled under the settings and an overlay. -/
def DetectorStyle.of (config : Config) (overlay : Overlay) (c : Circuit) : DetectorStyle where
  highlighted := overlay.highlighted.contains
  coordinates := if config.labelDetectorCoordinates then .ofList c.detectorCoordinates else ∅

/-- Renders a circuit with the overlay of the given fault mechanism, else of the one that the search
finds. -/
def render (config : Config) (c : Circuit) (known : Option FaultMechanism)
    (search : Option FaultSearch) : Except RenderError Rendering :=
  match config.validate with
  | .error e => .error (.config e)
  | .ok config =>
    let (overlay, found) := Overlay.resolve c known search
    match Walk.of (.of config overlay c) c with
    | .error e => .error (.walk e)
    | .ok w =>
      let (frames, left) := Frame.ofWalk w overlay.flips
      .ok {
        diagram := ⟨frames, config.editorUrl.map (editorLink c)⟩
        events := found ++ w.events.toList ++ left
          ++ [.rendered frames.length w.timeline.length w.nextDetector] }

end CircuitFrames
