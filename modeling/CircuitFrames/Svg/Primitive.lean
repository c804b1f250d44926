import CircuitFrames.Numeral.Plain

/-!
# Drawing primitives

A drawing is a list of primitives, each of which is written as one SVG element.
-/

namespace CircuitFrames.Svg

/-! ## Escaping markup -/

/-- Text content: the characters that open markup or entities, and the closing angle, are written as
entities. -/
def textEntity (c : Char) : List Char :=
  if c = '&' then "&amp;".toList
  else if c = '<' then "&lt;".toList
  else if c = '>' then "&gt;".toList
  else [c]

/-- Attribute values: the double quote ends a value, so it is written as an entity too. -/
def attributeEntity (c : Char) : List Char :=
  if c = '&' then "&amp;".toList
  else if c = '"' then "&quot;".toList
  else if c = '<' then "&lt;".toList
  else [c]

/-- The text with the special characters of text content escaped. -/
def escapeText (text : String) : String :=
  .ofList (text.toList.flatMap textEntity)

/-- The text with the special characters of attribute values escaped. -/
def escapeAttribute (text : String) : String :=
  .ofList (text.toList.flatMap attributeEntity)

/-! ## Primitives -/

/-- Which end of a text stands at its position. -/
inductive Anchor
  | start
  | middle
  | finish
deriving DecidableEq, Repr

/-- The value of the anchor attribute. -/
def Anchor.text : Anchor → String
  | start => "start"
  | middle => "middle"
  | finish => "end"

/-- Which height of a text stands at its position. -/
inductive Baseline
  | auto
  | middle
  | central
  | hanging
deriving DecidableEq, Repr

/-- The value of the baseline attribute. -/
def Baseline.text : Baseline → String
  | auto => "auto"
  | middle => "middle"
  | central => "central"
  | hanging => "hanging"

/-- An element of a drawing. -/
inductive Primitive
  /-- A rectangle with a black outline and its top left corner at `(x, y)`. -/
  | rect (x y width height : Float) (fill : String)
  /-- A circle, with an outline if `stroke` gives it a colour. -/
  | circle (cx cy r : Float) (fill : String) (stroke : Option String)
  /-- A line, as thin as can be if it has no width. -/
  | line (x1 y1 x2 y2 : Float) (stroke : String) (width : Option Float)
  /-- A text. -/
  | text (x y : Float) (content fill : String) (fontSize : Nat) (anchor : Anchor)
      (baseline : Baseline)
deriving DecidableEq

namespace Primitive

/-- A square with a black outline and its top left corner at `(x, y)`. -/
def square (x y size : Float) (fill : String) : Primitive :=
  .rect x y size size fill

/-- A circle without an outline. -/
def disc (cx cy r : Float) (fill : String) : Primitive :=
  .circle cx cy r fill none

/-- A thin black line. -/
def thinLine (x1 y1 x2 y2 : Float) : Primitive :=
  .line x1 y1 x2 y2 "black" none

/-- A line of some colour and width. -/
def thickLine (x1 y1 x2 y2 : Float) (stroke : String) (width : Float) : Primitive :=
  .line x1 y1 x2 y2 stroke (some width)

/-- A text centred on its position. -/
def label (x y : Float) (content fill : String) (fontSize : Nat) : Primitive :=
  .text x y content fill fontSize .middle .central

/-- A circle with a black outline; other primitives stay as they are. -/
def outlined : Primitive → Primitive
  | .circle cx cy r fill _ => .circle cx cy r fill (some "black")
  | p => p

/-- A text with another alignment; other primitives stay as they are. -/
def aligned (anchor : Anchor) (baseline : Baseline) : Primitive → Primitive
  | .text x y content fill size _ _ => .text x y content fill size anchor baseline
  | p => p

/-- The content of a text. -/
def content? : Primitive → Option String
  | .text _ _ content _ _ _ _ => some content
  | _ => none

/-- An attribute with its value in quotes, and a space before it. -/
def attr (name value : String) : String :=
  " " ++ name ++ "=\"" ++ value ++ "\""

/-- The attribute of a number. -/
def numeric (name : String) (value : Float) : String :=
  attr name (Numeral.plain value)

/-- The SVG element. -/
def element : Primitive → String
  | .rect x y width height fill =>
    "<rect" ++ numeric "x" x ++ numeric "y" y ++ numeric "width" width ++ numeric "height" height
      ++ attr "fill" fill ++ attr "stroke" "black" ++ "/>"
  | .circle cx cy r fill stroke =>
    "<circle" ++ numeric "cx" cx ++ numeric "cy" cy ++ numeric "r" r ++ attr "fill" fill
      ++ (stroke.map (attr "stroke")).getD "" ++ "/>"
  | .line x1 y1 x2 y2 stroke width =>
    "<line" ++ numeric "x1" x1 ++ numeric "y1" y1 ++ numeric "x2" x2 ++ numeric "y2" y2
      ++ attr "stroke" stroke ++ (width.map (numeric "stroke-width")).getD "" ++ "/>"
  | .text x y content fill size anchor baseline =>
    "<text" ++ numeric "x" x ++ numeric "y" y ++ attr "fill" fill
      ++ attr "font-size" (toString size) ++ attr "text-anchor" anchor.text
      ++ attr "dominant-baseline" baseline.text ++ ">" ++ escapeText content ++ "</text>"

end Primitive

end CircuitFrames.Svg
