import CircuitFrames.Circuit.Gate
import CircuitFrames.Circuit.Target
import Std.Data.ExtTreeSet

/-!
# Marks, notes and events

Marks are the large glyphs laid over a layer, notes the small codes beside a qubit where noise is
declared. Both name their layer by its place in the run, and are drawn after the walk. Events are what
a rendering reports besides its result: everything it left out, and a summary at the end.
-/

namespace CircuitFrames

/-- What a mark stands for. -/
inductive MarkKind
  /-- A Pauli flip of a fault mechanism. -/
  | flip (basis : Pauli)
  /-- A gate that a measurement result controls. -/
  | correction
deriving DecidableEq, Repr

namespace MarkKind

/-- The glyph of a mark. -/
def glyph : MarkKind → Char
  | flip basis => basis.letter
  | correction => 'C'

/-- The colour of a mark. -/
def color : MarkKind → String
  | flip _ => "red"
  | correction => "yellow"

end MarkKind

/-- A large glyph over a qubit on one layer. -/
structure Mark where
  qubit : Qubit
  layer : Nat
  kind : MarkKind
deriving DecidableEq, Repr

/-- A place of declared noise. -/
structure Note where
  qubit : Qubit
  layer : Nat
  channel : NoiseChannel
deriving DecidableEq, Repr

namespace Note

/-- The place of a short code in alphabetical order. -/
def codeRank : NoiseChannel → Nat
  | .depolarize1 => 0
  | .depolarize2 => 1
  | .correlatedError | .elseCorrelatedError => 2
  | .xError => 3
  | .yError => 4
  | .zError => 5

/-- Notes are ordered by qubit, layer and code; notes that agree in all three are one. -/
def order : Note → Note → Ordering :=
  compareLex (compareOn (·.qubit))
    (compareLex (compareOn (·.layer)) (compareOn (codeRank ·.channel)))

instance : Std.TransCmp order :=
  inferInstanceAs (Std.TransCmp (compareLex _ (compareLex _ _)))

end Note

/-- The notes of a run, each once. -/
abbrev NoteSet := Std.ExtTreeSet Note Note.order

/-! ## Events -/

/-- Something worth reporting. -/
inductive Event
  /-- A lookback reaches before the first measurement, so nothing is marked for it. -/
  | danglingLookback (operation : String) (offset : Int) (recorded : Nat)
  /-- A mark falls on a layer that is not shown. -/
  | markOnDiscardedLayer (mark : Mark)
  /-- A note falls on a layer that is not shown. -/
  | noteOnDiscardedLayer (note : Note)
  /-- The search for a fault mechanism failed. -/
  | searchFailed (message : String)
  /-- An error of a fault mechanism has no place in the circuit. -/
  | unplacedError
  /-- The rendering is complete. -/
  | rendered (layers measurements detectors : Nat)
deriving DecidableEq

namespace Event

/-- The line that reports an event: its level, a message, and the details. -/
def text : Event → String
  | danglingLookback operation offset recorded =>
    "WARN measurement lookback reaches before the first measurement; skipping mark operation="
      ++ operation ++ " offset=" ++ toString offset ++ " recorded=" ++ toString recorded
  | markOnDiscardedLayer mark =>
    "WARN error mark falls on a discarded layer; skipping qubit=" ++ toString mark.qubit.toNat
      ++ " layer=" ++ toString mark.layer ++ " glyph=" ++ mark.kind.glyph.toString
  | noteOnDiscardedLayer note =>
    "WARN noise note falls on a discarded layer; skipping qubit=" ++ toString note.qubit.toNat
      ++ " layer=" ++ toString note.layer ++ " code=" ++ note.channel.code
  | searchFailed message =>
    "WARN fault search failed; rendering without error overlay error=" ++ message
  | unplacedError => "WARN fault mechanism error has no circuit location; not drawn"
  | rendered layers measurements detectors =>
    "INFO rendered circuit layers=" ++ toString layers ++ " measurements="
      ++ toString measurements ++ " detectors=" ++ toString detectors

end Event

end CircuitFrames
