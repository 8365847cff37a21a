import SpineCodex.Spine.Model

/-!
# The character parser

The parser turns source characters into rollout events.  It holds back the
assistant messages at the end of the source until another character, the end of a
sampling or the end of the epoch shows that they are complete.
-/

namespace SpineCodex

/-- `SpineChar`; `opaqueItem` is the source's `Opaque`. -/
inductive SpineChar where
  | message (message : Message)
  | opaqueItem (boundary : RawBoundary)
  | synthetic (boundary : RawBoundary) (item : ContextItem)
  deriving Repr, DecidableEq

def SpineChar.boundary : SpineChar → RawBoundary
  | .message m => m.boundary
  | .opaqueItem boundary | .synthetic boundary _ => boundary

inductive ContextLabel where
  | userAnchor (anchor : ℕ)
  deriving Repr, DecidableEq

structure ParseCell where
  id : ℕ
  character : SpineChar
  labels : List ContextLabel
  deriving Repr, DecidableEq

/-- `with_labels`. -/
def ParseCell.withLabels (cell : ParseCell) (labels : List ContextLabel) : ParseCell :=
  { cell with labels := labels }

inductive CharParseError where
  | nonMonotonicBoundary (previous next : RawBoundary)
  deriving Repr, DecidableEq

/-- `SpineCharParser`. -/
structure SpineCharParser where
  stack : List ParseCell
  trailingAssistant : List Message
  lastBoundary : Option RawBoundary
  nextCellId : ℕ
  deriving Repr, DecidableEq

/-- The last boundary, when `next` is before it. -/
def precedes (next : RawBoundary) (last : Option RawBoundary) : Option RawBoundary :=
  last.filter (next < ·)

namespace SpineCharParser

def default : SpineCharParser where
  stack := []
  trailingAssistant := []
  lastBoundary := none
  nextCellId := 0

/-- The check that `eat` and `finish_epoch` make first. -/
def requireMonotonic (p : SpineCharParser) (next : RawBoundary) : Outcome CharParseError Unit :=
  match precedes next p.lastBoundary with
  | some previous => .err (.nonMonotonicBoundary previous next)
  | none => .ok ()

def pushCell (p : SpineCharParser) (character : SpineChar) : SpineCharParser :=
  { p with stack := p.stack ++ [⟨p.nextCellId, character, []⟩], nextCellId := p.nextCellId + 1 }

/-- `flush_trailing_assistant`: the emptied parser and the events it releases. -/
def flushTrailingAssistant (p : SpineCharParser) : SpineCharParser × List RolloutEvent :=
  ({ p with trailingAssistant := [] }, p.trailingAssistant.map .message)

/-- `apply`, after the boundary check. -/
def applyChar (p : SpineCharParser) (character : SpineChar) :
    SpineCharParser × List RolloutEvent :=
  let pushed := { p with lastBoundary := some character.boundary }.pushCell character
  match character with
  | .message m =>
      if m.role = .assistant then
        ({ pushed with trailingAssistant := pushed.trailingAssistant ++ [m] }, [])
      else
        let (flushed, events) := pushed.flushTrailingAssistant
        (flushed, events ++ [.message m])
  | .opaqueItem boundary =>
      let (flushed, events) := pushed.flushTrailingAssistant
      (flushed, events ++ [.opaqueItem boundary])
  | .synthetic boundary item =>
      let (flushed, events) := pushed.flushTrailingAssistant
      (flushed, events ++ [.synthetic boundary item])

def eat (p : SpineCharParser) (character : SpineChar) :
    Outcome CharParseError (SpineCharParser × List RolloutEvent) := do
  p.requireMonotonic character.boundary
  pure (p.applyChar character)

def pendingBoundaries (p : SpineCharParser) : List RawBoundary :=
  p.trailingAssistant.map (·.boundary)

/-- `finish_sampling`; the boundary argument is not used. -/
def finishSampling (p : SpineCharParser) : SpineCharParser × List RolloutEvent :=
  p.flushTrailingAssistant

def finishEpoch (p : SpineCharParser) (boundary : RawBoundary) :
    Outcome CharParseError (SpineCharParser × List RolloutEvent) := do
  p.requireMonotonic boundary
  let (flushed, events) := p.flushTrailingAssistant
  pure ({ flushed with lastBoundary := some boundary }, events)

end SpineCharParser

end SpineCodex
