import SpineCodex.Spine.Reducer

/-!
# The compiler

The reducer behind the checks on one compiled projection.  A compiler that failed is
dropped by its caller, so that a failure returns no state here.
-/

namespace SpineCodex

def maxRawEventBytes : ℕ := 64 * 1024 * 1024
def maxVisibleContextItems : ℕ := 4096
def maxTreeNodes : ℕ := 4096

/-- The limits that `SpineError::ContextLimit` names. -/
inductive LimitKind where
  | rawEventBytes
  | visibleContextItems
  | treeNodes
  deriving Repr, DecidableEq

/-- The text of a limit in an error. -/
def LimitKind.text : LimitKind → String
  | .rawEventBytes => "raw event bytes"
  | .visibleContextItems => "visible context items"
  | .treeNodes => "tree nodes"

inductive SpineError where
  | nonMonotonicBoundary (previous next : RawBoundary)
  | contextLimit (kind : LimitKind) (max actual : ℕ)
  deriving Repr, DecidableEq

inductive SamplingCompileError where
  | spine (error : SpineError)
  | transition (error : TypedTransitionError)
  deriving Repr, DecidableEq

/-- `SpineCompiler`.  Of the configuration only two flags matter below; they are kept in the
planner. -/
structure SpineCompiler where
  reducer : SpineReducer
  projection : SpineProjection
  deriving DecidableEq

def validateEvent (previous : Option RawBoundary) (boundary : RawBoundary) (retainedBytes : ℕ) :
    Outcome SpineError Unit := do
  .require (retainedBytes ≤ maxRawEventBytes)
    (.contextLimit .rawEventBytes maxRawEventBytes retainedBytes)
  match previous.filter (boundary < ·) with
  | some previous => .err (.nonMonotonicBoundary previous boundary)
  | none => .ok ()

def validateProjection (projection : SpineProjection) : Outcome SpineError Unit := do
  .require (projection.visibleContext.length ≤ maxVisibleContextItems)
    (.contextLimit .visibleContextItems maxVisibleContextItems projection.visibleContext.length)
  .require (projection.nodes.length ≤ maxTreeNodes)
    (.contextLimit .treeNodes maxTreeNodes projection.nodes.length)

namespace SpineCompiler

/-- `new`; the projection of a new reducer exists. -/
def new : SpineCompiler where
  reducer := .new
  projection := ⟨SpineReducer.new.nodes.map (·.snapshot), SpineReducer.new.cursor, [], none⟩

def eat (c : SpineCompiler) (event : RolloutEvent) : Outcome SpineError SpineCompiler := do
  validateEvent c.projection.lastBoundary event.boundary event.retainedBytes
  let (reducer, projection) ← .expect (c.reducer.apply event)
  validateProjection projection
  pure ⟨reducer, projection⟩

def eatSource (c : SpineCompiler) (event : RolloutEvent) :
    Outcome SamplingCompileError SpineCompiler :=
  (c.eat event).mapErr .spine

def eatSampling (c : SpineCompiler) (span : RawSpan) (retainedBytes : ℕ)
    (facts : List ExecutedSpineFact) (openInputTokens : Option ℕ) :
    Outcome SamplingCompileError SpineCompiler := do
  (validateEvent c.projection.lastBoundary span.stop retainedBytes).mapErr .spine
  let (reducer, projection) ← (c.reducer.applySampling span facts openInputTokens).mapErr .transition
  (validateProjection projection).mapErr .spine
  pure ⟨reducer, projection⟩

end SpineCompiler

end SpineCodex
