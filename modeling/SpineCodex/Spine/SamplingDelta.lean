import SpineCodex.Spine.Archive
import SpineCodex.Spine.CompactBarrier
import SpineCodex.Spine.SourceLedger

/-!
# The transition kernel

The source that arrived since the last commit runs through the parser and the compiler:
when a sampling ends, when an epoch ends, and tentatively for a preview.  Live sampling and
replay share this kernel.
-/

namespace SpineCodex

inductive SamplingDeltaError where
  | parse (error : CharParseError)
  | compile (error : SamplingCompileError)
  | missingSourceBoundary (boundary : RawBoundary)
  | factHasNoSourceGroup (execution : ExecutionId)
  | factSourceExecutionMismatch
  deriving DecidableEq

inductive FactBindingMode where
  | derive
  | verify (bindings : List FactSourceBinding)
  deriving DecidableEq

structure SamplingDelta where
  snapshot : SourceSnapshot
  committedSourceCells : ℕ
  preBoundary : RawBoundary
  postBoundary : RawBoundary
  facts : List ExecutedSpineFact
  openInputTokens : Option ℕ
  bindingMode : FactBindingMode
  deriving DecidableEq

/-- The parser and the compiler that a delta runs through. -/
abbrev KernelState := SpineCharParser × SpineCompiler

/-- The cells behind the committed ones; slicing beyond the end panics. -/
def sourceTail (snapshot : SourceSnapshot) (committed : ℕ) :
    Outcome SamplingDeltaError (List SourceCell) :=
  if committed ≤ snapshot.cells.length then .ok (snapshot.cells.drop committed) else .crash

def eatEvents (compiler : SpineCompiler) (events : List RolloutEvent) :
    Outcome SamplingDeltaError SpineCompiler :=
  (events.foldlM SpineCompiler.eatSource compiler).mapErr .compile

/-- One cell of ordinary source. -/
def eatCell (s : KernelState) (cell : SourceCell) : Outcome SamplingDeltaError KernelState := do
  let (parser, events) ← (s.1.eat cell.character).mapErr .parse
  let compiler ← eatEvents s.2 events
  pure (parser, compiler)

/-- One cell of a sampling's own source: only the bytes of its events count. -/
def measureCell (s : SpineCharParser × ℕ) (cell : SourceCell) :
    Outcome SamplingDeltaError (SpineCharParser × ℕ) := do
  let (parser, events) ← (s.1.eat cell.character).mapErr .parse
  pure (parser, s.2 + (events.map RolloutEvent.retainedBytes).sum)

def previewSourceDelta (snapshot : SourceSnapshot) (committed : ℕ) (s : KernelState) :
    Outcome SamplingDeltaError KernelState := do
  let tail ← sourceTail snapshot committed
  tail.foldlM eatCell s

/-- The check that verified bindings name the facts in order. -/
def requireBindings (facts : List ExecutedSpineFact) : FactBindingMode →
    Outcome SamplingDeltaError Unit
  | .derive => .ok ()
  | .verify bindings =>
      .require (bindings.map (·.executionId) = facts.map (·.executionId)) .factSourceExecutionMismatch

/-- The check that verified bindings name the source block of the sampling. -/
def requireSourceBlock (start stop : SourceCellId) : FactBindingMode →
    Outcome SamplingDeltaError Unit
  | .derive => .ok ()
  | .verify bindings =>
      .require (∀ binding ∈ bindings, binding.start = start ∧ binding.stop = stop)
        .factSourceExecutionMismatch

/-- The source up to the start of the sampling, with the assistant messages that end it. -/
def reduceOrdinary (cells : List SourceCell) (s : KernelState) :
    Outcome SamplingDeltaError KernelState := do
  let (parser, compiler) ← cells.foldlM eatCell s
  let (parser, events) := parser.finishSampling
  let compiler ← eatEvents compiler events
  pure (parser, compiler)

/-- The source of the sampling itself: the parser after it and the bytes of its events. -/
def measureSampling (cells : List SourceCell) (parser : SpineCharParser) :
    Outcome SamplingDeltaError (SpineCharParser × ℕ) := do
  let (parser, bytes) ← cells.foldlM measureCell (parser, 0)
  let (parser, events) := parser.finishSampling
  pure (parser, bytes + (events.map RolloutEvent.retainedBytes).sum)

/-- The facts of a sampling, bound to its complete source block. -/
def reduceFacts (delta : SamplingDelta) (sampling : List SourceCell) (bytes : ℕ)
    (compiler : SpineCompiler) :
    Outcome SamplingDeltaError (SpineCompiler × List FactSourceBinding) :=
  match sampling with
  | [] =>
      match delta.facts with
      | [] => .ok (compiler, [])
      | fact :: _ => .err (.factHasNoSourceGroup fact.executionId)
  | first :: _ => do
      let last ← .okOr (.missingSourceBoundary delta.postBoundary)
        (delta.snapshot.sourceAtRawBoundary delta.postBoundary)
      requireSourceBlock first.id last.id delta.bindingMode
      let compiler ← (compiler.eatSampling ⟨first.boundary.ordinal, delta.postBoundary⟩ bytes
        delta.facts delta.openInputTokens).mapErr .compile
      pure (compiler, delta.facts.map fun fact ↦ ⟨fact.executionId, first.id, last.id⟩)

/-- `reduce_sampling_delta`.  The cells are ordered by boundary, so that the partition point is
the length of the leading run. -/
def reduceSamplingDelta (delta : SamplingDelta) (s : KernelState) :
    Outcome SamplingDeltaError (KernelState × List FactSourceBinding) := do
  requireBindings delta.facts delta.bindingMode
  let tail ← sourceTail delta.snapshot delta.committedSourceCells
  let ordinary := tail.takeWhile (·.boundary.ordinal ≤ delta.preBoundary)
  let sampling := tail.dropWhile (·.boundary.ordinal ≤ delta.preBoundary)
  let (parser, compiler) ← reduceOrdinary ordinary s
  let (parser, bytes) ← measureSampling sampling parser
  let (compiler, bindings) ← reduceFacts delta sampling bytes compiler
  pure ((parser, compiler), bindings)

/-- The source tail at the end of an epoch is one sampling without source of its own. -/
def reduceTail (snapshot : SourceSnapshot) (committed : ℕ) (barrier : SpineCompactBarrierV1)
    (s : KernelState) : Outcome SamplingDeltaError KernelState :=
  if committed = snapshot.cells.length then .ok s
  else do
    let postBoundary := (snapshot.lastBoundary.map (·.ordinal)).getD barrier.boundary
    let (s, _) ← reduceSamplingDelta
      ⟨snapshot, committed, postBoundary, postBoundary, [], none, .derive⟩ s
    pure s

/-- The first cell of a new epoch. -/
def eatReplacement (s : KernelState) (boundary : RawBoundary) :
    Outcome SamplingDeltaError KernelState := do
  let (parser, events) ← (s.1.eat (.opaqueItem boundary)).mapErr .parse
  let compiler ← eatEvents s.2 events
  pure (parser, compiler)

/-- `reduce_compact_delta`. -/
def reduceCompactDelta (snapshot : SourceSnapshot) (committed : ℕ)
    (barrier : SpineCompactBarrierV1) (s : KernelState) :
    Outcome SamplingDeltaError KernelState := do
  let (parser, compiler) ← reduceTail snapshot committed barrier s
  let (_, events) ← (parser.finishEpoch barrier.boundary).mapErr .parse
  let compiler ← eatEvents compiler events
  let compiler ← (compiler.eatSource (.compact barrier.boundary [])).mapErr .compile
  barrier.replacementBoundaries.foldlM eatReplacement (.default, compiler)

end SpineCodex
