import SpineCodex.Spine.Artifacts
import SpineCodex.Spine.Runtime

/-!
# Canonical replay

Replay rebuilds the state of a runtime from the durable log of its source, its sampling
records and its compactions.
-/

namespace SpineCodex

inductive ReplayInput where
  | source (character : SpineChar)
  | archive (record : SamplingArchiveRecord)
  | compact (barrier : SpineCompactBarrierV1)
  | usage (sample : TokenUsageSample)
  deriving DecidableEq

inductive ReplayError where
  | archive (error : ArchiveError)
  | source (error : SourceLedgerError)
  | parse (error : CharParseError)
  | compile (error : SpineError)
  | transition (error : TypedTransitionError)
  | contextPlan (error : ContextPlanError)
  | planner (error : PlannerError)
  | commitWithoutStarted
  | samplingStartedMismatch
  | identityScopeMismatch
  | invalidCommitChain
  | invalidPreBoundaryChain
  | postBoundaryIsNotSourceTail
  | factSourceMissing
  | memorySlotMismatch
  | invalidCompactBarrier (error : CompactBarrierError)
  deriving DecidableEq

structure ReplayState where
  source : SourceLedger
  parser : SpineCharParser
  compiler : SpineCompiler
  committedSourceCells : ℕ
  previousPreBoundary : Option BoundaryId
  previousCommitId : Option SamplingCommitId
  started : List (SamplingAttemptId × SamplingStarted)
  commits : Finset SamplingCommitId
  attemptIds : Finset SamplingAttemptId
  appliedCommits : List SamplingCommitId
  usageSamples : List TokenUsageSample
  inputPressure : InputPressureState
  nextProjectionOrdinal : ℕ
  deriving DecidableEq

/-- `PreparedReplay`, without the tree snapshot, which is computed for display only. -/
structure PreparedReplay where
  projection : SpineProjection
  liveContext : List ContextItem
  livePlan : ContextPlanRecipe
  memorySlots : List MemorySlot
  usageSamples : List TokenUsageSample
  appliedCommits : List SamplingCommitId
  finalEpoch : ContextEpoch
  candidate : SamplingRuntime
  deriving DecidableEq

/-- `CanonicalReplay`. -/
structure CanonicalReplay where
  thread : ThreadNamespace
  runtimeConfig : SpineConfig
  deriving DecidableEq

/-- `map_sampling_delta_error` of the replay, with its `map_compile_error`. -/
def replayDeltaError : SamplingDeltaError → ReplayError
  | .parse error => .parse error
  | .compile (.spine error) => .compile error
  | .compile (.transition error) => .transition error
  | .missingSourceBoundary _ | .factHasNoSourceGroup _ | .factSourceExecutionMismatch =>
      .factSourceMissing

namespace ReplayState

def initial (thread : ThreadNamespace) : ReplayState where
  source := .new thread 0
  parser := .default
  compiler := .new
  committedSourceCells := 0
  previousPreBoundary := none
  previousCommitId := none
  started := []
  commits := ∅
  attemptIds := ∅
  appliedCommits := []
  usageSamples := []
  inputPressure := .default
  nextProjectionOrdinal := 0

/-- The first record of a forked or resumed thread moves the source to its namespace. -/
def followNamespace (s : ReplayState) (record : SamplingStarted) :
    Outcome ReplayError ReplayState :=
  if record.attemptId.thread = s.source.thread then .ok s
  else do
    .require (record.previousCommitId = s.previousCommitId) .invalidCommitChain
    let source ← (s.source.continueInNamespace record.attemptId.thread
      s.committedSourceCells).mapErr .source
    pure { s with started := [], source := source, previousPreBoundary := none }

/-- The branch of `apply_archive` for a started record. -/
def applyStarted (s : ReplayState) (record : SamplingStarted) :
    Outcome ReplayError ReplayState := do
  let s ← { s with attemptIds := insert record.attemptId s.attemptIds }.followNamespace record
  .require (record.epoch = s.source.epoch ∧ record.previousCommitId = s.previousCommitId ∧
    record.preBoundary = s.source.currentBoundary) .samplingStartedMismatch
  if (s.started.lookup record.attemptId).isSome then pure s
  else pure { s with started := (record.attemptId, record) :: s.started }

/-- The usage sample that a commit leaves, if its tokens fit in a signed integer. -/
def commitUsage (record : SamplingCommit) : List TokenUsageSample :=
  match record.inputTokens with
  | some tokens =>
      if tokens < 2 ^ 63 then [⟨record.postBoundary.ordinal + 1, tokens⟩] else []
  | none => []

/-- The bindings that a commit recorded for its facts. -/
def commitBindings (record : SamplingCommit) : List FactSourceBinding :=
  record.executions.map fun execution ↦
    ⟨execution.executionId, execution.sourceSpan.start, execution.sourceSpan.stop⟩

/-- The checks of `apply_commit` on the place of a commit in the log. -/
def requireCommitScope (s : ReplayState) (record : SamplingCommit) : Outcome ReplayError Unit := do
  .require (record.attemptId.thread = s.source.thread) .identityScopeMismatch
  .require (record.epoch = s.source.epoch) .identityScopeMismatch
  let started ← .okOr .commitWithoutStarted (s.started.lookup record.attemptId)
  .require (started.epoch = record.epoch ∧ started.preBoundary = record.preBoundary ∧
    started.previousCommitId = record.previousCommitId) .samplingStartedMismatch
  .require (record.previousCommitId = s.previousCommitId) .invalidCommitChain
  .require (record.previousPreBoundary = s.previousPreBoundary) .invalidPreBoundaryChain
  .require (s.source.snapshot.lastBoundary = some record.postBoundary) .postBoundaryIsNotSourceTail

/-- `apply_commit`; a commit seen before is ignored. -/
def applyCommit (s : ReplayState) (record : SamplingCommit) : Outcome ReplayError ReplayState :=
  if record.commitId ∈ s.commits then .ok s
  else do
    s.requireCommitScope record
    let facts := record.executions.map CommittedSpineExecution.fact
    let (pressure, openInputTokens) := samplingPressure s.inputPressure record.inputTokens facts
    let ((parser, compiler), _) ← (reduceSamplingDelta {
        snapshot := s.source.snapshot
        committedSourceCells := s.committedSourceCells
        preBoundary := record.preBoundary.ordinal
        postBoundary := record.postBoundary.ordinal
        facts := facts
        openInputTokens := openInputTokens
        bindingMode := .verify (commitBindings record) } (s.parser, s.compiler)).mapErr
          replayDeltaError
    pure { s with
      parser := parser
      compiler := compiler
      committedSourceCells := s.source.cells.length
      previousPreBoundary := some record.preBoundary
      previousCommitId := some record.commitId
      started := []
      commits := insert record.commitId s.commits
      appliedCommits := s.appliedCommits ++ [record.commitId]
      usageSamples := s.usageSamples ++ commitUsage record
      inputPressure := pressure }

def applyArchive (s : ReplayState) (record : SamplingArchiveRecord) :
    Outcome ReplayError ReplayState := do
  record.validate.mapErr .archive
  match record with
  | .samplingStarted record => s.applyStarted record
  | .samplingCommit record => s.applyCommit record

def applyCompact (s : ReplayState) (barrier : SpineCompactBarrierV1) :
    Outcome ReplayError ReplayState := do
  barrier.validate.mapErr .invalidCompactBarrier
  .require (SamplingPlanner.BarrierInScope s.source barrier) .identityScopeMismatch
  let (parser, compiler) ← (reduceCompactDelta s.source.snapshot s.committedSourceCells barrier
    (s.parser, s.compiler)).mapErr replayDeltaError
  let source ← (SamplingPlanner.nextLedger s.source barrier).mapErr .source
  pure { s with
    source := source
    parser := parser
    compiler := compiler
    committedSourceCells := source.cells.length
    previousPreBoundary := none
    started := []
    inputPressure := s.inputPressure.compact
    nextProjectionOrdinal := 0 }

/-- The source characters that were read since the last record enter the ledger. -/
def flushSource (s : ReplayState) (characters : List SpineChar) :
    Outcome ReplayError ReplayState := do
  let source ← (s.source.appendAll characters).mapErr .source
  pure { s with source := source }

/-- `CanonicalReplayBuilder::apply`, with the source characters that wait for the next record. -/
def applyInputs (s : ReplayState) (pendingSource : List SpineChar) :
    List ReplayInput → Outcome ReplayError ReplayState
  | [] => s.flushSource pendingSource
  | .source character :: rest => applyInputs s (pendingSource ++ [character]) rest
  | .archive record :: rest => do
      let s ← s.flushSource pendingSource
      let s ← s.applyArchive record
      applyInputs s [] rest
  | .compact barrier :: rest => do
      let s ← s.flushSource pendingSource
      let s ← s.applyCompact barrier
      applyInputs s [] rest
  | .usage sample :: rest => do
      let s ← s.flushSource pendingSource
      applyInputs { s with usageSamples := s.usageSamples ++ [sample] } [] rest

/-- The identities of a set in a namespace. -/
def countInThread (ids : Finset NamespacedId) (thread : ThreadNamespace) : ℕ :=
  (ids.filter (·.thread = thread)).card

/-- The planner of the recovered runtime: its committed plan shows the committed projection. -/
def recoverPlanner (s : ReplayState) (config : SpineConfig) :
    Outcome ReplayError (SamplingPlanner × ContextPlanRecipe) := do
  let (plan, _) ← (buildContextPlan s.source.snapshot s.compiler.projection
    s.parser.pendingBoundaries none s.nextProjectionOrdinal).mapErr .planner
  pure (.fromReplayState s.source s.parser s.compiler s.committedSourceCells s.previousPreBoundary
    s.previousCommitId plan s.inputPressure config, plan)

/-- The plan that the resumed thread sends: a preview when source waits for a sampling. -/
def livePlan (s : ReplayState) (planner : SamplingPlanner) (committedPlan : ContextPlanRecipe) :
    Outcome ReplayError ContextPlanRecipe :=
  if s.committedSourceCells ≠ s.source.cells.length then
    planner.previewContextPlan.mapErr .planner
  else .ok committedPlan

def finish (s : ReplayState) (config : SpineConfig) : Outcome ReplayError PreparedReplay := do
  let (planner, committedPlan) ← s.recoverPlanner config
  let plan ← s.livePlan planner committedPlan
  let resolved ← (plan.resolve s.source.snapshot).mapErr .contextPlan
  .require (projectionMemorySlots s.compiler.projection = resolved.memorySlots) .memorySlotMismatch
  let thread := s.source.thread
  pure {
    projection := s.compiler.projection
    liveContext := resolved.cells.map (·.item)
    livePlan := plan
    memorySlots := resolved.memorySlots
    usageSamples := s.usageSamples
    appliedCommits := s.appliedCommits
    finalEpoch := s.source.epoch
    candidate := .fromReplay planner (countInThread s.attemptIds thread)
      (countInThread s.commits thread) }

end ReplayState

namespace CanonicalReplay

/-- `CanonicalReplay::new`: the default configuration has both features. -/
def new (thread : ThreadNamespace) : CanonicalReplay := ⟨thread, ⟨true, true, fun h ↦ h⟩⟩

/-- `with_runtime_config`. -/
def withRuntimeConfig (r : CanonicalReplay) (config : SpineConfig) : CanonicalReplay :=
  { r with runtimeConfig := config }

/-- `prepare`. -/
def prepare (r : CanonicalReplay) (input : List ReplayInput) :
    Outcome ReplayError PreparedReplay := do
  let s ← (ReplayState.initial r.thread).applyInputs [] input
  s.finish r.runtimeConfig

end CanonicalReplay

end SpineCodex
