import SpineCodex.Spine.ContextBuilder
import SpineCodex.Spine.Pressure

/-!
# The sampling planner

The planner owns the source ledger and the committed parser, compiler and pressure.  A
sampling is prepared on copies of them and takes effect when it is installed.
-/

namespace SpineCodex

/-- The two features of a configuration that passed `validate`. -/
structure SpineConfig where
  jit : Bool
  spawn : Bool
  spawn_jit : spawn = true → jit = true
  deriving DecidableEq

/-- `SealedSampling`. -/
structure SealedSampling where
  attempt : SamplingAttempt
  facts : List ExecutedSpineFact
  deriving DecidableEq

structure SamplingPlanner where
  source : SourceLedger
  parser : SpineCharParser
  compiler : SpineCompiler
  committedSourceCells : ℕ
  previousPreBoundary : Option BoundaryId
  previousCommitId : Option SamplingCommitId
  committedPlan : Option ContextPlanRecipe
  inputPressure : InputPressureState
  nextProjectionOrdinal : ℕ
  activeAttempt : Option SamplingAttemptId
  jitEnabled : Bool
  spawnEnabled : Bool
  deriving DecidableEq

structure CandidatePlannerState where
  baseCommitId : Option SamplingCommitId
  baseSourceCells : ℕ
  parser : SpineCharParser
  compiler : SpineCompiler
  committedSourceCells : ℕ
  previousPreBoundary : Option BoundaryId
  previousCommitId : Option SamplingCommitId
  nextProjectionOrdinal : ℕ
  inputPressure : InputPressureState
  deriving DecidableEq

structure PreparedSamplingCommit where
  record : SamplingCommit
  plan : ContextPlanRecipe
  projection : SpineProjection
  candidate : CandidatePlannerState
  deriving DecidableEq

/-- `helpers::map_compile_error`. -/
def mapCompileError : SamplingCompileError → PlannerError
  | .spine error => .compileSpine error
  | .transition .multipleStructuralFacts => .invalidTransition .multipleStructuralFacts
  | .transition (.taskCursorRequired operation) => .invalidTransition (.taskCursorRequired operation)

def mapSamplingDeltaError : SamplingDeltaError → PlannerError
  | .parse error => .parse error
  | .compile error => mapCompileError error
  | .missingSourceBoundary boundary => .missingSourceBoundary boundary
  | .factHasNoSourceGroup execution => .factHasNoSourceGroup execution
  | .factSourceExecutionMismatch => .invalidBoundaryOrder

/-- Whether a sampling with these operations opens a node. -/
def opensNode (facts : List ExecutedSpineFact) : Bool :=
  facts.any fun fact ↦
    match fact.operation with
    | .openNode _ | .nextNode _ _ => true
    | .closeNode _ | .spawn _ _ => false

/-- The pressure after a sampling, and the tokens that a node opened by it starts with. -/
def samplingPressure (pressure : InputPressureState) (inputTokens : Option ℕ)
    (facts : List ExecutedSpineFact) : InputPressureState × Option ℕ :=
  let pressure := pressure.applySampling inputTokens (facts.map (·.operation))
  (pressure, if opensNode facts then pressure.current else none)

namespace SamplingPlanner

def new (thread : ThreadNamespace) (epoch : ContextEpoch) (config : SpineConfig) :
    SamplingPlanner where
  source := .new thread epoch
  parser := .default
  compiler := .new
  committedSourceCells := 0
  previousPreBoundary := none
  previousCommitId := none
  committedPlan := none
  inputPressure := .default
  nextProjectionOrdinal := 0
  activeAttempt := none
  jitEnabled := config.jit
  spawnEnabled := config.spawn

/-- `observe_source`.  Characters before a rejected one stay observed. -/
def observeSource (p : SamplingPlanner) (characters : List SpineChar) :
    SamplingPlanner × Outcome PlannerError (List SourceCellId) :=
  ({ p with source := (p.source.append characters).1 },
    (p.source.append characters).2.mapErr .source)

/-- The kernel state that a preview shows. -/
def previewState (p : SamplingPlanner) : Outcome PlannerError KernelState :=
  if p.committedSourceCells < p.source.cells.length then
    (previewSourceDelta p.source.snapshot p.committedSourceCells (p.parser, p.compiler)).mapErr
      mapSamplingDeltaError
  else .ok (p.parser, p.compiler)

def previewContextPlan (p : SamplingPlanner) : Outcome PlannerError ContextPlanRecipe := do
  let (parser, compiler) ← p.previewState
  let (plan, _) ← buildContextPlan p.source.snapshot compiler.projection parser.pendingBoundaries
    p.committedPlan p.nextProjectionOrdinal
  pure plan

def continueInNamespace (p : SamplingPlanner) (thread : ThreadNamespace) :
    Outcome PlannerError SamplingPlanner := do
  .require (p.activeAttempt = none) .samplingAlreadyActive
  let source ← (p.source.continueInNamespace thread p.committedSourceCells).mapErr .source
  pure { p with source := source, previousPreBoundary := none, nextProjectionOrdinal := 0 }

def beginSampling (p : SamplingPlanner) (attemptId : SamplingAttemptId) :
    Outcome PlannerError (SamplingPlanner × SamplingAttempt) := do
  .require (p.activeAttempt = none) .samplingAlreadyActive
  .require (p.jitEnabled = true) .jitDisabled
  .require (attemptId.thread = p.source.thread) .identityScopeMismatch
  let attempt ← (SamplingAttempt.new attemptId p.source.epoch p.source.currentBoundary).mapErr
    .sampling
  pure ({ p with activeAttempt := some attemptId }, attempt)

def requireActive (p : SamplingPlanner) (attemptId : SamplingAttemptId) :
    Outcome PlannerError Unit :=
  match p.activeAttempt with
  | some active => .require (active = attemptId) .attemptMismatch
  | none => .err .noActiveSampling

def samplingStartedRecord (p : SamplingPlanner) (attempt : SamplingAttempt) :
    Outcome PlannerError SamplingArchiveRecord := do
  p.requireActive attempt.attemptId
  let record : SamplingArchiveRecord := .samplingStarted {
    schema := samplingStartedSchema
    attemptId := attempt.attemptId
    epoch := p.source.epoch
    preBoundary := attempt.preBoundary
    previousCommitId := p.previousCommitId
    promptDigest := none
    sourceDigest := none
    recordDigest := none }
  record.validate.mapErr .archive
  pure record

/-- `abort_sampling` with the sink of the handle. -/
def abortSampling (p : SamplingPlanner) (attempt : SamplingAttempt) (sink : SamplingFactSink) :
    SamplingPlanner × SamplingFactSink × Outcome PlannerError Unit :=
  match p.requireActive attempt.attemptId with
  | .ok () =>
      match sink.abortTransaction with
      | (sink, .ok ()) => ({ p with activeAttempt := none }, sink, .ok ())
      | (sink, .err e) => (p, sink, .err (.sampling e))
      | (sink, .crash) => (p, sink, .crash)
  | .err e => (p, sink, .err e)
  | .crash => (p, sink, .crash)

/-- The checks of `validate_commit_scope` on one fact. -/
def validateFactScope (p : SamplingPlanner) (fact : ExecutedSpineFact) :
    Outcome PlannerError Unit := do
  .require (fact.executionId.thread = p.source.thread) .identityScopeMismatch
  fact.validate.mapErr .invalidFact
  .require (fact.operation.spawnBatch?.isSome → p.spawnEnabled = true) (.featureDisabled .spawn)

def validateCommitScope (p : SamplingPlanner) (sealed : SealedSampling) (postBoundary : BoundaryId)
    (commitId : SamplingCommitId) : Outcome PlannerError Unit := do
  .require (sealed.attempt.epoch = p.source.epoch ∧
    sealed.attempt.attemptId.thread = p.source.thread ∧
    sealed.attempt.preBoundary.thread = p.source.thread ∧
    postBoundary.thread = p.source.thread ∧ postBoundary.epoch = p.source.epoch ∧
    commitId.thread = p.source.thread) .identityScopeMismatch
  .require (sealed.attempt.preBoundary.ordinal ≤ postBoundary.ordinal) .invalidBoundaryOrder
  sealed.facts.forM p.validateFactScope

/-- The kernel run of a commit: the new state, the pressure and the bindings of the facts. -/
def reduceCommit (p : SamplingPlanner) (sealed : SealedSampling) (postBoundary : BoundaryId)
    (inputTokens : Option ℕ) :
    Outcome PlannerError (KernelState × InputPressureState × List FactSourceBinding) := do
  let (pressure, openInputTokens) := samplingPressure p.inputPressure inputTokens sealed.facts
  let (state, bindings) ← (reduceSamplingDelta {
      snapshot := p.source.snapshot
      committedSourceCells := p.committedSourceCells
      preBoundary := sealed.attempt.preBoundary.ordinal
      postBoundary := postBoundary.ordinal
      facts := sealed.facts
      openInputTokens := openInputTokens
      bindingMode := .derive } (p.parser, p.compiler)).mapErr mapSamplingDeltaError
  pure (state, pressure, bindings)

/-- A fact with the source block that it is bound to. -/
def committedExecution (fact : ExecutedSpineFact) (binding : FactSourceBinding) :
    CommittedSpineExecution :=
  ⟨fact.executionId, fact.ordinal, fact.origin, ⟨binding.start, binding.stop⟩, fact.operation⟩

def commitRecord (p : SamplingPlanner) (sealed : SealedSampling) (postBoundary : BoundaryId)
    (commitId : SamplingCommitId) (inputTokens : Option ℕ) (bindings : List FactSourceBinding) :
    SamplingCommit where
  schema := samplingCommitSchema
  attemptId := sealed.attempt.attemptId
  startedRecordDigest := none
  commitId := commitId
  epoch := p.source.epoch
  previousPreBoundary := p.previousPreBoundary
  preBoundary := sealed.attempt.preBoundary
  postBoundary := postBoundary
  previousCommitId := p.previousCommitId
  inputTokens := inputTokens
  executions := List.zipWith committedExecution sealed.facts bindings
  sourceDigest := none
  recordDigest := none

/-- `prepare_sampling_with_input_tokens`; a failure leaves the planner as it is. -/
def prepareSampling (p : SamplingPlanner) (sealed : SealedSampling) (postBoundary : BoundaryId)
    (commitId : SamplingCommitId) (inputTokens : Option ℕ) :
    Outcome PlannerError (SamplingPlanner × PreparedSamplingCommit) := do
  p.requireActive sealed.attempt.attemptId
  p.validateCommitScope sealed postBoundary commitId
  let snapshot := p.source.snapshot
  .require (snapshot.lastBoundary = some postBoundary) .postBoundaryIsNotSourceTail
  .require (p.committedSourceCells ≤ snapshot.cells.length) .committedSourcePrefixMissing
  let ((parser, compiler), pressure, bindings) ← p.reduceCommit sealed postBoundary inputTokens
  let (plan, projectionOrdinal) ← buildContextPlan snapshot compiler.projection
    parser.pendingBoundaries p.committedPlan p.nextProjectionOrdinal
  let record := p.commitRecord sealed postBoundary commitId inputTokens bindings
  (SamplingArchiveRecord.samplingCommit record).validate.mapErr .archive
  let prepared : PreparedSamplingCommit := {
    record := record
    plan := plan
    projection := compiler.projection
    candidate := {
      baseCommitId := p.previousCommitId
      baseSourceCells := p.committedSourceCells
      parser := parser
      compiler := compiler
      committedSourceCells := snapshot.cells.length
      previousPreBoundary := some sealed.attempt.preBoundary
      previousCommitId := some commitId
      nextProjectionOrdinal := projectionOrdinal
      inputPressure := pressure } }
  pure ({ p with activeAttempt := none }, prepared)

/-- `install_prepared`; the returned output repeats the prepared values. -/
def installPrepared (p : SamplingPlanner) (prepared : PreparedSamplingCommit) :
    Outcome PlannerError SamplingPlanner := do
  .require (prepared.record.attemptId.thread = p.source.thread ∧
    prepared.record.epoch = p.source.epoch) .identityScopeMismatch
  let candidate := prepared.candidate
  .require (p.previousCommitId = candidate.baseCommitId ∧
    p.committedSourceCells = candidate.baseSourceCells) .preparedSamplingStale
  pure { p with
    parser := candidate.parser
    compiler := candidate.compiler
    committedSourceCells := candidate.committedSourceCells
    previousPreBoundary := candidate.previousPreBoundary
    previousCommitId := candidate.previousCommitId
    nextProjectionOrdinal := candidate.nextProjectionOrdinal
    inputPressure := candidate.inputPressure
    committedPlan := some prepared.plan }

def discardSampling (p : SamplingPlanner) (attemptId : SamplingAttemptId) :
    Outcome PlannerError SamplingPlanner := do
  p.requireActive attemptId
  pure { p with activeAttempt := none }

/-- The checks of `compact` and of its replay on the scope of a barrier. -/
def BarrierInScope (source : SourceLedger) (barrier : SpineCompactBarrierV1) : Prop :=
  barrier.thread = source.thread ∧ barrier.previousEpoch = source.epoch ∧
    barrier.nextEpoch = (checkedNext source.epoch).getD source.epoch

instance (source : SourceLedger) (barrier : SpineCompactBarrierV1) :
    Decidable (BarrierInScope source barrier) :=
  inferInstanceAs (Decidable (_ ∧ _ ∧ _))

/-- The ledger of the epoch that a barrier starts. -/
def nextLedger (source : SourceLedger) (barrier : SpineCompactBarrierV1) :
    Outcome SourceLedgerError SourceLedger := do
  let source ← source.advanceEpoch barrier.nextEpoch
  source.appendAll (barrier.replacementBoundaries.map .opaqueItem)

/-- `compact`; a failure leaves the planner as it is. -/
def compact (p : SamplingPlanner) (barrier : SpineCompactBarrierV1) :
    Outcome PlannerError (SamplingPlanner × SpineProjection) := do
  .require (p.activeAttempt = none) .samplingAlreadyActive
  barrier.validate.mapErr fun error ↦ .invalidCompactBarrier error.text
  .require (BarrierInScope p.source barrier) .identityScopeMismatch
  let (parser, compiler) ← (reduceCompactDelta p.source.snapshot p.committedSourceCells barrier
    (p.parser, p.compiler)).mapErr mapSamplingDeltaError
  let source ← (nextLedger p.source barrier).mapErr .source
  let (plan, projectionOrdinal) ← buildContextPlan source.snapshot compiler.projection
    parser.pendingBoundaries none 0
  pure ({ p with
    source := source
    parser := parser
    compiler := compiler
    committedSourceCells := source.cells.length
    previousPreBoundary := none
    committedPlan := some plan
    inputPressure := p.inputPressure.compact
    nextProjectionOrdinal := projectionOrdinal }, compiler.projection)

/-- The ordinals of the projection cells of a plan. -/
def projectionOrdinals (plan : ContextPlanRecipe) : List ℕ :=
  plan.cells.filterMap fun
    | .projection projectionId _ => some projectionId.ordinal
    | .source _ _ => none

/-- `from_replay_state`, where the committed plan always exists. -/
def fromReplayState (source : SourceLedger) (parser : SpineCharParser) (compiler : SpineCompiler)
    (committedSourceCells : ℕ) (previousPreBoundary : Option BoundaryId)
    (previousCommitId : Option SamplingCommitId) (committedPlan : ContextPlanRecipe)
    (inputPressure : InputPressureState) (config : SpineConfig) : SamplingPlanner where
  source := source
  parser := parser
  compiler := compiler
  committedSourceCells := committedSourceCells
  previousPreBoundary := previousPreBoundary
  previousCommitId := previousCommitId
  committedPlan := some committedPlan
  inputPressure := inputPressure
  nextProjectionOrdinal := ((projectionOrdinals committedPlan).map (· + 1)).foldl max 0
  activeAttempt := none
  jitEnabled := config.jit
  spawnEnabled := config.spawn

end SamplingPlanner

end SpineCodex
