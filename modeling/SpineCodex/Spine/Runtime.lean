import SpineCodex.Spine.Planner

/-!
# The sampling runtime

The runtime allocates identities, collects the facts of one sampling and drives the
planner.  A handle and the runtime share the fact sink of an attempt: the sinks live in a
list, and both hold an index into it.  Every operation returns the runtime that it leaves
behind, on failure too.
-/

namespace SpineCodex

/-- The derived order on boundary identities: by thread, then epoch, then ordinal. -/
def EpochOrdinalId.Before (a b : EpochOrdinalId) : Prop :=
  a.thread.value < b.thread.value ∨ (a.thread.value = b.thread.value ∧
    (a.epoch < b.epoch ∨ (a.epoch = b.epoch ∧ a.ordinal < b.ordinal)))

instance (a b : EpochOrdinalId) : Decidable (a.Before b) := inferInstanceAs (Decidable (_ ∨ _))

/-- `SamplingHandle`. -/
structure SamplingHandle where
  attempt : SamplingAttempt
  sink : ℕ
  deriving DecidableEq

structure PendingSamplingExecution where
  permit : FactPermit
  fact : Option ExecutedSpineFact
  deriving DecidableEq

structure SamplingExecutionBatch where
  attemptId : SamplingAttemptId
  preBoundary : BoundaryId
  started : Bool
  sink : ℕ
  nextExecution : ℕ
  pending : List (String × PendingSamplingExecution)
  deriving DecidableEq

inductive SamplingRuntimeState where
  | idle
  | active (batch : SamplingExecutionBatch)
  | prepared (attemptId : SamplingAttemptId) (commitId : SamplingCommitId)
  deriving DecidableEq

inductive SamplingTerminal where
  | completed
  | failed
  | cancelled
  deriving Repr, DecidableEq

inductive SamplingFinish where
  | orphanedStart
  | prepared (commit : PreparedSamplingCommit)
  deriving DecidableEq

structure SamplingRuntime where
  planner : SamplingPlanner
  nextAttempt : ℕ
  nextCommit : ℕ
  state : SamplingRuntimeState
  sinks : List SamplingFactSink
  deriving DecidableEq

/-- The text of the `n`-th identity of a kind in a namespace. -/
def ordinalIdText (thread : ThreadNamespace) (kind : String) (n : ℕ) : String :=
  thread.value ++ kind ++ toString n

def attemptIdText (thread : ThreadNamespace) (n : ℕ) : String := ordinalIdText thread "-attempt-" n
def commitIdText (thread : ThreadNamespace) (n : ℕ) : String := ordinalIdText thread "-commit-" n

def executionIdText (thread : ThreadNamespace) (n : ℕ) : String :=
  ordinalIdText thread "-execution-" n

/-- An identity of the runtime; a text that does not validate is a scope error. -/
def parseId (thread : ThreadNamespace) (text : String) : Outcome PlannerError NamespacedId :=
  match NamespacedId.parse thread text with
  | .ok id => .ok id
  | .error _ => .err .identityScopeMismatch

namespace SamplingRuntime

def new (thread : ThreadNamespace) (epoch : ContextEpoch) (config : SpineConfig) :
    SamplingRuntime where
  planner := .new thread epoch config
  nextAttempt := 0
  nextCommit := 0
  state := .idle
  sinks := []

/-- `from_replay`. -/
def fromReplay (planner : SamplingPlanner) (nextAttempt nextCommit : ℕ) : SamplingRuntime where
  planner := planner
  nextAttempt := nextAttempt
  nextCommit := nextCommit
  state := .idle
  sinks := []

/-- The check that four operations make first. -/
def requireIdle (rt : SamplingRuntime) : Outcome PlannerError Unit :=
  match rt.state with
  | .idle => .ok ()
  | .active _ => .err .samplingAlreadyActive
  | .prepared _ _ => .err .samplingCommitPendingInstall

/-- `active_mut`, read only. -/
def activeBatch (rt : SamplingRuntime) : Outcome PlannerError SamplingExecutionBatch :=
  match rt.state with
  | .active batch => .ok batch
  | .idle => .err .noActiveSampling
  | .prepared _ _ => .err .samplingCommitPendingInstall

/-- `require_active`. -/
def requireActive (rt : SamplingRuntime) (handle : SamplingHandle) :
    Outcome PlannerError SamplingExecutionBatch := do
  let batch ← rt.activeBatch
  .require (batch.attemptId = handle.attempt.attemptId) .attemptMismatch
  pure batch

/-- `take_active`: the batch leaves the runtime, which becomes idle. -/
def takeActive (rt : SamplingRuntime) (attemptId : SamplingAttemptId) :
    SamplingRuntime × Outcome PlannerError SamplingExecutionBatch :=
  match rt.state with
  | .active batch =>
      if batch.attemptId = attemptId then ({ rt with state := .idle }, .ok batch)
      else (rt, .err .attemptMismatch)
  | .idle => (rt, .err .noActiveSampling)
  | .prepared _ _ => (rt, .err .samplingCommitPendingInstall)

/-- Runs an operation of the sink at an index. -/
def onSink {α : Type} (rt : SamplingRuntime) (index : ℕ)
    (f : SamplingFactSink → SamplingFactSink × Outcome SamplingError α) :
    SamplingRuntime × Outcome PlannerError α :=
  match rt.sinks[index]? with
  | some sink => ({ rt with sinks := rt.sinks.set index (f sink).1 }, (f sink).2.mapErr .sampling)
  | none => (rt, .crash)

/-- `let _ = sink.abort()`. -/
def abortSink (rt : SamplingRuntime) (index : ℕ) : SamplingRuntime :=
  (rt.onSink index SamplingFactSink.abortTransaction).1

def observeSource (rt : SamplingRuntime) (characters : List SpineChar) :
    SamplingRuntime × Outcome PlannerError (List SourceCellId) :=
  match rt.state with
  | .prepared _ _ => (rt, .err .samplingCommitPendingInstall)
  | .idle | .active _ =>
      ({ rt with planner := (rt.planner.observeSource characters).1 },
        (rt.planner.observeSource characters).2)

def beginSampling (rt : SamplingRuntime) : SamplingRuntime × Outcome PlannerError SamplingHandle :=
  let thread := rt.planner.source.thread
  match (do rt.requireIdle; parseId thread (attemptIdText thread rt.nextAttempt)) with
  | .ok attemptId =>
      let rt := { rt with nextAttempt := rt.nextAttempt + 1 }
      match rt.planner.beginSampling attemptId with
      | .ok (planner, attempt) =>
          let sink := rt.sinks.length
          ({ rt with
              planner := planner
              state := .active ⟨attempt.attemptId, attempt.preBoundary, false, sink, 0, []⟩
              sinks := rt.sinks ++ [.new attempt] }, .ok ⟨attempt, sink⟩)
      | .err e => (rt, .err e)
      | .crash => (rt, .crash)
  | .err e => (rt, .err e)
  | .crash => (rt, .crash)

def samplingStartedRecord (rt : SamplingRuntime) (handle : SamplingHandle) :
    SamplingRuntime × Outcome PlannerError SamplingArchiveRecord :=
  match (do
      let batch ← rt.requireActive handle
      .require (batch.started = false) .samplingAlreadyStarted
      let record ← rt.planner.samplingStartedRecord handle.attempt
      pure (batch, record)) with
  | .ok (batch, record) => ({ rt with state := .active { batch with started := true } }, .ok record)
  | .err e => (rt, .err e)
  | .crash => (rt, .crash)

def registerExecution (rt : SamplingRuntime) (key : String) :
    SamplingRuntime × Outcome PlannerError Unit :=
  let thread := rt.planner.source.thread
  match rt.activeBatch with
  | .ok batch =>
    if (batch.pending.lookup key).isSome then
      (rt.abortSink batch.sink, .err (.duplicateExecutionKey key))
    else
      match parseId thread (executionIdText thread batch.nextExecution) with
      | .ok executionId =>
        let batch := { batch with nextExecution := batch.nextExecution + 1 }
        match { rt with state := .active batch }.onSink batch.sink (·.reserveExecution executionId) with
        | (rt, .ok permit) =>
            ({ rt with state := .active { batch with
                pending := (key, ⟨permit, none⟩) :: batch.pending } }, .ok ())
        | (rt, .err e) => (rt, .err e)
        | (rt, .crash) => (rt, .crash)
      | .err e => (rt, .err e)
      | .crash => (rt, .crash)
  | .err e => (rt, .err e)
  | .crash => (rt, .crash)

/-- The entries of a batch with the one under a key changed. -/
def setPending (pending : List (String × PendingSamplingExecution)) (key : String)
    (execution : PendingSamplingExecution) : List (String × PendingSamplingExecution) :=
  pending.map fun entry ↦ if entry.1 = key then (key, execution) else entry

def stageExecution (rt : SamplingRuntime) (key : String) (origin : ExecutionOrigin)
    (operation : SpineOperationFact) : SamplingRuntime × Outcome PlannerError Unit :=
  match rt.activeBatch with
  | .ok batch =>
    match batch.pending.lookup key with
    | none => (rt, .err (.unknownExecutionKey key))
    | some execution =>
      if execution.fact.isSome then (rt.abortSink batch.sink, .err (.executionAlreadyStaged key))
      else
        let reservation := execution.permit.reservation
        let fact := ⟨reservation.executionId, reservation.ordinal, origin, operation⟩
        ({ rt with state := .active { batch with
            pending := setPending batch.pending key { execution with fact := some fact } } }, .ok ())
  | .err e => (rt, .err e)
  | .crash => (rt, .crash)

def finishExecution (rt : SamplingRuntime) (key : String) (succeeded : Bool) :
    SamplingRuntime × Outcome PlannerError Unit :=
  match rt.activeBatch with
  | .ok batch =>
    match batch.pending.lookup key with
    | none => (rt, .err (.unknownExecutionKey key))
    | some execution =>
      let rt := { rt with state := .active { batch with
        pending := batch.pending.filter (·.1 ≠ key) } }
      if succeeded then
        match execution.fact with
        | some fact => rt.onSink batch.sink (·.complete execution.permit fact)
        | none => (rt.abortSink batch.sink, .err (.successfulExecutionMissingFact key))
      else rt.onSink batch.sink (·.abortPermit execution.permit)
  | .err e => (rt, .err e)
  | .crash => (rt, .crash)

/-- `abort_sampling`: the runtime is idle even when the planner then refuses. -/
def abortSampling (rt : SamplingRuntime) (handle : SamplingHandle) :
    SamplingRuntime × Outcome PlannerError Unit :=
  match rt.takeActive handle.attempt.attemptId with
  | (rt, .ok _) =>
      match rt.sinks[handle.sink]? with
      | some sink =>
          let (planner, sink, result) := rt.planner.abortSampling handle.attempt sink
          ({ rt with planner := planner, sinks := rt.sinks.set handle.sink sink }, result)
      | none => (rt, .crash)
  | (rt, .err e) => (rt, .err e)
  | (rt, .crash) => (rt, .crash)

/-- `self.abort_sampling(&handle)?` followed by returning an error. -/
def abortWith {α : Type} (rt : SamplingRuntime) (handle : SamplingHandle) (e : PlannerError) :
    SamplingRuntime × Outcome PlannerError α :=
  match rt.abortSampling handle with
  | (rt, .ok ()) => (rt, .err e)
  | (rt, .err e') => (rt, .err e')
  | (rt, .crash) => (rt, .crash)

/-- The last source boundary, or where the attempt started. -/
def postBoundary (rt : SamplingRuntime) (handle : SamplingHandle) : BoundaryId :=
  rt.planner.source.snapshot.lastBoundary.getD handle.attempt.preBoundary

/-- The end of `prepare_sampling`, once the sink is sealed and the commit has its identity. -/
def prepareSealed (rt : SamplingRuntime) (handle : SamplingHandle) (facts : List ExecutedSpineFact)
    (commitId : SamplingCommitId) (inputTokens : Option ℕ) :
    SamplingRuntime × Outcome PlannerError PreparedSamplingCommit :=
  let attemptId := handle.attempt.attemptId
  match rt.planner.prepareSampling ⟨handle.attempt, facts⟩ (rt.postBoundary handle) commitId
      inputTokens with
  | .ok (planner, prepared) =>
      match { rt with planner := planner }.takeActive attemptId with
      | (rt, .ok _) => ({ rt with
          nextCommit := rt.nextCommit + 1
          state := .prepared attemptId commitId }, .ok prepared)
      | (rt, .err e) => (rt, .err e)
      | (rt, .crash) => (rt, .crash)
  | .err e =>
      match rt.planner.discardSampling attemptId with
      | .ok planner => ({ rt with planner := planner, state := .idle }, .err e)
      | .err e' => (rt, .err e')
      | .crash => (rt, .crash)
  | .crash => (rt, .crash)

/-- `prepare_sampling`.  The commit identity is parsed behind the seal; its failure is returned
at once. -/
def prepareSampling (rt : SamplingRuntime) (handle : SamplingHandle) (inputTokens : Option ℕ) :
    SamplingRuntime × Outcome PlannerError PreparedSamplingCommit :=
  match rt.requireActive handle with
  | .ok batch =>
    if batch.pending ≠ [] then rt.abortWith handle (.pendingExecutions batch.pending.length)
    else if batch.started = false then rt.abortWith handle .samplingNotStarted
    else
      match rt.onSink handle.sink (·.sealFacts rt.planner.source.epoch) with
      | (rt, .ok facts) =>
          let thread := rt.planner.source.thread
          match parseId thread (commitIdText thread rt.nextCommit) with
          | .ok commitId => rt.prepareSealed handle facts commitId inputTokens
          | .err e => (rt, .err e)
          | .crash => (rt, .crash)
      | (rt, .err e) => rt.abortWith handle e
      | (rt, .crash) => (rt, .crash)
  | .err e => (rt, .err e)
  | .crash => (rt, .crash)

/-- Whether source arrived since the attempt started, by the order on boundary identities. -/
def sourceAdvanced (rt : SamplingRuntime) (preBoundary : BoundaryId) : Bool :=
  rt.planner.source.snapshot.lastBoundary.any fun boundary ↦ preBoundary.Before boundary

/-- Whether the sink at an index has completed facts. -/
def sinkHasFacts (rt : SamplingRuntime) (index : ℕ) : Bool :=
  rt.sinks[index]?.any SamplingFactSink.hasCompletedFacts

def activeSamplingHasDelta (rt : SamplingRuntime) (handle : SamplingHandle) : Bool :=
  match rt.state with
  | .active batch => decide (batch.attemptId = handle.attempt.attemptId) &&
      (rt.sinkHasFacts batch.sink || rt.sourceAdvanced batch.preBoundary)
  | .idle | .prepared _ _ => false

/-- `finish_sampling_with_input_tokens`. -/
def finishSampling (rt : SamplingRuntime) (handle : SamplingHandle) (terminal : SamplingTerminal)
    (inputTokens : Option ℕ) : SamplingRuntime × Outcome PlannerError SamplingFinish :=
  if terminal ≠ .completed ∧ rt.activeSamplingHasDelta handle = false then
    match rt.abortSampling handle with
    | (rt, .ok ()) => (rt, .ok .orphanedStart)
    | (rt, .err e) => (rt, .err e)
    | (rt, .crash) => (rt, .crash)
  else
    match rt.prepareSampling handle inputTokens with
    | (rt, .ok prepared) => (rt, .ok (.prepared prepared))
    | (rt, .err e) => (rt, .err e)
    | (rt, .crash) => (rt, .crash)

/-- Whether a prepared commit is the one that the runtime waits for. -/
def MatchesPending (rt : SamplingRuntime) (prepared : PreparedSamplingCommit) : Prop :=
  rt.state = .prepared prepared.record.attemptId prepared.record.commitId

instance (rt : SamplingRuntime) (prepared : PreparedSamplingCommit) :
    Decidable (rt.MatchesPending prepared) :=
  inferInstanceAs (Decidable (_ = _))

def installPrepared (rt : SamplingRuntime) (prepared : PreparedSamplingCommit) :
    SamplingRuntime × Outcome PlannerError Unit :=
  match (do
      Outcome.require (rt.MatchesPending prepared) PlannerError.preparedSamplingMismatch
      rt.planner.installPrepared prepared) with
  | .ok planner => ({ rt with planner := planner, state := .idle }, .ok ())
  | .err e => (rt, .err e)
  | .crash => (rt, .crash)

def discardUnpersistedPrepared (rt : SamplingRuntime) (prepared : PreparedSamplingCommit) :
    SamplingRuntime × Outcome PlannerError Unit :=
  if rt.MatchesPending prepared then ({ rt with state := .idle }, .ok ())
  else (rt, .err .preparedSamplingMismatch)

def compact (rt : SamplingRuntime) (barrier : SpineCompactBarrierV1) :
    SamplingRuntime × Outcome PlannerError SpineProjection :=
  match (do rt.requireIdle; rt.planner.compact barrier) with
  | .ok (planner, projection) => ({ rt with planner := planner }, .ok projection)
  | .err e => (rt, .err e)
  | .crash => (rt, .crash)

def continueInNamespace (rt : SamplingRuntime) (thread : ThreadNamespace) :
    SamplingRuntime × Outcome PlannerError Unit :=
  match rt.requireIdle with
  | .ok () =>
    if rt.planner.source.thread = thread then (rt, .ok ())
    else
      match rt.planner.continueInNamespace thread with
      | .ok planner => ({ rt with planner := planner, nextAttempt := 0, nextCommit := 0 }, .ok ())
      | .err e => (rt, .err e)
      | .crash => (rt, .crash)
  | .err e => (rt, .err e)
  | .crash => (rt, .crash)

def previewContextPlan (rt : SamplingRuntime) : Outcome PlannerError ContextPlanRecipe :=
  rt.planner.previewContextPlan

end SamplingRuntime

end SpineCodex
