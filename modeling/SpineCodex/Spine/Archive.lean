import SpineCodex.Spine.Facts

/-!
# Durable sampling records

The two records that a sampling leaves in the host's log, and the structural checks that
both the writer and the reader of the log make on them.
-/

namespace SpineCodex

open Json (object array string number)

def samplingStartedSchema : String := "spine.sampling.started"
def samplingCommitSchema : String := "spine.sampling.commit"
def maxArchiveRecordBytes : ℕ := 256 * 1024
def maxFactsPerSampling : ℕ := 64
def digestHexBytes : ℕ := 64

/-- `RecordDigest`: lowercase hexadecimal text of a fixed length. -/
structure RecordDigest where
  value : String
  valid : value.utf8ByteSize = digestHexBytes ∧
    value.toList.all (fun c ↦ c.isDigit || ('a' ≤ c && c ≤ 'f')) = true
  deriving DecidableEq

def RecordDigest.toJson (digest : RecordDigest) : Json := string digest.value

structure SamplingStarted where
  schema : String
  attemptId : SamplingAttemptId
  epoch : ContextEpoch
  preBoundary : BoundaryId
  previousCommitId : Option SamplingCommitId
  promptDigest : Option RecordDigest
  sourceDigest : Option RecordDigest
  recordDigest : Option RecordDigest
  deriving DecidableEq

/-- `SourceSpan`: the first and the last cell of a source block. -/
structure SourceSpan where
  start : SourceCellId
  stop : SourceCellId
  deriving DecidableEq

structure CommittedSpineExecution where
  executionId : ExecutionId
  ordinal : AdmissionOrdinal
  origin : ExecutionOrigin
  sourceSpan : SourceSpan
  operation : SpineOperationFact
  deriving DecidableEq

structure SamplingCommit where
  schema : String
  attemptId : SamplingAttemptId
  startedRecordDigest : Option RecordDigest
  commitId : SamplingCommitId
  epoch : ContextEpoch
  previousPreBoundary : Option BoundaryId
  preBoundary : BoundaryId
  postBoundary : BoundaryId
  previousCommitId : Option SamplingCommitId
  inputTokens : Option ℕ
  executions : List CommittedSpineExecution
  sourceDigest : Option RecordDigest
  recordDigest : Option RecordDigest
  deriving DecidableEq

structure FactSourceBinding where
  executionId : ExecutionId
  start : SourceCellId
  stop : SourceCellId
  deriving DecidableEq

inductive SamplingArchiveRecord where
  | samplingStarted (record : SamplingStarted)
  | samplingCommit (record : SamplingCommit)
  deriving DecidableEq

inductive ArchiveError where
  | unsupportedSchema (expected actual : String)
  | identityScopeMismatch
  | invalidBoundaryOrder
  | invalidFactOrder
  | conflictingFacts
  | invalidCommitChain
  | invalidFactSourceBinding
  | tooManyFacts (max actual : ℕ)
  | recordTooLarge (maxBytes actualBytes : ℕ)
  | invalidFact (error : ExecutedFactError)
  deriving DecidableEq

/-! ## The JSON form -/

def SamplingStarted.toJson (record : SamplingStarted) : Json :=
  object ([("schema", string record.schema), ("attempt_id", record.attemptId.toJson),
      ("epoch", number record.epoch), ("pre_boundary", record.preBoundary.toJson),
      ("previous_commit_id", orNull NamespacedId.toJson record.previousCommitId)] ++
    optionalField "prompt_digest" RecordDigest.toJson record.promptDigest ++
    optionalField "source_digest" RecordDigest.toJson record.sourceDigest ++
    optionalField "record_digest" RecordDigest.toJson record.recordDigest)

def SourceSpan.toJson (span : SourceSpan) : Json :=
  object [("start", span.start.toJson), ("end", span.stop.toJson)]

def CommittedSpineExecution.toJson (execution : CommittedSpineExecution) : Json :=
  object [("execution_id", execution.executionId.toJson), ("ordinal", number execution.ordinal),
    ("origin", execution.origin.toJson), ("source_span", execution.sourceSpan.toJson),
    ("operation", execution.operation.toJson)]

def SamplingCommit.toJson (record : SamplingCommit) : Json :=
  object ([("schema", string record.schema), ("attempt_id", record.attemptId.toJson)] ++
    optionalField "started_record_digest" RecordDigest.toJson record.startedRecordDigest ++
    [("commit_id", record.commitId.toJson), ("epoch", number record.epoch),
      ("previous_pre_boundary", orNull EpochOrdinalId.toJson record.previousPreBoundary),
      ("pre_boundary", record.preBoundary.toJson), ("post_boundary", record.postBoundary.toJson),
      ("previous_commit_id", orNull NamespacedId.toJson record.previousCommitId)] ++
    optionalField "input_tokens" number record.inputTokens ++
    [("executions", array (record.executions.map CommittedSpineExecution.toJson))] ++
    optionalField "source_digest" RecordDigest.toJson record.sourceDigest ++
    optionalField "record_digest" RecordDigest.toJson record.recordDigest)

def SamplingArchiveRecord.toJson : SamplingArchiveRecord → Json
  | .samplingStarted record =>
      object [("type", string "sampling_started"), ("record", record.toJson)]
  | .samplingCommit record =>
      object [("type", string "sampling_commit"), ("record", record.toJson)]

/-! ## Validation -/

def requireSchema (actual expected : String) : Outcome ArchiveError Unit :=
  .require (actual = expected) (.unsupportedSchema expected actual)

def requireBoundaryScope (thread : ThreadNamespace) (epoch : ContextEpoch) (boundary : BoundaryId) :
    Outcome ArchiveError Unit :=
  .require (boundary.thread = thread ∧ boundary.epoch = epoch) .identityScopeMismatch

def requireAttemptScope (attempt : SamplingAttemptId) (epoch : ContextEpoch)
    (boundary : BoundaryId) : Outcome ArchiveError Unit :=
  requireBoundaryScope attempt.thread epoch boundary

def requireOptionalCommitScope (thread : ThreadNamespace) :
    Option SamplingCommitId → Outcome ArchiveError Unit
  | some commit => .require (commit.thread = thread) .identityScopeMismatch
  | none => .ok ()

namespace CommittedSpineExecution

/-- The fact that an execution records. -/
def fact (execution : CommittedSpineExecution) : ExecutedSpineFact :=
  ⟨execution.executionId, execution.ordinal, execution.origin, execution.operation⟩

/-- The checks on one execution alone. -/
def validate (execution : CommittedSpineExecution) (thread : ThreadNamespace)
    (epoch : ContextEpoch) : Outcome ArchiveError Unit := do
  execution.fact.validate.mapErr .invalidFact
  .require (execution.executionId.thread = thread) .identityScopeMismatch
  let source := execution.sourceSpan
  .require (source.start.thread = thread ∧ source.stop.thread = thread ∧
    source.start.epoch = epoch ∧ source.stop.epoch = epoch ∧
    source.start.ordinal ≤ source.stop.ordinal) .invalidFactSourceBinding

end CommittedSpineExecution

/-- The loop over the executions, with the last ordinal and the executions seen so far. -/
def validateExecutions (thread : ThreadNamespace) (epoch : ContextEpoch) :
    Option AdmissionOrdinal → Finset ExecutionId → List CommittedSpineExecution →
      Outcome ArchiveError Unit
  | _, _, [] => .ok ()
  | previousOrdinal, seen, execution :: rest => do
      execution.validate thread epoch
      .require (∀ previous ∈ previousOrdinal, previous < execution.ordinal) .invalidFactOrder
      .require (execution.executionId ∉ seen) .conflictingFacts
      validateExecutions thread epoch (some execution.ordinal) (insert execution.executionId seen) rest

/-- The check on the boundary of the sampling before, if there was one in this namespace. -/
def requirePreviousPreBoundary (record : SamplingCommit) : Outcome ArchiveError Unit :=
  match record.previousPreBoundary with
  | some previous => do
      requireBoundaryScope record.attemptId.thread record.epoch previous
      .require (previous.ordinal ≤ record.preBoundary.ordinal) .invalidBoundaryOrder
  | none => .ok ()

/-- `validate_sampling_commit`.  Every kind of fact is structural, so that a commit with two
executions is refused at the end. -/
def validateSamplingCommit (record : SamplingCommit) : Outcome ArchiveError Unit := do
  requireAttemptScope record.attemptId record.epoch record.preBoundary
  requireBoundaryScope record.attemptId.thread record.epoch record.postBoundary
  requirePreviousPreBoundary record
  .require (record.preBoundary.ordinal ≤ record.postBoundary.ordinal) .invalidBoundaryOrder
  .require (record.commitId.thread = record.attemptId.thread) .identityScopeMismatch
  .require (record.previousCommitId ≠ some record.commitId) .invalidCommitChain
  if record.previousPreBoundary.isSome then
    requireOptionalCommitScope record.attemptId.thread record.previousCommitId
  .require (record.executions.length ≤ maxFactsPerSampling)
    (.tooManyFacts maxFactsPerSampling record.executions.length)
  validateExecutions record.attemptId.thread record.epoch none ∅ record.executions
  .require (record.executions.length ≤ 1) .conflictingFacts

namespace SamplingArchiveRecord

/-- The part of `validate_structure` before the size check. -/
def validateContent : SamplingArchiveRecord → Outcome ArchiveError Unit
  | .samplingStarted record => do
      requireSchema record.schema samplingStartedSchema
      requireAttemptScope record.attemptId record.epoch record.preBoundary
  | .samplingCommit record => do
      requireSchema record.schema samplingCommitSchema
      validateSamplingCommit record

/-- `validate`, which is `validate_structure`; `finalize` returns the record after it. -/
def validate (record : SamplingArchiveRecord) : Outcome ArchiveError Unit := do
  record.validateContent
  let actualBytes := record.toJson.byteSize
  .require (actualBytes ≤ maxArchiveRecordBytes) (.recordTooLarge maxArchiveRecordBytes actualBytes)

end SamplingArchiveRecord

end SpineCodex
