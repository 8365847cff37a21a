import SpineCodex.Lib.Text
import SpineCodex.Spine.Serialize

/-!
# Validation of executed facts
-/

namespace SpineCodex

def maxSummaryBytes : ℕ := 4 * 1024
def maxMemoryBytes : ℕ := 32 * 1024
def maxSpawnTasks : ℕ := 16
def maxSpawnPromptBytes : ℕ := 7 * 1024
def maxSpawnBatchBytes : ℕ := 64 * 1024
def maxExecutionOriginBytes : ℕ := 1024
def maxExecutedFactPayloadBytes : ℕ := 160 * 1024

def spineSpawnResultSchema : String := "spine.spawn.result.v1"

structure SpawnReceipt where
  schema : String
  results : List SpawnResult
  deriving Repr, DecidableEq

inductive SpawnValidationError where
  | tooFewTasks
  | tooManyTasks (max actual : ℕ)
  | aggregateTooLarge (phase : String) (maxBytes actualBytes : ℕ)
  | fieldTooLarge (ordinal : ℕ) (field : String) (maxBytes : ℕ)
  | emptyTaskSummary (ordinal : ℕ)
  | emptyTaskPrompt (ordinal : ℕ)
  | invalidSchema (schema : String)
  | resultCount (expected actual : ℕ)
  | resultOrdinal (expected actual : ℕ)
  | emptyMemory (ordinal : ℕ)
  | missingDiagnostic (ordinal : ℕ)
  | emptyDiagnostic (ordinal : ℕ)
  | emptyExecutionRef (ordinal : ℕ)
  deriving Repr, DecidableEq

inductive ExecutedFactError where
  | emptyField (field : String)
  | fieldTooLarge (field : String) (maxBytes actualBytes : ℕ)
  | payloadTooLarge (maxBytes actualBytes : ℕ)
  | invalidSpawn (error : SpawnValidationError)
  deriving Repr, DecidableEq

/-! ## Spawn receipts -/

def validateSpawnField (ordinal : ℕ) (field value : String) (maxBytes : ℕ) :
    Outcome SpawnValidationError Unit :=
  .require (value.utf8ByteSize ≤ maxBytes) (.fieldTooLarge ordinal field maxBytes)

def validateSpawnAggregate (phase : String) (fields : List String) :
    Outcome SpawnValidationError Unit :=
  let actualBytes := (fields.map String.utf8ByteSize).sum
  .require (actualBytes ≤ maxSpawnBatchBytes)
    (.aggregateTooLarge phase maxSpawnBatchBytes actualBytes)

namespace SpawnReceipt

def validateTask (ordinal : ℕ) (task : SpawnTask) : Outcome SpawnValidationError Unit := do
  .require (¬Blank task.summary) (.emptyTaskSummary ordinal)
  .require (¬Blank task.prompt) (.emptyTaskPrompt ordinal)
  validateSpawnField ordinal "summary" task.summary maxSummaryBytes
  validateSpawnField ordinal "prompt" task.prompt maxSpawnPromptBytes

def validateDiagnostic (expected : ℕ) (result : SpawnResult) : Outcome SpawnValidationError Unit :=
  match result.diagnostic with
  | none => .require (result.outcome = .completed) (.missingDiagnostic result.ordinal)
  | some diagnostic => do
      .require (¬Blank diagnostic) (.emptyDiagnostic result.ordinal)
      validateSpawnField expected "diagnostic" diagnostic maxSummaryBytes

def validateExecutionRef (expected : ℕ) (result : SpawnResult) :
    Outcome SpawnValidationError Unit :=
  match result.executionRef with
  | none => .ok ()
  | some executionRef => do
      .require (¬Blank executionRef) (.emptyExecutionRef result.ordinal)
      validateSpawnField expected "execution_ref" executionRef maxSummaryBytes

def validateResult (expected : ℕ) (result : SpawnResult) : Outcome SpawnValidationError Unit := do
  .require (result.ordinal = expected) (.resultOrdinal expected result.ordinal)
  .require (¬Blank result.memoryBody) (.emptyMemory result.ordinal)
  validateSpawnField expected "memory_body" result.memoryBody maxMemoryBytes
  validateDiagnostic expected result
  validateExecutionRef expected result

/-- `validate_for`.  The clamping of an index to 32 bits is left out: at most
`MAX_SPAWN_TASKS` results get to that point. -/
def validateFor (receipt : SpawnReceipt) (tasks : List SpawnTask) :
    Outcome SpawnValidationError Unit := do
  .require (2 ≤ tasks.length) .tooFewTasks
  .require (tasks.length ≤ maxSpawnTasks) (.tooManyTasks maxSpawnTasks tasks.length)
  tasks.zipIdx.forM fun (task, ordinal) ↦ validateTask ordinal task
  validateSpawnAggregate "task" (tasks.flatMap fun task ↦ [task.summary, task.prompt])
  .require (receipt.schema = spineSpawnResultSchema) (.invalidSchema receipt.schema)
  .require (receipt.results.length = tasks.length)
    (.resultCount tasks.length receipt.results.length)
  receipt.results.zipIdx.forM fun (result, expected) ↦ validateResult expected result
  validateSpawnAggregate "result" (receipt.results.flatMap fun result ↦
    [some result.memoryBody, result.diagnostic, result.executionRef].filterMap id)

end SpawnReceipt

/-! ## Facts -/

def validateField (field value : String) (maxBytes : ℕ) : Outcome ExecutedFactError Unit := do
  .require (¬Blank value) (.emptyField field)
  .require (value.utf8ByteSize ≤ maxBytes) (.fieldTooLarge field maxBytes value.utf8ByteSize)

def validateOrigin : ExecutionOrigin → Outcome ExecutedFactError Unit
  | .direct executionRef =>
      validateField "origin.execution_ref" executionRef maxExecutionOriginBytes

namespace ExecutedSpineFact

def validateOperation : SpineOperationFact → Outcome ExecutedFactError Unit
  | .openNode summary => validateField "summary" summary maxSummaryBytes
  | .closeNode memory => validateField "memory" memory maxMemoryBytes
  | .nextNode closedMemory nextSummary => do
      validateField "closed_memory" closedMemory maxMemoryBytes
      validateField "next_summary" nextSummary maxSummaryBytes
  | .spawn tasks terminalResults =>
      (SpawnReceipt.validateFor ⟨spineSpawnResultSchema, terminalResults⟩ tasks).mapErr .invalidSpawn

def validate (fact : ExecutedSpineFact) : Outcome ExecutedFactError Unit := do
  validateOrigin fact.origin
  validateOperation fact.operation
  let actualBytes := fact.toJson.byteSize
  .require (actualBytes ≤ maxExecutedFactPayloadBytes)
    (.payloadTooLarge maxExecutedFactPayloadBytes actualBytes)

end ExecutedSpineFact

end SpineCodex
