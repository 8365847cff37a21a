import SpineCodex.Spine.Tools

/-!
# Spawn batches and their receipts

The tasks of a batch are parsed and every child's complete input is bounded before any child
starts.  A child ends with a result; the results of all children make the receipt, which is
validated as a whole.
-/

namespace SpineCodex

/-- `fmt` of `SpawnValidationError`. -/
def SpawnValidationError.display : SpawnValidationError → String
  | .tooFewTasks => "spine.spawn requires at least two tasks"
  | .tooManyTasks max actual =>
      "spine.spawn has " ++ toString actual ++ " tasks; maximum is " ++ toString max
  | .aggregateTooLarge phase maxBytes actualBytes =>
      "spine.spawn " ++ phase ++ " payload is " ++ toString actualBytes ++ " bytes; maximum is " ++
        toString maxBytes
  | .fieldTooLarge ordinal field maxBytes =>
      "spine.spawn item " ++ toString ordinal ++ " field " ++ field ++ " exceeds " ++
        toString maxBytes ++ " bytes"
  | .emptyTaskSummary ordinal =>
      "spine.spawn task " ++ toString ordinal ++ " requires a non-empty summary"
  | .emptyTaskPrompt ordinal =>
      "spine.spawn task " ++ toString ordinal ++ " requires a non-empty prompt"
  | .invalidSchema schema => "unsupported spine.spawn receipt schema `" ++ schema ++ "`"
  | .resultCount expected actual =>
      "spine.spawn receipt has " ++ toString actual ++ " results; expected " ++ toString expected
  | .resultOrdinal expected actual =>
      "spine.spawn receipt result ordinal " ++ toString actual ++ "; expected " ++ toString expected
  | .emptyMemory ordinal => "spine.spawn result " ++ toString ordinal ++ " requires non-empty memory"
  | .missingDiagnostic ordinal =>
      "spine.spawn non-completed result " ++ toString ordinal ++ " requires a diagnostic"
  | .emptyDiagnostic ordinal =>
      "spine.spawn result " ++ toString ordinal ++ " has an empty diagnostic"
  | .emptyExecutionRef ordinal =>
      "spine.spawn result " ++ toString ordinal ++ " has an empty execution_ref"

/-! ## The input of a child -/

def envelopeRole : String :=
  "You are a spawned execution branch. Your role is to complete exactly the assignment " ++
    "below and return bounded terminal memory to the spawning continuation.\n\n" ++
    "You are: "

def envelopePeers : String := "\n\nPeer branches in this spawn:\n"

def envelopeContract : String :=
  "\n\nThe assignment is already an active branch scope. Begin the assigned work directly. " ++
    "Use spine.open, spine.close, and spine.next only to manage genuine descendant work " ++
    "within this assignment.\n\n" ++
    "Executable work is defined by the assignment. Inherited context supplies constraints " ++
    "and evidence for that work.\n\n" ++
    "When the assignment declares a collaboration contract, follow its named root, peer " ++
    "roles, artifact format, update/read protocol, synchronization points, and bounded " ++
    "fallback. Inspect the coordination root before substantive work. Coordinate through it " ++
    "to minimize unnecessary duplicate work: respect assigned scopes, share reusable " ++
    "evidence early, and independently verify load-bearing or disputed claims. Within the " ++
    "coordination root, write only your declared single-writer artifact and read peer " ++
    "artifacts through the declared protocol, even when the investigated source and evidence " ++
    "are otherwise read-only. Unless the contract provides locking or atomic append, preserve " ++
    "your artifact append-only. Publish findings, conflicts, or requests useful to peers at " ++
    "the declared synchronization points. Before returning your final response, perform the " ++
    "declared final peer read and state which peer deltas you incorporated. Never write a " ++
    "peer artifact, let collaboration expand the assignment, make completion depend on peer " ++
    "state, or treat collaboration artifacts as correctness-critical evidence. If the root " ++
    "or peer state is unavailable or incomplete, use the declared bounded fallback; do not " ++
    "invent another coordination path.\n\n" ++
    "Other shared-workspace changes remain context for the assignment and do not add " ++
    "executable work. Production-file ownership and any integration responsibility remain " ++
    "exactly as declared in the assignment.\n\n" ++
    "Treat each <spine_tran_status> update as task-tree parser telemetry for this branch " ++
    "session. Across status updates, executable work remains defined by the assignment.\n\n" ++
    "Complete this branch by returning exactly one non-empty, tool-free assistant final " ++
    "response containing terminal memory. After returning it, execution ends.\n\n" ++
    "Assignment:\n"

/-- The summaries of the other branches, one on each line. -/
def peerRoster (identity : String) (callTasks : List SpawnTask) : String :=
  "\n".intercalate (((callTasks.map fun peer ↦ trim peer.summary).filter
    fun summary ↦ summary ≠ identity).map fun summary ↦ "- " ++ summary)

/-- `task_envelope`. -/
def taskEnvelope (task : SpawnTask) (callTasks : List SpawnTask) : String :=
  envelopeRole ++ trim task.summary ++ envelopePeers ++ peerRoster (trim task.summary) callTasks ++
    envelopeContract ++ task.prompt

def maxSpineModelItemWireBytes : ℕ := 9500

/-- The serialized provider value of one user message of one text, as
`spine_model_item_wire_bytes` builds it. -/
def userMessageValue (text : String) : Json :=
  .object [("input", .array [.object [
    ("content", .array [.object [("text", .string text), ("type", .string "input_text")]]),
    ("role", .string "user"), ("type", .string "message")]])]

/-- `validate_spine_model_item` of that message. -/
def validateUserMessage (text : String) : Outcome String Unit :=
  let wireBytes := (userMessageValue text).byteSize
  .require (wireBytes ≤ maxSpineModelItemWireBytes)
    ("Spine model provider value is " ++ toString wireBytes ++ " bytes; maximum is " ++
      toString maxSpineModelItemWireBytes)

/-- `validate_complete_child_inputs`. -/
def validateCompleteChildInputs (tasks : List SpawnTask) : Outcome String Unit :=
  tasks.zipIdx.forM fun (task, ordinal) ↦
    (validateUserMessage (taskEnvelope task tasks)).mapErr fun error ↦
      "spine.spawn task " ++ toString ordinal ++
        " produces an oversized child initial input: " ++ error

/-- The first ordinal and summary that an earlier task has as well. -/
def duplicateSummary? (summaries : List String) : ℕ → List SpawnTask → Option (ℕ × String)
  | _, [] => none
  | ordinal, task :: rest =>
      if trim task.summary ∈ summaries then some (ordinal, trim task.summary)
      else duplicateSummary? (trim task.summary :: summaries) (ordinal + 1) rest

/-- `parse_tasks`. -/
def parseTasks (parse : ToolArguments) (arguments : String) : Outcome String (List SpawnTask) := do
  match ← (validateTool parse .spawn arguments).mapErr ToolValidationError.display with
  | .transition (.spawn tasks) => do
      match duplicateSummary? [] 0 tasks with
      | some (ordinal, summary) =>
          .err ("spine.spawn task " ++ toString ordinal ++ " has duplicate summary `" ++ summary ++ "`")
      | none => do
          validateCompleteChildInputs tasks
          .ok tasks
  | _ => .err "spine.spawn validation returned an unexpected result"

/-! ## Results -/

/-- `ThreadId`, by its text: a hyphenated UUID. -/
structure ThreadId where
  text : String
  size : text.utf8ByteSize = 36
  visible : ¬Blank text
  deriving DecidableEq

inductive AgentStatus where
  | pendingInit
  | running
  | interrupted
  | completed (message : Option String)
  | errored (error : String)
  | shutdown
  | notFound
  deriving Repr, DecidableEq

/-- `error_result`. -/
def errorResult (ordinal : ℕ) (outcome : SpawnOutcome) (diagnostic : String)
    (executionRef : Option String) : SpawnResult :=
  ⟨ordinal, outcome, diagnostic, some diagnostic, executionRef⟩

/-- The debug text of the statuses that are not terminal. -/
def AgentStatus.debugName : AgentStatus → String
  | .pendingInit => "PendingInit"
  | .running => "Running"
  | _ => "Interrupted"

/-- `result_from_status`. -/
def resultFromStatus (ordinal : ℕ) (thread : ThreadId) : AgentStatus → SpawnResult
  | .completed (some memory) =>
      if Blank memory then
        errorResult ordinal .errored "child completed without a non-empty final memory" thread.text
      else ⟨ordinal, .completed, memory, none, thread.text⟩
  | .completed none =>
      errorResult ordinal .errored "child completed without a non-empty final memory" thread.text
  | .errored error => errorResult ordinal .errored ("child errored: " ++ error) thread.text
  | .shutdown =>
      errorResult ordinal .aborted "child shut down before returning final memory" thread.text
  | .notFound =>
      errorResult ordinal .errored "child was not found before returning final memory" thread.text
  | .pendingInit =>
      errorResult ordinal .aborted ("child did not reach a terminal status: " ++
        AgentStatus.pendingInit.debugName) thread.text
  | .running =>
      errorResult ordinal .aborted ("child did not reach a terminal status: " ++
        AgentStatus.running.debugName) thread.text
  | .interrupted =>
      errorResult ordinal .aborted ("child did not reach a terminal status: " ++
        AgentStatus.interrupted.debugName) thread.text

/-- Why a child has a result without having ended by itself. -/
inductive ChildFailure where
  | failedToStart (error : String)
  | siblingFailedToStart (thread : ThreadId)
  | cancelled (thread : Option ThreadId)
  | retryAdmissionFailed (error : String)
  | retryFailedToStart (error : String)
  | retrySiblingFailedToStart (thread : ThreadId)
  | threadUnavailable
  | cannotContinue (error : String) (thread : ThreadId)
  | continuationAdmissionFailed (error : String) (thread : ThreadId)
  | continuationFailedToStart (error : String) (thread : ThreadId)
  | lost
  deriving DecidableEq

namespace ChildFailure

def outcome : ChildFailure → SpawnOutcome
  | .siblingFailedToStart _ | .cancelled _ | .retrySiblingFailedToStart _ => .aborted
  | _ => .errored

def diagnostic : ChildFailure → String
  | .failedToStart error => "child failed to start: " ++ error
  | .siblingFailedToStart _ => "child aborted because another transaction child failed to start"
  | .cancelled _ => "branch aborted because the originating spine.spawn transaction was cancelled"
  | .retryAdmissionFailed error => "child retry admission failed: " ++ error
  | .retryFailedToStart error => "child retry failed to start: " ++ error
  | .retrySiblingFailedToStart _ =>
      "child retry aborted because another retry child failed to start"
  | .threadUnavailable => "child cannot continue because its thread is no longer available"
  | .cannotContinue error _ => "child cannot continue: " ++ error
  | .continuationAdmissionFailed error _ => "child continuation admission failed: " ++ error
  | .continuationFailedToStart error _ => "child continuation failed to start: " ++ error
  | .lost => "coordinator lost the child terminal result"

def thread? : ChildFailure → Option ThreadId
  | .siblingFailedToStart thread | .retrySiblingFailedToStart thread | .cannotContinue _ thread
  | .continuationAdmissionFailed _ thread | .continuationFailedToStart _ thread => some thread
  | .cancelled thread => thread
  | .failedToStart _ | .retryAdmissionFailed _ | .retryFailedToStart _ | .threadUnavailable
  | .lost => none

def result (failure : ChildFailure) (ordinal : ℕ) : SpawnResult :=
  errorResult ordinal failure.outcome failure.diagnostic (failure.thread?.map ThreadId.text)

end ChildFailure

/-- How a child of a transaction ended. -/
inductive ChildOutcome where
  | terminal (thread : ThreadId) (status : AgentStatus)
  | failed (failure : ChildFailure)
  deriving DecidableEq

def ChildOutcome.result (ordinal : ℕ) : ChildOutcome → SpawnResult
  | .terminal thread status => resultFromStatus ordinal thread status
  | .failed failure => failure.result ordinal

/-! ## Receipts -/

/-- `finish_receipt`. -/
def finishReceipt (tasks : List SpawnTask) (results : List (Option SpawnResult)) :
    Outcome String SpawnReceipt := do
  let receipt : SpawnReceipt := ⟨spineSpawnResultSchema, results.zipIdx.map fun (result, ordinal) ↦
    result.getD (ChildFailure.lost.result ordinal)⟩
  (receipt.validateFor tasks).mapErr fun error ↦
    "spine.spawn produced an invalid receipt: " ++ error.display
  .ok receipt

/-- The diagnostic of a task that was not started for lack of capacity. -/
def capacityDiagnostic (taskCount maxThreads ordinal : ℕ) (summary : String) : String :=
  "spine.spawn task " ++ toString (ordinal + 1) ++ "/" ++ toString taskCount ++ " (`" ++ summary ++
  "`) was not started: aggregate " ++
  "admission requested " ++ toString taskCount ++
  " child agents, but shared capacity was unavailable " ++
  "under the configured limit of " ++ toString maxThreads ++ " concurrent child agents. Admission is " ++
  "all-or-nothing, so no child agents from this batch were created."

/-- `capacity_rejection_receipt`. -/
def capacityRejectionReceipt (tasks : List SpawnTask) (maxThreads : ℕ) :
    Outcome String SpawnReceipt :=
  finishReceipt tasks (tasks.zipIdx.map fun (task, ordinal) ↦
    some (errorResult ordinal .errored
      (capacityDiagnostic tasks.length maxThreads ordinal task.summary) none))

end SpineCodex
