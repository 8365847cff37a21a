import SpineCodex.Lib.Updates
import SpineCodex.Spawn.Results

/-!
# Recovery of a spawn transaction

The children of a batch are started together and awaited together.  When some of them end
without a result, the user may continue them, start them again or give them up, and the
transaction waits once more.  Every answer of the agent runtime and of the user is a
parameter: a round is a function of what the runtime and the user answer during it.

Each loop of the source over ordinals runs over distinct ordinals, so that it is written
here as one update with a list of entries.
-/

namespace SpineCodex

/-- `is_spawn_terminal`. -/
def AgentStatus.isSpawnTerminal : AgentStatus → Bool
  | .pendingInit | .running => false
  | _ => true

/-! ## What the runtime and the user answer -/

/-- `SpawnFailureAction`. -/
inductive SpawnFailureAction where
  | continueBranches
  | retryBranches
  | abandon
  deriving Repr, DecidableEq

/-- The end of `wait_for_attempts`: all awaited children ended, or the wait was cancelled
and the status of each awaited child is read once. -/
inductive WaitOutcome where
  | terminal (status : ℕ → AgentStatus)
  | cancelled (status : ℕ → AgentStatus)

inductive GateOutcome where
  | cancelled
  | dismissed
  | chosen (action : SpawnFailureAction)
  deriving Repr, DecidableEq

/-- The errors met by `continue_failed_branches`, by ordinal where they are. -/
structure ContinueAnswers where
  subscribe : ℕ → Option String
  reserve : Option String
  send : ℕ → Option String

/-- The errors and cancellations met by a retry, and the starts of its children. -/
structure RetryAnswers where
  teardown : Option String
  cancelledBeforeRequests : Bool
  requests : Option String
  prepare : Option String
  cancelledBeforeStart : Bool
  starts : List (Except String ThreadId)
  liveTeardown : Option String

structure RoundAnswers where
  wait : WaitOutcome
  gate : GateOutcome
  continued : ContinueAnswers
  retried : RetryAnswers

/-- The end of `prepare_agent_spawn_batch` for the whole batch. -/
inductive Admission where
  | limitReached (maxThreads : ℕ)
  | failed (error : String)
  | prepared (count : ℕ)
  deriving Repr, DecidableEq

structure TransactionAnswers where
  admission : Admission
  cancelledBeforeStart : Bool
  start : ℕ → Except String ThreadId
  startTeardown : Option String
  rounds : List RoundAnswers
  teardown : Option String

/-! ## The state of the loop -/

/-- The variables of `finish_transaction`, with the threads that were started, the threads
that were handed to teardown and the results as they stood after each wait. -/
structure RecoveryState where
  results : List (Option SpawnResult)
  currentThreadIds : List (Option ThreadId)
  waits : List (ℕ × ThreadId)
  started : List ThreadId
  tornDown : List ThreadId
  waited : List (List (Option SpawnResult))

/-- How a round leaves the loop, if it does. -/
inductive RoundEnd where
  | again
  | done
  | cancelled
  | gateCancelled
  | fatal (error : String)
  deriving Repr, DecidableEq

/-- `teardown_transaction_children`: nothing is asked of the runtime for no threads. -/
def teardownError (threads : List ThreadId) (error : Option String) : Option String :=
  if threads.isEmpty then none else error.map ("spine.spawn child teardown failed: " ++ ·)

namespace RecoveryState

def settle (s : RecoveryState) (entries : List (ℕ × SpawnResult)) : RecoveryState :=
  { s with results := setAll s.results (entries.map fun (ordinal, result) ↦ (ordinal, some result)) }

def fail (s : RecoveryState) (failures : List (ℕ × ChildFailure)) : RecoveryState :=
  s.settle (failures.map fun (ordinal, failure) ↦ (ordinal, failure.result ordinal))

/-- The children whose next end the loop waits for have no result. -/
def await (s : RecoveryState) (waits : List (ℕ × ThreadId)) : RecoveryState :=
  { s with
    results := setAll s.results (waits.map fun (ordinal, _) ↦ (ordinal, none))
    waits }

def thread? (s : RecoveryState) (ordinal : ℕ) : Option ThreadId :=
  (s.currentThreadIds[ordinal]?).join

def setThreads (s : RecoveryState) (threads : List (ℕ × Option ThreadId)) : RecoveryState :=
  { s with currentThreadIds := setAll s.currentThreadIds threads }

def handToTeardown (s : RecoveryState) (threads : List ThreadId) : RecoveryState :=
  { s with tornDown := s.tornDown ++ threads }

/-- `failed_ordinals`. -/
def failedOrdinals (s : RecoveryState) : List ℕ :=
  (s.results.zipIdx.filter fun (result, _) ↦ result.any (·.outcome ≠ .completed)).map Prod.snd

end RecoveryState

/-- The result of an awaited child. -/
def WaitOutcome.result : WaitOutcome → ℕ → ThreadId → SpawnResult
  | .terminal status, ordinal, thread => resultFromStatus ordinal thread (status ordinal)
  | .cancelled status, ordinal, thread =>
      if (status ordinal).isSpawnTerminal then resultFromStatus ordinal thread (status ordinal)
      else (ChildFailure.cancelled (some thread)).result ordinal

/-- The children that a list of starts brought up. -/
def liveStarts (starts : List (ℕ × Except String ThreadId)) : List (ℕ × ThreadId) :=
  starts.filterMap fun (ordinal, start) ↦ match start with
    | .ok thread => some (ordinal, thread)
    | .error _ => none

/-- The errors of the starts that failed. -/
def startErrors (starts : List (ℕ × Except String ThreadId)) : List (ℕ × String) :=
  starts.filterMap fun (ordinal, start) ↦ match start with
    | .ok _ => none
    | .error error => some (ordinal, error)

namespace RecoveryState

/-- The results of the awaited children are stored. -/
def merge (s : RecoveryState) (wait : WaitOutcome) : RecoveryState :=
  let s := s.settle (s.waits.map fun (ordinal, thread) ↦ (ordinal, wait.result ordinal thread))
  { s with waited := s.waited ++ [s.results] }

/-- `continue_failed_branches`. -/
def continueFailedBranches (s : RecoveryState) (answers : ContinueAnswers) : RecoveryState :=
  let failedOrdinals := s.failedOrdinals
  let pending := failedOrdinals.filterMap fun ordinal ↦
    match s.thread? ordinal, answers.subscribe ordinal with
    | some thread, none => some (ordinal, thread)
    | _, _ => none
  let s := s.fail (failedOrdinals.filterMap fun ordinal ↦
    match s.thread? ordinal, answers.subscribe ordinal with
    | none, _ => some (ordinal, .threadUnavailable)
    | some thread, some error => some (ordinal, .cannotContinue error thread)
    | some _, none => none)
  match answers.reserve with
  | some error =>
      { s.fail (pending.map fun (ordinal, thread) ↦
          (ordinal, .continuationAdmissionFailed error thread)) with waits := [] }
  | none =>
      let s := s.fail (pending.filterMap fun (ordinal, thread) ↦
        (answers.send ordinal).map fun error ↦
          (ordinal, .continuationFailedToStart error thread))
      s.await (pending.filter fun (ordinal, _) ↦ (answers.send ordinal).isNone)

/-- The end of a retry, once its children were asked to start. -/
def retryStarted (s : RecoveryState) (answers : RetryAnswers)
    (starts : List (ℕ × Except String ThreadId)) : RecoveryState × RoundEnd :=
  let retryLive := liveStarts starts
  let liveIds := retryLive.map Prod.snd
  let s := (s.fail ((startErrors starts).map fun (ordinal, error) ↦
    (ordinal, .retryFailedToStart error))).setThreads
      (retryLive.map fun (ordinal, thread) ↦ (ordinal, some thread))
  let s := { s with started := s.started ++ liveIds }
  if (startErrors starts).isEmpty then (s.await retryLive, .again)
  else
    let s := s.handToTeardown liveIds
    match teardownError liveIds answers.liveTeardown with
    | some error => (s, .fatal error)
    | none =>
        let s := (s.fail (retryLive.map fun (ordinal, thread) ↦
          (ordinal, .retrySiblingFailedToStart thread))).setThreads
            (retryLive.map fun (ordinal, _) ↦ (ordinal, none))
        ({ s with waits := [] }, .again)

/-- The branch of the loop in which the failed children are started again. -/
def retryFailedBranches (s : RecoveryState) (answers : RetryAnswers) : RecoveryState × RoundEnd :=
  let failedOrdinals := s.failedOrdinals
  let retryThreadIds := failedOrdinals.filterMap s.thread?
  let s := s.handToTeardown retryThreadIds
  match teardownError retryThreadIds answers.teardown with
  | some error => (s, .fatal error)
  | none =>
      let s := s.setThreads (failedOrdinals.map fun ordinal ↦ (ordinal, none))
      if answers.cancelledBeforeRequests then (s, .cancelled)
      else match answers.requests with
        | some error => (s, .fatal error)
        | none => match answers.prepare with
          | some error =>
              ({ s.fail (failedOrdinals.map fun ordinal ↦
                  (ordinal, .retryAdmissionFailed error)) with waits := [] }, .again)
          | none =>
              if answers.cancelledBeforeStart then (s, .cancelled)
              else s.retryStarted answers (failedOrdinals.zip answers.starts)

/-- The body of the loop of `finish_transaction`. -/
def round (failureGateEnabled : Bool) (s : RecoveryState) (answers : RoundAnswers) :
    RecoveryState × RoundEnd :=
  let s := s.merge answers.wait
  match answers.wait with
  | .cancelled _ => (s, .cancelled)
  | .terminal _ =>
      if s.failedOrdinals.isEmpty || !failureGateEnabled then (s, .done)
      else match answers.gate with
        | .cancelled => (s, .cancelled)
        | .dismissed => (s, .gateCancelled)
        | .chosen .abandon => (s, .done)
        | .chosen .continueBranches => (s.continueFailedBranches answers.continued, .again)
        | .chosen .retryBranches => s.retryFailedBranches answers.retried

/-- The loop, for as many rounds as there are answers. -/
def rounds (failureGateEnabled : Bool) : List RoundAnswers → RecoveryState →
    RecoveryState × RoundEnd
  | [], s => (s, .again)
  | answers :: rest, s =>
      match s.round failureGateEnabled answers with
      | (s, .again) => rounds failureGateEnabled rest s
      | (s, stop) => (s, stop)

/-- Branches without a result are aborted when the transaction is cancelled. -/
def abortOpen (s : RecoveryState) : RecoveryState :=
  s.fail (s.results.zipIdx.filterMap fun (result, ordinal) ↦
    if result.isNone then some (ordinal, .cancelled (s.thread? ordinal)) else none)

end RecoveryState

/-! ## The transaction -/

/-- A transaction that returned. -/
structure TransactionEnd where
  started : List ThreadId
  tornDown : List ThreadId
  waited : List (List (Option SpawnResult))
  outcome : Outcome String SpawnReceipt

def RecoveryState.return (s : RecoveryState) (outcome : Outcome String SpawnReceipt) :
    TransactionEnd :=
  ⟨s.started, s.tornDown, s.waited, outcome⟩

/-- What follows the loop of `finish_transaction`. -/
def RecoveryState.finish (tasks : List SpawnTask) (teardown : Option String) (s : RecoveryState) :
    RoundEnd → Option TransactionEnd
  | .again => none
  | stop =>
      let s := if stop = .cancelled then s.abortOpen else s
      let childThreadIds := s.currentThreadIds.filterMap id
      let s := s.handToTeardown childThreadIds
      let cleanup := teardownError childThreadIds teardown
      some <| s.return <| match stop, cleanup with
        | .fatal error, none => .err error
        | .fatal error, some cleanupError => .err (error ++ "; cleanup failed: " ++ cleanupError)
        | _, some error => .err error
        | .gateCancelled, none =>
            .err "spine.spawn failure gate was cancelled without a selection"
        | _, none => finishReceipt tasks s.results

/-- `classify_start_results`, with the threads of the children that are up. -/
def startPhase (starts : List (ℕ × Except String ThreadId)) : RecoveryState :=
  let live := liveStarts starts
  let s : RecoveryState := ⟨starts.map fun _ ↦ none, starts.map fun _ ↦ none, live,
    live.map Prod.snd, [], []⟩
  (s.fail ((startErrors starts).map fun (ordinal, error) ↦
    (ordinal, .failedToStart error))).setThreads
      (live.map fun (ordinal, thread) ↦ (ordinal, some thread))

/-- `execute_transaction` from the admission of the batch on; `none` while the answers it
has do not end its loop. -/
def executeTransaction (tasks : List SpawnTask) (failureGateEnabled : Bool)
    (answers : TransactionAnswers) : Option TransactionEnd :=
  let refused outcome : Option TransactionEnd := some ⟨[], [], [], outcome⟩
  match answers.admission with
  | .limitReached maxThreads => refused (capacityRejectionReceipt tasks maxThreads)
  | .failed error => refused (.err ("spine.spawn admission failed: " ++ error))
  | .prepared count =>
      if count ≠ tasks.length then
        refused (.err ("spine.spawn admission prepared " ++ toString count ++ " of " ++
          toString tasks.length ++ " children"))
      else if answers.cancelledBeforeStart then
        refused (.err "spine.spawn was cancelled before child creation")
      else
        let starts := (List.range tasks.length).map fun ordinal ↦ (ordinal, answers.start ordinal)
        let s := startPhase starts
        if (startErrors starts).isEmpty then
          let (s, stop) := s.rounds failureGateEnabled answers.rounds
          s.finish tasks answers.teardown stop
        else
          let live := liveStarts starts
          let s := s.handToTeardown (live.map Prod.snd)
          match teardownError (live.map Prod.snd) answers.startTeardown with
          | some error => some (s.return (.err error))
          | none =>
              let s := s.fail (live.map fun (ordinal, thread) ↦
                (ordinal, .siblingFailedToStart thread))
              some (s.return (finishReceipt tasks s.results))

end SpineCodex
