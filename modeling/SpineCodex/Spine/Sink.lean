import SpineCodex.Spine.Facts

/-!
# The fact sink of one sampling

Executions of a sampling reserve an ordinal, and complete or give up their permit; sealing
the sink returns the completed facts in admission order.  A poisoned lock needs a panic
inside the sink and is left out, as are the test-only ways to reserve.
-/

namespace SpineCodex

/-- `SamplingAttempt`. -/
structure SamplingAttempt where
  attemptId : SamplingAttemptId
  epoch : ContextEpoch
  preBoundary : BoundaryId
  deriving DecidableEq

inductive SpineFactKind where
  | deferred
  | openNode
  | closeNode
  | nextNode
  | spawn
  deriving Repr, DecidableEq

namespace SpineFactKind

def isExclusive : SpineFactKind → Bool
  | .openNode | .closeNode | .nextNode | .spawn => true
  | .deferred => false

def of : SpineOperationFact → SpineFactKind
  | .openNode _ => .openNode
  | .closeNode _ => .closeNode
  | .nextNode _ _ => .nextNode
  | .spawn _ _ => .spawn

end SpineFactKind

/-- `SpineFactReservation`. -/
structure SpineFactReservation where
  attemptId : SamplingAttemptId
  epoch : ContextEpoch
  executionId : ExecutionId
  ordinal : AdmissionOrdinal
  kind : SpineFactKind
  deriving DecidableEq

/-- `FactPermit`. -/
structure FactPermit where
  attemptId : SamplingAttemptId
  reservation : SpineFactReservation
  deriving DecidableEq

inductive SinkLifecycle where
  | opened
  | sealed
  | aborted
  | failed
  deriving Repr, DecidableEq

inductive SamplingError where
  | invalidAttemptScope
  | executionScopeMismatch
  | duplicateOrdinal (ordinal : AdmissionOrdinal)
  | duplicateExecution (execution : ExecutionId)
  | exclusiveConflict (existing rejected : AdmissionOrdinal)
  | permitAttemptMismatch
  | permitReservationMismatch
  | permitNotActive
  | factReservationMismatch (field : String)
  | invalidFact (error : ExecutedFactError)
  | pendingPermits (ordinals : List AdmissionOrdinal)
  | staleEpoch (expected actual : ContextEpoch)
  | transactionSealed
  | transactionAborted
  | transactionFailed
  deriving DecidableEq

/-- `SamplingAttempt::new`. -/
def SamplingAttempt.new (attemptId : SamplingAttemptId) (epoch : ContextEpoch)
    (preBoundary : BoundaryId) : Outcome SamplingError SamplingAttempt := do
  .require (attemptId.thread = preBoundary.thread ∧ preBoundary.epoch = epoch) .invalidAttemptScope
  pure ⟨attemptId, epoch, preBoundary⟩

/-- A map with ordinals as keys, listed in the order of the keys. -/
abbrev OrdinalMap (α : Type) := List (AdmissionOrdinal × α)

namespace OrdinalMap

def get {α : Type} (m : OrdinalMap α) (key : AdmissionOrdinal) : Option α :=
  (m.find? (·.1 == key)).map (·.2)

def remove {α : Type} (m : OrdinalMap α) (key : AdmissionOrdinal) : OrdinalMap α :=
  m.filter (·.1 != key)

def insert {α : Type} (m : OrdinalMap α) (key : AdmissionOrdinal) (value : α) : OrdinalMap α :=
  (remove m key).orderedInsert (fun a b ↦ a.1 ≤ b.1) (key, value)

end OrdinalMap

/-- `SamplingFactSink` with the `SinkState` behind its lock. -/
structure SamplingFactSink where
  attempt : SamplingAttempt
  lifecycle : SinkLifecycle
  active : OrdinalMap SpineFactReservation
  completed : OrdinalMap ExecutedSpineFact
  seenOrdinals : Finset AdmissionOrdinal
  seenExecutions : Finset ExecutionId
  exclusive : Option AdmissionOrdinal
  nextOrdinal : ℕ
  deriving DecidableEq

/-- `require_open`. -/
def SinkLifecycle.requireOpen : SinkLifecycle → Outcome SamplingError Unit
  | .opened => .ok ()
  | .sealed => .err .transactionSealed
  | .aborted => .err .transactionAborted
  | .failed => .err .transactionFailed

namespace SamplingFactSink

def new (attempt : SamplingAttempt) : SamplingFactSink where
  attempt := attempt
  lifecycle := .opened
  active := []
  completed := []
  seenOrdinals := ∅
  seenExecutions := ∅
  exclusive := none
  nextOrdinal := 0

/-- The sink after its transaction ended without facts. -/
def clear (s : SamplingFactSink) (lifecycle : SinkLifecycle) : SamplingFactSink :=
  { s with lifecycle := lifecycle, active := [], completed := [], exclusive := none }

/-- `fail_transaction`. -/
def failTransaction (s : SamplingFactSink) : SamplingFactSink := s.clear .failed

/-- A reservation that passed its checks enters the sink. -/
def enter (s : SamplingFactSink) (reservation : SpineFactReservation) :
    SamplingFactSink × Outcome SamplingError FactPermit :=
  ({ s with
      seenOrdinals := insert reservation.ordinal s.seenOrdinals
      seenExecutions := insert reservation.executionId s.seenExecutions
      exclusive := if reservation.kind.isExclusive then some reservation.ordinal else s.exclusive
      active := OrdinalMap.insert s.active reservation.ordinal reservation },
    .ok ⟨s.attempt.attemptId, reservation⟩)

/-- `reserve`. -/
def reserve (s : SamplingFactSink) (reservation : SpineFactReservation) :
    SamplingFactSink × Outcome SamplingError FactPermit :=
  match s.lifecycle.requireOpen with
  | .err e => (s, .err e)
  | .crash => (s, .crash)
  | .ok () =>
    if reservation.ordinal ∈ s.seenOrdinals then
      (s.failTransaction, .err (.duplicateOrdinal reservation.ordinal))
    else if reservation.executionId ∈ s.seenExecutions then
      (s.failTransaction, .err (.duplicateExecution reservation.executionId))
    else
      match s.exclusive with
      | some existing =>
          if reservation.kind.isExclusive then
            (s.failTransaction, .err (.exclusiveConflict existing reservation.ordinal))
          else s.enter reservation
      | none => s.enter reservation

/-- `reserve_execution`. -/
def reserveExecution (s : SamplingFactSink) (executionId : ExecutionId) :
    SamplingFactSink × Outcome SamplingError FactPermit :=
  if executionId.thread = s.attempt.attemptId.thread then
    { s with nextOrdinal := s.nextOrdinal + 1 }.reserve
      ⟨s.attempt.attemptId, s.attempt.epoch, executionId, s.nextOrdinal, .deferred⟩
  else (s, .err .executionScopeMismatch)

def requireMatchingPermit (s : SamplingFactSink) (permit : FactPermit) :
    Outcome SamplingError Unit := do
  .require (permit.attemptId = s.attempt.attemptId) .permitAttemptMismatch
  match OrdinalMap.get s.active permit.reservation.ordinal with
  | some reservation =>
      .require (reservation = permit.reservation) .permitReservationMismatch
  | none => .err .permitNotActive

def validateCompletion (s : SamplingFactSink) (permit : FactPermit) (fact : ExecutedSpineFact) :
    Outcome SamplingError Unit := do
  s.requireMatchingPermit permit
  fact.validate.mapErr .invalidFact
  .require (fact.executionId = permit.reservation.executionId)
    (.factReservationMismatch "execution_id")
  .require (fact.ordinal = permit.reservation.ordinal) (.factReservationMismatch "ordinal")
  .require (permit.reservation.kind = .deferred ∨
    SpineFactKind.of fact.operation = permit.reservation.kind) (.factReservationMismatch "kind")

/-- `complete`; an invalid completion fails the whole transaction. -/
def complete (s : SamplingFactSink) (permit : FactPermit) (fact : ExecutedSpineFact) :
    SamplingFactSink × Outcome SamplingError Unit :=
  match s.lifecycle.requireOpen with
  | .ok () =>
      match s.validateCompletion permit fact with
      | .ok () => ({ s with
          active := OrdinalMap.remove s.active permit.reservation.ordinal
          completed := OrdinalMap.insert s.completed permit.reservation.ordinal fact }, .ok ())
      | .err e => (s.failTransaction, .err e)
      | .crash => (s, .crash)
  | .err e => (s, .err e)
  | .crash => (s, .crash)

/-- `abort_permit`. -/
def abortPermit (s : SamplingFactSink) (permit : FactPermit) :
    SamplingFactSink × Outcome SamplingError Unit :=
  match s.lifecycle.requireOpen >>= fun _ ↦ s.requireMatchingPermit permit with
  | .ok () => ({ s with
      active := OrdinalMap.remove s.active permit.reservation.ordinal
      exclusive := if s.exclusive = some permit.reservation.ordinal then none else s.exclusive },
      .ok ())
  | .err e => (s, .err e)
  | .crash => (s, .crash)

def hasCompletedFacts (s : SamplingFactSink) : Bool := !s.completed.isEmpty

/-- `abort_transaction`, which is also `abort`. -/
def abortTransaction (s : SamplingFactSink) : SamplingFactSink × Outcome SamplingError Unit :=
  match s.lifecycle with
  | .opened | .failed => (s.clear .aborted, .ok ())
  | .aborted => (s, .ok ())
  | .sealed => (s, .err .transactionSealed)

/-- `seal`. -/
def sealFacts (s : SamplingFactSink) (currentEpoch : ContextEpoch) :
    SamplingFactSink × Outcome SamplingError (List ExecutedSpineFact) :=
  match s.lifecycle.requireOpen with
  | .ok () =>
    if currentEpoch ≠ s.attempt.epoch then
      (s.clear .aborted, .err (.staleEpoch s.attempt.epoch currentEpoch))
    else if s.active ≠ [] then
      (s.clear .aborted, .err (.pendingPermits (s.active.map (·.1))))
    else
      let facts := s.completed.map (·.2)
      match facts.filter fun fact ↦ (SpineFactKind.of fact.operation).isExclusive with
      | existing :: rejected :: _ =>
          (s.failTransaction, .err (.exclusiveConflict existing.ordinal rejected.ordinal))
      | _ => ({ s with lifecycle := .sealed }, .ok facts)
  | .err e => (s, .err e)
  | .crash => (s, .crash)

end SamplingFactSink

end SpineCodex
