import SpineCodex.Spine.Sink

/-!
# Calls of the fact sink

Tool executions share one sink, and every call holds its lock.  A run of the sink is
therefore a list of calls in any order, and its trace pairs each call with its reply.
-/

namespace SpineCodex

/-! ## Maps with ordinals as keys -/

namespace OrdinalMap

variable {α : Type} {m : OrdinalMap α} {key : AdmissionOrdinal} {value : α}

theorem mem_of_get (h : get m key = some value) : (key, value) ∈ m := by
  obtain ⟨entry, hfind, rfl⟩ := Option.map_eq_some_iff.mp h
  have hkey : entry.1 = key := by simpa using List.find?_some hfind
  have hmem := List.mem_of_find?_eq_some hfind
  rw [← hkey]
  exact hmem

theorem mem_remove {entry : AdmissionOrdinal × α} :
    entry ∈ remove m key ↔ entry ∈ m ∧ entry.1 ≠ key := by
  simp [remove]

theorem remove_eq_self (h : key ∉ m.map Prod.fst) : remove m key = m := by
  rw [remove, List.filter_eq_self]
  intro entry hentry
  have hne : entry.1 ≠ key := fun heq ↦ h (heq ▸ List.mem_map_of_mem hentry)
  simpa using hne

theorem insert_perm (h : key ∉ m.map Prod.fst) : (insert m key value).Perm ((key, value) :: m) := by
  rw [insert, remove_eq_self h]
  exact List.perm_orderedInsert _ _ _

theorem mem_insert {entry : AdmissionOrdinal × α} :
    entry ∈ insert m key value ↔ entry = (key, value) ∨ (entry ∈ m ∧ entry.1 ≠ key) := by
  rw [insert, List.mem_orderedInsert, mem_remove]

theorem keys_orderedInsert (entries : OrdinalMap α)
    (h : (entries.map Prod.fst).Pairwise (· < ·)) (hkey : key ∉ entries.map Prod.fst) :
    ((entries.orderedInsert (fun a b ↦ a.1 ≤ b.1) (key, value)).map Prod.fst).Pairwise (· < ·) := by
  induction entries with
  | nil => simp
  | cons entry rest ih =>
    rw [List.map_cons, List.pairwise_cons] at h
    rw [List.map_cons, List.mem_cons, not_or] at hkey
    rw [List.orderedInsert_cons]
    split_ifs with hle
    · have hlt : key < entry.1 := lt_of_le_of_ne hle hkey.1
      rw [List.map_cons, List.map_cons, List.pairwise_cons, List.pairwise_cons]
      refine ⟨?_, h⟩
      intro other hother
      rcases List.mem_cons.mp hother with rfl | hrest
      · exact hlt
      · exact hlt.trans (h.1 other hrest)
    · rw [List.map_cons, List.pairwise_cons]
      refine ⟨?_, ih h.2 hkey.2⟩
      intro other hother
      obtain ⟨found, hfound, rfl⟩ := List.mem_map.mp hother
      rcases (List.mem_orderedInsert _).mp hfound with rfl | hrest
      · exact Nat.lt_of_not_le hle
      · exact h.1 _ (List.mem_map_of_mem hrest)

theorem keys_insert (h : (m.map Prod.fst).Pairwise (· < ·)) (hkey : key ∉ m.map Prod.fst) :
    ((insert m key value).map Prod.fst).Pairwise (· < ·) := by
  rw [insert, remove_eq_self hkey]
  exact keys_orderedInsert m h hkey

end OrdinalMap

/-! ## Calls and replies -/

/-- One call of the sink. -/
inductive SinkCall where
  | reserveExecution (executionId : ExecutionId)
  | complete (permit : FactPermit) (fact : ExecutedSpineFact)
  | abortPermit (permit : FactPermit)
  | abort
  | sealFacts (currentEpoch : ContextEpoch)
  deriving DecidableEq

/-- What a call returns. -/
inductive SinkReply where
  | permit (permit : FactPermit)
  | done
  | facts (facts : List ExecutedSpineFact)
  | error (error : SamplingError)
  | crash
  deriving DecidableEq

/-- The reply for a result whose value is reported by `f`. -/
def SinkReply.of {α : Type} (f : α → SinkReply) : Outcome SamplingError α → SinkReply
  | .ok value => f value
  | .err e => .error e
  | .crash => .crash

abbrev SinkTrace := List (SinkCall × SinkReply)

namespace SinkTrace

/-- The permits that were handed out. -/
def reserved (trace : SinkTrace) : List FactPermit :=
  trace.filterMap fun
    | (_, .permit permit) => some permit
    | _ => none

/-- The completions that were accepted. -/
def completions (trace : SinkTrace) : List (FactPermit × ExecutedSpineFact) :=
  trace.filterMap fun
    | (.complete permit fact, .done) => some (permit, fact)
    | _ => none

/-- The permits that were given up. -/
def abortedPermits (trace : SinkTrace) : List FactPermit :=
  trace.filterMap fun
    | (.abortPermit permit, .done) => some permit
    | _ => none

/-- The permits that were used, completed ones first. -/
def consumed (trace : SinkTrace) : List FactPermit :=
  (completions trace).map Prod.fst ++ abortedPermits trace

theorem reserved_append (xs ys : SinkTrace) : reserved (xs ++ ys) = reserved xs ++ reserved ys :=
  List.filterMap_append

theorem completions_append (xs ys : SinkTrace) :
    completions (xs ++ ys) = completions xs ++ completions ys := List.filterMap_append

theorem abortedPermits_append (xs ys : SinkTrace) :
    abortedPermits (xs ++ ys) = abortedPermits xs ++ abortedPermits ys := List.filterMap_append

/-- Permits are used one after the other. -/
theorem consumed_append_perm (xs ys : SinkTrace) :
    (consumed (xs ++ ys)).Perm (consumed xs ++ consumed ys) := by
  rw [consumed, completions_append, abortedPermits_append, List.map_append, consumed, consumed]
  simp only [List.append_assoc]
  apply List.Perm.append_left
  exact List.perm_append_comm_assoc _ _ _

theorem mem_consumed_append {xs ys : SinkTrace} {p : FactPermit} :
    p ∈ consumed (xs ++ ys) ↔ p ∈ consumed xs ∨ p ∈ consumed ys := by
  simp only [consumed, completions_append, abortedPermits_append, List.map_append, List.mem_append]
  tauto

/-- The fact lists that were sealed. -/
def sealedFacts (trace : SinkTrace) : List (List ExecutedSpineFact) :=
  trace.filterMap fun
    | (_, .facts facts) => some facts
    | _ => none

/-- A call after which the transaction is over: a seal or an abort with any reply, a failed
completion, and a reservation that was made before. -/
def Closes : SinkCall × SinkReply → Prop
  | (.sealFacts _, _) | (.abort, _) | (.complete _ _, .error _)
  | (.reserveExecution _, .error (.duplicateOrdinal _))
  | (.reserveExecution _, .error (.duplicateExecution _)) => True
  | _ => False

end SinkTrace

open SinkTrace

namespace SamplingFactSink

def call (s : SamplingFactSink) : SinkCall → SamplingFactSink × SinkReply
  | .reserveExecution executionId =>
      ((s.reserveExecution executionId).1, .of .permit (s.reserveExecution executionId).2)
  | .complete permit fact =>
      ((s.complete permit fact).1, .of (fun _ ↦ .done) (s.complete permit fact).2)
  | .abortPermit permit => ((s.abortPermit permit).1, .of (fun _ ↦ .done) (s.abortPermit permit).2)
  | .abort => (s.abortTransaction.1, .of (fun _ ↦ .done) s.abortTransaction.2)
  | .sealFacts currentEpoch =>
      ((s.sealFacts currentEpoch).1, .of .facts (s.sealFacts currentEpoch).2)

/-- The sink and the trace after some calls. -/
def run (s : SamplingFactSink) : List SinkCall → SamplingFactSink × SinkTrace
  | [] => (s, [])
  | call :: rest =>
      (((s.call call).1.run rest).1, (call, (s.call call).2) :: ((s.call call).1.run rest).2)

end SamplingFactSink

/-! ## Validation never aborts -/

theorem validateField_ne_crash (field value : String) (maxBytes : ℕ) :
    validateField field value maxBytes ≠ .crash :=
  Outcome.bind_ne_crash Outcome.require_ne_crash fun _ ↦ Outcome.require_ne_crash

theorem SpawnReceipt.validateResult_ne_crash (expected : ℕ) (result : SpawnResult) :
    validateResult expected result ≠ .crash := by
  apply Outcome.bind_ne_crash Outcome.require_ne_crash
  intro _
  apply Outcome.bind_ne_crash Outcome.require_ne_crash
  intro _
  apply Outcome.bind_ne_crash Outcome.require_ne_crash
  intro _
  apply Outcome.bind_ne_crash
  · unfold validateDiagnostic
    split
    · exact Outcome.require_ne_crash
    · exact Outcome.bind_ne_crash Outcome.require_ne_crash fun _ ↦ Outcome.require_ne_crash
  · intro _
    unfold validateExecutionRef
    split
    · simp
    · exact Outcome.bind_ne_crash Outcome.require_ne_crash fun _ ↦ Outcome.require_ne_crash

theorem SpawnReceipt.validateFor_ne_crash (receipt : SpawnReceipt) (tasks : List SpawnTask) :
    receipt.validateFor tasks ≠ .crash := by
  apply Outcome.bind_ne_crash Outcome.require_ne_crash
  intro _
  apply Outcome.bind_ne_crash Outcome.require_ne_crash
  intro _
  apply Outcome.bind_ne_crash
  · apply Outcome.forM_ne_crash
    intro entry
    apply Outcome.bind_ne_crash Outcome.require_ne_crash
    intro _
    apply Outcome.bind_ne_crash Outcome.require_ne_crash
    intro _
    exact Outcome.bind_ne_crash Outcome.require_ne_crash fun _ ↦ Outcome.require_ne_crash
  intro _
  apply Outcome.bind_ne_crash Outcome.require_ne_crash
  intro _
  apply Outcome.bind_ne_crash Outcome.require_ne_crash
  intro _
  apply Outcome.bind_ne_crash Outcome.require_ne_crash
  intro _
  apply Outcome.bind_ne_crash
  · apply Outcome.forM_ne_crash
    rintro ⟨result, expected⟩
    exact validateResult_ne_crash expected result
  · exact fun _ ↦ Outcome.require_ne_crash

theorem ExecutedSpineFact.validate_ne_crash (fact : ExecutedSpineFact) : fact.validate ≠ .crash := by
  apply Outcome.bind_ne_crash
  · cases fact.origin with
    | direct executionRef => exact validateField_ne_crash _ _ _
  intro _
  apply Outcome.bind_ne_crash
  · cases fact.operation with
    | openNode summary => exact validateField_ne_crash _ _ _
    | closeNode memory => exact validateField_ne_crash _ _ _
    | nextNode closedMemory nextSummary =>
      exact Outcome.bind_ne_crash (validateField_ne_crash _ _ _) fun _ ↦ validateField_ne_crash _ _ _
    | spawn tasks results =>
      simpa [validateOperation] using SpawnReceipt.validateFor_ne_crash _ _
  · exact fun _ ↦ Outcome.require_ne_crash

/-! ## What one call can do -/

namespace SamplingFactSink

/-- The permit that the next reservation of an execution gets. -/
def nextPermit (s : SamplingFactSink) (executionId : ExecutionId) : FactPermit :=
  ⟨s.attempt.attemptId, s.attempt.attemptId, s.attempt.epoch, executionId, s.nextOrdinal, .deferred⟩

/-- The effects of a call on a sink. -/
inductive CallCase (s : SamplingFactSink) : SinkCall → SamplingFactSink → SinkReply → Prop
  | reserved {executionId : ExecutionId} (hopen : s.lifecycle = .opened) :
      CallCase s (.reserveExecution executionId) { s with
        seenOrdinals := insert s.nextOrdinal s.seenOrdinals
        seenExecutions := insert executionId s.seenExecutions
        active := OrdinalMap.insert s.active s.nextOrdinal (s.nextPermit executionId).reservation
        nextOrdinal := s.nextOrdinal + 1 } (.permit (s.nextPermit executionId))
  | completed {permit : FactPermit} {fact : ExecutedSpineFact} (hopen : s.lifecycle = .opened)
      (hvalid : s.validateCompletion permit fact = .ok ()) :
      CallCase s (.complete permit fact) { s with
        active := OrdinalMap.remove s.active permit.reservation.ordinal
        completed := OrdinalMap.insert s.completed permit.reservation.ordinal fact } .done
  | permitAborted {permit : FactPermit} {exclusive : Option AdmissionOrdinal}
      (hopen : s.lifecycle = .opened) (hmatch : s.requireMatchingPermit permit = .ok ()) :
      CallCase s (.abortPermit permit) { s with
        active := OrdinalMap.remove s.active permit.reservation.ordinal
        exclusive := exclusive } .done
  | sealed {currentEpoch : ContextEpoch} (hopen : s.lifecycle = .opened) (hactive : s.active = [])
      (hexclusive : ((s.completed.map Prod.snd).filter
        fun fact ↦ (SpineFactKind.of fact.operation).isExclusive).length ≤ 1) :
      CallCase s (.sealFacts currentEpoch) { s with lifecycle := .sealed }
        (.facts (s.completed.map Prod.snd))
  | refused {call : SinkCall} {e : SamplingError} (hstays : ¬Closes (call, .error e)) :
      CallCase s call s (.error e)
  | aborted {s' : SamplingFactSink} (hattempt : s'.attempt = s.attempt)
      (hnext : s'.nextOrdinal = s.nextOrdinal) (hclosed : s'.lifecycle ≠ .opened) :
      CallCase s .abort s' .done
  | ended {call : SinkCall} {s' : SamplingFactSink} {e : SamplingError}
      (hattempt : s'.attempt = s.attempt) (hle : s.nextOrdinal ≤ s'.nextOrdinal)
      (hclosed : s'.lifecycle ≠ .opened) : CallCase s call s' (.error e)

theorem requireOpen_eq_ok {lifecycle : SinkLifecycle} {u : Unit} :
    lifecycle.requireOpen = .ok u ↔ lifecycle = .opened := by
  cases lifecycle <;> simp [SinkLifecycle.requireOpen]

theorem requireOpen_of_open {lifecycle : SinkLifecycle} (h : lifecycle = .opened) :
    lifecycle.requireOpen = .ok () := requireOpen_eq_ok.mpr h

theorem requireOpen_of_closed {lifecycle : SinkLifecycle} (h : lifecycle ≠ .opened) :
    ∃ e, lifecycle.requireOpen = .err e := by
  cases lifecycle <;> simp_all [SinkLifecycle.requireOpen]

theorem requireMatchingPermit_ne_crash (s : SamplingFactSink) (permit : FactPermit) :
    s.requireMatchingPermit permit ≠ .crash := by
  intro h
  rcases Outcome.bind_eq_crash.mp h with hcrash | ⟨_, -, hrest⟩
  · exact Outcome.require_ne_crash hcrash
  · split at hrest
    · exact Outcome.require_ne_crash hrest
    · simp at hrest

theorem reserveExecution_case (s : SamplingFactSink) (executionId : ExecutionId) :
    CallCase s (.reserveExecution executionId) (s.reserveExecution executionId).1
      (.of .permit (s.reserveExecution executionId).2) := by
  unfold reserveExecution
  split_ifs with hthread
  · unfold reserve
    dsimp only
    by_cases hopen : s.lifecycle = .opened
    · rw [requireOpen_of_open hopen]
      dsimp only
      split_ifs with hordinal hexecution hexclusive
      · exact .ended rfl (Nat.le_succ _) (by simp [failTransaction, clear])
      · exact .ended rfl (Nat.le_succ _) (by simp [failTransaction, clear])
      · simp [SpineFactKind.isExclusive] at hexclusive
      · have henter : CallCase s (.reserveExecution executionId) _ _ := .reserved hopen
        split <;> exact henter
    · obtain ⟨e, he⟩ := requireOpen_of_closed hopen
      rw [he]
      exact .ended rfl (Nat.le_succ _) hopen
  · exact .refused (by simp [Closes])

theorem validateCompletion_ne_crash (s : SamplingFactSink) (permit : FactPermit)
    (fact : ExecutedSpineFact) : s.validateCompletion permit fact ≠ .crash := by
  intro h
  unfold validateCompletion at h
  simp only [Outcome.bind_eq_crash, Outcome.mapErr_eq_crash, Outcome.require_ne_crash, false_or,
    and_false, exists_false, or_false, requireMatchingPermit_ne_crash] at h
  obtain ⟨_, -, h⟩ := h
  exact fact.validate_ne_crash h

theorem complete_case (s : SamplingFactSink) (permit : FactPermit) (fact : ExecutedSpineFact) :
    CallCase s (.complete permit fact) (s.complete permit fact).1
      (.of (fun _ ↦ .done) (s.complete permit fact).2) := by
  unfold complete
  by_cases hopen : s.lifecycle = .opened
  · rw [requireOpen_of_open hopen]
    dsimp only
    cases hvalid : s.validateCompletion permit fact with
    | ok u => exact .completed hopen hvalid
    | err e => exact .ended rfl (le_refl _) (by simp [failTransaction, clear])
    | crash => exact absurd hvalid (s.validateCompletion_ne_crash permit fact)
  · obtain ⟨e, he⟩ := requireOpen_of_closed hopen
    rw [he]
    exact .ended rfl (le_refl _) hopen

theorem abortPermit_case (s : SamplingFactSink) (permit : FactPermit) :
    CallCase s (.abortPermit permit) (s.abortPermit permit).1
      (.of (fun _ ↦ .done) (s.abortPermit permit).2) := by
  unfold abortPermit
  by_cases hopen : s.lifecycle = .opened
  · rw [requireOpen_of_open hopen, Outcome.ok_bind]
    cases hmatch : s.requireMatchingPermit permit with
    | ok u => exact .permitAborted hopen hmatch
    | err e => exact .refused (by simp [Closes])
    | crash => exact absurd hmatch (s.requireMatchingPermit_ne_crash permit)
  · obtain ⟨e, he⟩ := requireOpen_of_closed hopen
    rw [he, Outcome.err_bind]
    exact .ended rfl (le_refl _) hopen

theorem abort_case (s : SamplingFactSink) :
    CallCase s .abort s.abortTransaction.1 (.of (fun _ ↦ .done) s.abortTransaction.2) := by
  unfold abortTransaction
  cases hlifecycle : s.lifecycle with
  | opened => exact .aborted rfl rfl (by simp [clear])
  | failed => exact .aborted rfl rfl (by simp [clear])
  | aborted => exact .aborted rfl rfl (by simp [hlifecycle])
  | sealed => exact .ended rfl (le_refl _) (by simp [hlifecycle])

theorem sealFacts_case (s : SamplingFactSink) (currentEpoch : ContextEpoch) :
    CallCase s (.sealFacts currentEpoch) (s.sealFacts currentEpoch).1
      (.of .facts (s.sealFacts currentEpoch).2) := by
  unfold sealFacts
  by_cases hopen : s.lifecycle = .opened
  · rw [requireOpen_of_open hopen]
    dsimp only
    split_ifs with hepoch hactive
    · exact .ended rfl (le_refl _) (by simp [clear])
    · exact .ended rfl (le_refl _) (by simp [clear])
    · split
      · exact .ended rfl (le_refl _) (by simp [failTransaction, clear])
      · rename_i hfew
        refine .sealed hopen (not_not.mp hactive) ?_
        generalize (s.completed.map Prod.snd).filter _ = exclusive at hfew
        match exclusive with
        | [] => simp
        | [_] => simp
        | existing :: rejected :: rest => exact absurd rfl (hfew existing rejected rest)
  · obtain ⟨e, he⟩ := requireOpen_of_closed hopen
    rw [he]
    exact .ended rfl (le_refl _) hopen

theorem call_case (s : SamplingFactSink) (c : SinkCall) : CallCase s c (s.call c).1 (s.call c).2 := by
  cases c with
  | reserveExecution executionId => exact s.reserveExecution_case executionId
  | complete permit fact => exact s.complete_case permit fact
  | abortPermit permit => exact s.abortPermit_case permit
  | abort => exact s.abort_case
  | sealFacts currentEpoch => exact s.sealFacts_case currentEpoch

end SamplingFactSink

end SpineCodex
