import SpineCodex.Runtime.Host
import SpineCodex.Runtime.PlannerSpecs

/-!
# What each operation of the runtime does

One lemma for each operation: how the planner, the counters, the state and the sinks
change, on success and on failure.
-/

namespace SpineCodex

/-! ## Sinks -/

namespace SamplingFactSink

theorem reserve_unsealed {s : SamplingFactSink} (reservation : SpineFactReservation)
    (h : s.lifecycle ≠ .sealed) : (s.reserve reservation).1.lifecycle ≠ .sealed := by
  unfold reserve
  split
  · exact h
  · exact h
  · split_ifs
    · simp [failTransaction, clear]
    · simp [failTransaction, clear]
    · split
      · simp [failTransaction, clear]
      · exact h
    · split <;> exact h

theorem reserveExecution_unsealed {s : SamplingFactSink} (executionId : ExecutionId)
    (h : s.lifecycle ≠ .sealed) : (s.reserveExecution executionId).1.lifecycle ≠ .sealed := by
  unfold reserveExecution
  split_ifs
  · exact reserve_unsealed _ h
  · exact h

theorem complete_unsealed {s : SamplingFactSink} (permit : FactPermit) (fact : ExecutedSpineFact)
    (h : s.lifecycle ≠ .sealed) : (s.complete permit fact).1.lifecycle ≠ .sealed := by
  unfold complete
  split
  · split
    · exact h
    · simp [failTransaction, clear]
    · exact h
  · exact h
  · exact h

theorem abortPermit_unsealed {s : SamplingFactSink} (permit : FactPermit)
    (h : s.lifecycle ≠ .sealed) : (s.abortPermit permit).1.lifecycle ≠ .sealed := by
  unfold abortPermit
  split <;> exact h

theorem abortTransaction_unsealed {s : SamplingFactSink} (h : s.lifecycle ≠ .sealed) :
    s.abortTransaction.1.lifecycle ≠ .sealed ∧ s.abortTransaction.2 = .ok () := by
  unfold abortTransaction
  split <;> simp_all [clear]

/-- A sink that fails to seal can still be aborted. -/
theorem sealFacts_unsealed {s : SamplingFactSink} {epoch : ContextEpoch} {e : SamplingError}
    (h : s.lifecycle ≠ .sealed) (herr : (s.sealFacts epoch).2 = .err e) :
    (s.sealFacts epoch).1.lifecycle ≠ .sealed := by
  unfold sealFacts at herr ⊢
  split
  · rename_i hopen
    rw [hopen] at herr
    dsimp only at herr ⊢
    split_ifs at herr ⊢
    · simp [clear]
    · simp [clear]
    · split
      · simp [failTransaction, clear]
      · rename_i hfacts
        split at herr
        · rename_i hfacts'
          exact absurd hfacts' (hfacts _ _ _)
        · simp at herr
  · exact h
  · exact h

end SamplingFactSink

namespace SamplingRuntime

/-- The sink at an index exists and is not sealed. -/
def Unsealed (rt : SamplingRuntime) (index : ℕ) : Prop :=
  ∃ sink, rt.sinks[index]? = some sink ∧ sink.lifecycle ≠ .sealed

theorem Unsealed.lt {rt : SamplingRuntime} {index : ℕ} (h : rt.Unsealed index) :
    index < rt.sinks.length := by
  obtain ⟨sink, hsink, -⟩ := h
  exact (List.getElem?_eq_some_iff.mp hsink).1

theorem Unsealed.congr {rt rt' : SamplingRuntime} {index : ℕ} (h : rt.Unsealed index)
    (hsinks : rt'.sinks = rt.sinks) : rt'.Unsealed index := by
  unfold Unsealed
  rw [hsinks]
  exact h

/-- Replacing a sink keeps every other sink, and keeps the sink itself unsealed if the new one
is. -/
theorem Unsealed.set {rt rt' : SamplingRuntime} {index i : ℕ} {sink : SamplingFactSink}
    (h : rt.Unsealed i) (hsinks : rt'.sinks = rt.sinks.set index sink)
    (hsink : i = index → sink.lifecycle ≠ .sealed) : rt'.Unsealed i := by
  obtain ⟨old, hold, hunsealed⟩ := h
  unfold Unsealed
  rw [hsinks]
  by_cases hi : i = index
  · have hlt := (List.getElem?_eq_some_iff.mp hold).1
    subst hi
    exact ⟨sink, by simp [hlt], hsink rfl⟩
  · exact ⟨old, by rw [List.getElem?_set_ne (Ne.symm hi)]; exact hold, hunsealed⟩

/-- What an operation of one sink does to the runtime. -/
theorem onSink_spec {α : Type} (rt : SamplingRuntime) (index : ℕ)
    (f : SamplingFactSink → SamplingFactSink × Outcome SamplingError α)
    (hf : ∀ sink, sink.lifecycle ≠ .sealed → (f sink).1.lifecycle ≠ .sealed) :
    (rt.onSink index f).1 = { rt with sinks := (rt.onSink index f).1.sinks } ∧
      (rt.onSink index f).1.sinks.length = rt.sinks.length ∧
      ∀ i, rt.Unsealed i → (rt.onSink index f).1.Unsealed i := by
  unfold onSink
  split
  · rename_i sink hsink
    refine ⟨rfl, by simp, fun i hi ↦ hi.set rfl fun heq ↦ hf sink ?_⟩
    obtain ⟨old, hold, hunsealed⟩ := hi
    rw [heq, hsink] at hold
    exact Option.some.inj hold ▸ hunsealed
  · exact ⟨rfl, rfl, fun i hi ↦ hi⟩

/-! ## Operations that only touch the batch -/

/-- The state is the same up to the pending executions of the batch. -/
inductive BatchKept : SamplingRuntimeState → SamplingRuntimeState → Prop
  | idle : BatchKept .idle .idle
  | active {batch batch' : SamplingExecutionBatch} (hattempt : batch'.attemptId = batch.attemptId)
      (hpre : batch'.preBoundary = batch.preBoundary) (hstarted : batch'.started = batch.started)
      (hsink : batch'.sink = batch.sink) : BatchKept (.active batch) (.active batch')
  | prepared (attemptId : SamplingAttemptId) (commitId : SamplingCommitId) :
      BatchKept (.prepared attemptId commitId) (.prepared attemptId commitId)

theorem BatchKept.refl (state : SamplingRuntimeState) : BatchKept state state := by
  cases state with
  | idle => exact .idle
  | active batch => exact .active rfl rfl rfl rfl
  | prepared attemptId commitId => exact .prepared attemptId commitId

/-- The operation changed nothing but the sinks and the pending executions. -/
structure Quiet (rt rt' : SamplingRuntime) : Prop where
  planner_eq : rt'.planner = rt.planner
  nextAttempt_eq : rt'.nextAttempt = rt.nextAttempt
  nextCommit_eq : rt'.nextCommit = rt.nextCommit
  state_kept : BatchKept rt.state rt'.state
  sinks_length : rt'.sinks.length = rt.sinks.length
  unsealed : ∀ i, rt.Unsealed i → rt'.Unsealed i

theorem Quiet.refl (rt : SamplingRuntime) : Quiet rt rt :=
  ⟨rfl, rfl, rfl, .refl _, rfl, fun _ h ↦ h⟩

theorem Quiet.onSink {α : Type} {rt rt₀ : SamplingRuntime} (hquiet : Quiet rt rt₀) (index : ℕ)
    (f : SamplingFactSink → SamplingFactSink × Outcome SamplingError α)
    (hf : ∀ sink, sink.lifecycle ≠ .sealed → (f sink).1.lifecycle ≠ .sealed) :
    Quiet rt (rt₀.onSink index f).1 := by
  obtain ⟨hframe, hlength, hunsealed⟩ := onSink_spec rt₀ index f hf
  rw [hframe]
  exact ⟨hquiet.planner_eq, hquiet.nextAttempt_eq, hquiet.nextCommit_eq, hquiet.state_kept,
    hlength.trans hquiet.sinks_length,
    fun i hi ↦ (hunsealed i (hquiet.unsealed i hi)).congr rfl⟩

/-- A new batch with the same attempt, start and sink. -/
theorem Quiet.setBatch {rt rt₀ : SamplingRuntime} (hquiet : Quiet rt rt₀)
    {batch batch' : SamplingExecutionBatch} (hstate : rt.state = .active batch)
    (hattempt : batch'.attemptId = batch.attemptId) (hpre : batch'.preBoundary = batch.preBoundary)
    (hstarted : batch'.started = batch.started) (hsink : batch'.sink = batch.sink) :
    Quiet rt { rt₀ with state := .active batch' } :=
  ⟨hquiet.planner_eq, hquiet.nextAttempt_eq, hquiet.nextCommit_eq,
    hstate ▸ .active hattempt hpre hstarted hsink, hquiet.sinks_length,
    fun i hi ↦ (hquiet.unsealed i hi).congr rfl⟩

theorem Quiet.abortSink {rt rt₀ : SamplingRuntime} (hquiet : Quiet rt rt₀) (index : ℕ) :
    Quiet rt (rt₀.abortSink index) :=
  hquiet.onSink index _ fun _ h ↦ (SamplingFactSink.abortTransaction_unsealed h).1

theorem activeBatch_eq_ok {rt : SamplingRuntime} {batch : SamplingExecutionBatch}
    (h : rt.activeBatch = .ok batch) : rt.state = .active batch := by
  unfold activeBatch at h
  split at h
  · rename_i batch' hstate
    rw [hstate, Outcome.ok.inj h]
  · simp at h
  · simp at h

theorem registerExecution_quiet (rt : SamplingRuntime) (key : String) :
    Quiet rt (rt.registerExecution key).1 := by
  unfold registerExecution
  dsimp only
  split
  · rename_i batch hbatch
    have hstate := activeBatch_eq_ok hbatch
    split_ifs
    · exact (Quiet.refl rt).abortSink batch.sink
    · split
      · rename_i executionId _
        have hcounted : Quiet rt { rt with state := .active { batch with
            nextExecution := batch.nextExecution + 1 } } :=
          (Quiet.refl rt).setBatch hstate rfl rfl rfl rfl
        have hquiet := hcounted.onSink batch.sink (·.reserveExecution executionId)
          fun sink h ↦ SamplingFactSink.reserveExecution_unsealed executionId h
        split
        · rename_i rt' permit heq
          rw [heq] at hquiet
          exact hquiet.setBatch hstate rfl rfl rfl rfl
        · rename_i rt' e heq
          rw [heq] at hquiet
          exact hquiet
        · rename_i rt' heq
          rw [heq] at hquiet
          exact hquiet
      · exact .refl rt
      · exact .refl rt
  · exact .refl rt
  · exact .refl rt

theorem stageExecution_quiet (rt : SamplingRuntime) (key : String) (origin : ExecutionOrigin)
    (operation : SpineOperationFact) : Quiet rt (rt.stageExecution key origin operation).1 := by
  unfold stageExecution
  split
  · rename_i batch hbatch
    have hstate := activeBatch_eq_ok hbatch
    split
    · exact .refl rt
    · split_ifs
      · exact (Quiet.refl rt).abortSink batch.sink
      · exact (Quiet.refl rt).setBatch hstate rfl rfl rfl rfl
  · exact .refl rt
  · exact .refl rt

theorem finishExecution_quiet (rt : SamplingRuntime) (key : String) (succeeded : Bool) :
    Quiet rt (rt.finishExecution key succeeded).1 := by
  unfold finishExecution
  split
  · rename_i batch hbatch
    have hstate := activeBatch_eq_ok hbatch
    split
    · exact .refl rt
    · rename_i execution _
      have hquiet : Quiet rt { rt with state := .active { batch with
          pending := batch.pending.filter (·.1 ≠ key) } } :=
        (Quiet.refl rt).setBatch hstate rfl rfl rfl rfl
      dsimp only
      split_ifs
      · split
        · rename_i fact _
          exact hquiet.onSink batch.sink _ fun sink h ↦
            SamplingFactSink.complete_unsealed execution.permit fact h
        · exact hquiet.abortSink batch.sink
      · exact hquiet.onSink batch.sink _ fun sink h ↦
          SamplingFactSink.abortPermit_unsealed execution.permit h
  · exact .refl rt
  · exact .refl rt

/-! ## The life of an attempt -/

theorem parseId_eq_ok {thread : ThreadNamespace} {text : String} {id : NamespacedId} :
    parseId thread text = .ok id ↔ ValidComponent text ∧ id.thread = thread ∧ id.value = text := by
  rw [← NamespacedId.parse_eq_ok]
  unfold parseId
  split <;> simp_all

theorem parseId_ne_crash (thread : ThreadNamespace) (text : String) :
    parseId thread text ≠ .crash := by
  unfold parseId
  split <;> simp

/-- The runtime with a new attempt. -/
def begun (rt : SamplingRuntime) (attemptId : SamplingAttemptId) : SamplingRuntime :=
  { rt with
    planner := { rt.planner with activeAttempt := some attemptId }
    nextAttempt := rt.nextAttempt + 1
    state := .active ⟨attemptId, rt.planner.source.currentBoundary, false, rt.sinks.length, 0, []⟩
    sinks := rt.sinks ++
      [.new ⟨attemptId, rt.planner.source.epoch, rt.planner.source.currentBoundary⟩] }

/-- What `begin_sampling` needs to start an attempt. -/
structure CanBegin (rt : SamplingRuntime) (attemptId : SamplingAttemptId) : Prop where
  idle : rt.state = .idle
  inactive : rt.planner.activeAttempt = none
  jit : rt.planner.jitEnabled = true
  thread_eq : attemptId.thread = rt.planner.source.thread
  value_eq : attemptId.value = attemptIdText rt.planner.source.thread rt.nextAttempt

theorem beginSampling_of_canBegin {rt : SamplingRuntime} {attemptId : SamplingAttemptId}
    (h : CanBegin rt attemptId) :
    rt.beginSampling = (rt.begun attemptId,
      .ok ⟨⟨attemptId, rt.planner.source.epoch, rt.planner.source.currentBoundary⟩,
        rt.sinks.length⟩) := by
  have hparse : parseId rt.planner.source.thread
      (attemptIdText rt.planner.source.thread rt.nextAttempt) = .ok attemptId :=
    parseId_eq_ok.mpr ⟨h.value_eq ▸ attemptId.valid, h.thread_eq, h.value_eq⟩
  have hbegin : rt.planner.beginSampling attemptId =
      .ok ({ rt.planner with activeAttempt := some attemptId },
        ⟨attemptId, rt.planner.source.epoch, rt.planner.source.currentBoundary⟩) := by
    have hscope : rt.planner.source.thread = rt.planner.source.currentBoundary.thread ∧
        rt.planner.source.currentBoundary.epoch = rt.planner.source.epoch := ⟨rfl, rfl⟩
    simp [SamplingPlanner.beginSampling, SamplingAttempt.new, Outcome.require, h.inactive, h.jit,
      h.thread_eq, hscope]
  simp only [beginSampling, requireIdle, h.idle, hparse, Outcome.ok_bind, begun, hbegin]

/-- Starting an attempt succeeds as described, or changes at most the attempt counter. -/
theorem beginSampling_cases (rt : SamplingRuntime) :
    (∃ attemptId, CanBegin rt attemptId) ∨
      ∃ n, rt.beginSampling.1 = { rt with nextAttempt := n } ∧ rt.nextAttempt ≤ n ∧
        ∀ handle, rt.beginSampling.2 ≠ .ok handle := by
  unfold beginSampling
  dsimp only
  split
  · rename_i attemptId hparse
    obtain ⟨_, hidle, hparse⟩ := Outcome.bind_eq_ok.mp hparse
    obtain ⟨-, hthread, hvalue⟩ := parseId_eq_ok.mp hparse
    split
    · rename_i planner attempt hbegin
      left
      refine ⟨attemptId, ?_, ?_, ?_, hthread, hvalue⟩
      · unfold requireIdle at hidle
        split at hidle <;> simp_all
      · obtain ⟨_, hactive, -⟩ := Outcome.bind_eq_ok.mp hbegin
        exact Outcome.require_eq_ok.mp hactive
      · obtain ⟨-, -, hbegin⟩ := Outcome.bind_eq_ok.mp hbegin
        obtain ⟨_, hjit, -⟩ := Outcome.bind_eq_ok.mp hbegin
        exact Outcome.require_eq_ok.mp hjit
    · exact .inr ⟨_, rfl, Nat.le_succ _, by simp⟩
    · exact .inr ⟨_, rfl, Nat.le_succ _, by simp⟩
  · exact .inr ⟨_, rfl, le_rfl, by simp⟩
  · exact .inr ⟨_, rfl, le_rfl, by simp⟩

/-- The started record of an attempt. -/
def startedRecord (rt : SamplingRuntime) (attempt : SamplingAttempt) : SamplingStarted where
  schema := samplingStartedSchema
  attemptId := attempt.attemptId
  epoch := rt.planner.source.epoch
  preBoundary := attempt.preBoundary
  previousCommitId := rt.planner.previousCommitId
  promptDigest := none
  sourceDigest := none
  recordDigest := none

/-- A started record is written for the active attempt, once, or nothing changes. -/
theorem samplingStartedRecord_cases (rt : SamplingRuntime) (handle : SamplingHandle) :
    (∃ batch, rt.state = .active batch ∧ batch.attemptId = handle.attempt.attemptId ∧
        batch.started = false ∧
        (SamplingArchiveRecord.samplingStarted (rt.startedRecord handle.attempt)).validate = .ok () ∧
        rt.samplingStartedRecord handle =
          ({ rt with state := .active { batch with started := true } },
            .ok (.samplingStarted (rt.startedRecord handle.attempt)))) ∨
      ((rt.samplingStartedRecord handle).1 = rt ∧
        ∀ record, (rt.samplingStartedRecord handle).2 ≠ .ok record) := by
  unfold samplingStartedRecord
  split
  · rename_i batch record hrecord
    left
    obtain ⟨batch', hactive, hrecord⟩ := Outcome.bind_eq_ok.mp hrecord
    obtain ⟨_, hstarted, hrecord⟩ := Outcome.bind_eq_ok.mp hrecord
    obtain ⟨record', hplanner, hrecord⟩ := Outcome.bind_eq_ok.mp hrecord
    obtain ⟨rfl, rfl⟩ := Prod.mk.inj (Outcome.ok.inj hrecord)
    obtain ⟨batch'', hbatch, hactive⟩ := Outcome.bind_eq_ok.mp hactive
    obtain ⟨_, hid, hactive⟩ := Outcome.bind_eq_ok.mp hactive
    obtain rfl := Outcome.ok.inj hactive
    obtain ⟨-, -, hplanner⟩ := Outcome.bind_eq_ok.mp hplanner
    obtain ⟨_, hvalid, hplanner⟩ := Outcome.bind_eq_ok.mp hplanner
    obtain rfl := Outcome.ok.inj hplanner
    exact ⟨batch'', activeBatch_eq_ok hbatch, Outcome.require_eq_ok.mp hid,
      Outcome.require_eq_ok.mp hstarted, Outcome.mapErr_eq_ok.mp hvalid, rfl⟩
  · exact .inr ⟨rfl, by simp⟩
  · exact .inr ⟨rfl, by simp⟩

/-! ## The end of an attempt -/

/-- The runtime and the planner agree on the active attempt. -/
def Coherent (rt : SamplingRuntime) : Prop :=
  match rt.state with
  | .active batch => rt.planner.activeAttempt = some batch.attemptId ∧ rt.planner.jitEnabled = true
  | .idle | .prepared _ _ => rt.planner.activeAttempt = none

/-- The attempt of a handle is the active one. -/
def ActiveHandle (rt : SamplingRuntime) (handle : SamplingHandle) : Prop :=
  ∃ batch, rt.state = .active batch ∧ batch.attemptId = handle.attempt.attemptId

/-- Only sinks changed, and none but the one at `index` was sealed. -/
structure SinksOnly (rt rt' : SamplingRuntime) (index : ℕ) : Prop where
  frame : rt' = { rt with sinks := rt'.sinks }
  sinks_length : rt'.sinks.length = rt.sinks.length
  unsealed : ∀ i, i ≠ index → rt.Unsealed i → rt'.Unsealed i

/-- The attempt ended without a commit. -/
structure Released (rt rt' : SamplingRuntime) (index : ℕ) : Prop where
  frame : rt' = { rt with
    planner := { rt.planner with activeAttempt := none }
    state := .idle
    sinks := rt'.sinks }
  sinks_length : rt'.sinks.length = rt.sinks.length
  unsealed : ∀ i, i ≠ index → rt.Unsealed i → rt'.Unsealed i

theorem SinksOnly.coherent {rt rt' : SamplingRuntime} {index : ℕ} (h : SinksOnly rt rt' index)
    (hcoherent : Coherent rt) : Coherent rt' := by
  rw [h.frame]
  exact hcoherent

theorem Released.coherent {rt rt' : SamplingRuntime} {index : ℕ} (h : Released rt rt' index) :
    Coherent rt' := by
  rw [h.frame]
  rfl

theorem takeActive_of_active {rt : SamplingRuntime} {batch : SamplingExecutionBatch}
    (hstate : rt.state = .active batch) :
    rt.takeActive batch.attemptId = ({ rt with state := .idle }, .ok batch) := by
  simp [takeActive, hstate]

/-- Aborting the active attempt through a handle with an unsealed sink. -/
theorem abortSampling_of_active {rt : SamplingRuntime} {handle : SamplingHandle}
    (hcoherent : Coherent rt) (hactive : ActiveHandle rt handle) (hsink : rt.Unsealed handle.sink) :
    Released rt (rt.abortSampling handle).1 handle.sink ∧
      (rt.abortSampling handle).1.Unsealed handle.sink ∧ (rt.abortSampling handle).2 = .ok () := by
  obtain ⟨batch, hstate, hid⟩ := hactive
  obtain ⟨sink, hget, hunsealed⟩ := hsink
  have hlt := (List.getElem?_eq_some_iff.mp hget).1
  have hplanner : rt.planner.activeAttempt = some handle.attempt.attemptId := by
    rw [Coherent, hstate] at hcoherent
    rw [hcoherent.1, hid]
  obtain ⟨hnext, habort⟩ := SamplingFactSink.abortTransaction_unsealed hunsealed
  have hresult : rt.abortSampling handle = ({ rt with
      planner := { rt.planner with activeAttempt := none }
      state := .idle
      sinks := rt.sinks.set handle.sink sink.abortTransaction.1 }, .ok ()) := by
    have hpair : sink.abortTransaction = (sink.abortTransaction.1, .ok ()) := by rw [← habort]
    rw [abortSampling, ← hid, takeActive_of_active hstate]
    simp only [hget, SamplingPlanner.abortSampling, SamplingPlanner.requireActive, hplanner,
      Outcome.require, if_true]
    rw [hpair]
  rw [hresult]
  refine ⟨⟨rfl, by simp, ?_⟩, ⟨_, by simp [hlt], hnext⟩, rfl⟩
  intro i hi hold
  exact hold.set rfl fun heq ↦ absurd heq hi

/-- Without the active attempt nothing happens. -/
theorem abortSampling_of_not_active {rt : SamplingRuntime} {handle : SamplingHandle}
    (hactive : ¬ActiveHandle rt handle) :
    ∃ e, rt.abortSampling handle = (rt, .err e) := by
  have htake : ∃ e, rt.takeActive handle.attempt.attemptId = (rt, .err e) := by
    unfold takeActive
    split
    · rename_i batch hstate
      have hid : batch.attemptId ≠ handle.attempt.attemptId := fun h ↦ hactive ⟨batch, hstate, h⟩
      exact ⟨_, if_neg hid⟩
    · exact ⟨_, rfl⟩
    · exact ⟨_, rfl⟩
  obtain ⟨e, he⟩ := htake
  exact ⟨e, by rw [abortSampling, he]⟩

theorem requireActive_of_active {rt : SamplingRuntime} {handle : SamplingHandle}
    {batch : SamplingExecutionBatch} (hstate : rt.state = .active batch)
    (hid : batch.attemptId = handle.attempt.attemptId) : rt.requireActive handle = .ok batch := by
  simp [requireActive, activeBatch, hstate, hid, Outcome.require]

theorem requireActive_of_not_active {rt : SamplingRuntime} {handle : SamplingHandle}
    (hactive : ¬ActiveHandle rt handle) : ∃ e, rt.requireActive handle = .err e := by
  unfold requireActive activeBatch
  split
  · rename_i batch hstate
    have hid : batch.attemptId ≠ handle.attempt.attemptId := fun h ↦ hactive ⟨batch, hstate, h⟩
    exact ⟨.attemptMismatch, by simp [Outcome.require, hid]⟩
  · exact ⟨_, rfl⟩
  · exact ⟨_, rfl⟩

theorem SinksOnly.released {rt rt₁ rt' : SamplingRuntime} {index : ℕ} (h₁ : SinksOnly rt rt₁ index)
    (h₂ : Released rt₁ rt' index) : Released rt rt' index := by
  refine ⟨?_, h₂.sinks_length.trans h₁.sinks_length, fun i hi h ↦
    h₂.unsealed i hi (h₁.unsealed i hi h)⟩
  have hframe := h₂.frame
  rw [h₁.frame] at hframe
  exact hframe

theorem SinksOnly.activeHandle {rt rt₁ : SamplingRuntime} {index : ℕ} (h : SinksOnly rt rt₁ index)
    {handle : SamplingHandle} (hactive : ActiveHandle rt handle) : ActiveHandle rt₁ handle := by
  obtain ⟨batch, hstate, hid⟩ := hactive
  exact ⟨batch, by rw [h.frame]; exact hstate, hid⟩

theorem SinksOnly.onSink {α : Type} (rt : SamplingRuntime) (index : ℕ)
    (f : SamplingFactSink → SamplingFactSink × Outcome SamplingError α) :
    SinksOnly rt (rt.onSink index f).1 index := by
  unfold SamplingRuntime.onSink
  split
  · exact ⟨rfl, by simp, fun i hi h ↦ h.set rfl fun heq ↦ absurd heq hi⟩
  · exact ⟨rfl, rfl, fun i _ h ↦ h⟩

theorem abortWith_of_active {α : Type} {rt : SamplingRuntime} {handle : SamplingHandle}
    (e : PlannerError) (hcoherent : Coherent rt) (hactive : ActiveHandle rt handle)
    (hsink : rt.Unsealed handle.sink) :
    Released rt (rt.abortWith handle e (α := α)).1 handle.sink ∧
      (rt.abortWith handle e (α := α)).2 = .err e := by
  obtain ⟨hreleased, -, hok⟩ := abortSampling_of_active hcoherent hactive hsink
  have hpair : rt.abortSampling handle = ((rt.abortSampling handle).1, .ok ()) := by rw [← hok]
  rw [abortWith, hpair]
  exact ⟨hreleased, rfl⟩

/-- The ways in which finishing a sampling can end. -/
inductive FinishCase (rt : SamplingRuntime) (handle : SamplingHandle) (inputTokens : Option ℕ) :
    SamplingRuntime × Outcome PlannerError SamplingFinish → Prop
  | inactive (e : PlannerError) (h : ¬ActiveHandle rt handle) :
      FinishCase rt handle inputTokens (rt, .err e)
  | released {rt' : SamplingRuntime} {result : Outcome PlannerError SamplingFinish}
      (hactive : ActiveHandle rt handle) (h : Released rt rt' handle.sink)
      (hresult : result = .ok .orphanedStart ∨ ∃ e, result = .err e) :
      FinishCase rt handle inputTokens (rt', result)
  | unnamed {rt' : SamplingRuntime} (e : PlannerError) (hactive : ActiveHandle rt handle)
      (h : SinksOnly rt rt' handle.sink)
      (hid : ¬ValidComponent (commitIdText rt.planner.source.thread rt.nextCommit)) :
      FinishCase rt handle inputTokens (rt', .err e)
  | crashed {rt' : SamplingRuntime} (h : SinksOnly rt rt' handle.sink) :
      FinishCase rt handle inputTokens (rt', .crash)
  | prepared {rt' : SamplingRuntime} {batch : SamplingExecutionBatch}
      {facts : List ExecutedSpineFact} {commitId : SamplingCommitId} {q : SamplingPlanner}
      {commit : PreparedSamplingCommit} (hstate : rt.state = .active batch)
      (hattempt : batch.attemptId = handle.attempt.attemptId) (hstarted : batch.started = true)
      (hthread : commitId.thread = rt.planner.source.thread)
      (hvalue : commitId.value = commitIdText rt.planner.source.thread rt.nextCommit)
      (hprepare : rt.planner.prepareSampling ⟨handle.attempt, facts⟩ (rt.postBoundary handle)
        commitId inputTokens = .ok (q, commit))
      (hframe : rt' = { rt with
        planner := { rt.planner with activeAttempt := none }
        nextCommit := rt.nextCommit + 1
        state := .prepared handle.attempt.attemptId commitId
        sinks := rt'.sinks })
      (hlength : rt'.sinks.length = rt.sinks.length)
      (hunsealed : ∀ i, i ≠ handle.sink → rt.Unsealed i → rt'.Unsealed i) :
      FinishCase rt handle inputTokens (rt', .ok (.prepared commit))

/-- The end of a prepared sampling, behind the seal. -/
theorem prepareSealed_cases {rt rt₁ : SamplingRuntime} {handle : SamplingHandle}
    {batch : SamplingExecutionBatch} (hcoherent : Coherent rt) (hstate : rt.state = .active batch)
    (hid : batch.attemptId = handle.attempt.attemptId) (hstarted : batch.started = true)
    (hsinks : SinksOnly rt rt₁ handle.sink) (facts : List ExecutedSpineFact)
    {commitId : SamplingCommitId} (hthread : commitId.thread = rt.planner.source.thread)
    (hvalue : commitId.value = commitIdText rt.planner.source.thread rt.nextCommit)
    (inputTokens : Option ℕ) :
    FinishCase rt handle inputTokens
      ((rt₁.prepareSealed handle facts commitId inputTokens).1,
        (rt₁.prepareSealed handle facts commitId inputTokens).2 >>= fun commit ↦
          .ok (.prepared commit)) := by
  obtain ⟨hframe, hlength, hunsealed⟩ := hsinks
  have hplanner : rt₁.planner = rt.planner := by rw [hframe]
  have hstate₁ : rt₁.state = .active batch := by rw [hframe]; exact hstate
  have hpost : rt₁.postBoundary handle = rt.postBoundary handle := by rw [postBoundary, hplanner]; rfl
  have hactive : ActiveHandle rt handle := ⟨batch, hstate, hid⟩
  have hattempt : rt.planner.activeAttempt = some handle.attempt.attemptId := by
    rw [Coherent, hstate] at hcoherent
    rw [hcoherent.1, hid]
  unfold prepareSealed
  dsimp only
  rw [hplanner, hpost]
  split
  · rename_i q commit hprepare
    obtain ⟨_, _, _, _, _, _, -, -, -, -, -, -, -, hq, -⟩ :=
      SamplingPlanner.prepareSampling_eq_ok hprepare
    have htake : { rt₁ with planner := q }.takeActive handle.attempt.attemptId =
        ({ rt₁ with planner := q, state := .idle }, .ok batch) := by
      rw [← hid]
      exact takeActive_of_active hstate₁
    rw [htake]
    refine .prepared hstate hid hstarted hthread hvalue hprepare ?_ hlength fun i hi h ↦
      (hunsealed i hi h).congr rfl
    rw [hq, hframe]
  · rename_i e hprepare
    have hdiscard : rt.planner.discardSampling handle.attempt.attemptId =
        .ok { rt.planner with activeAttempt := none } := by
      simp [SamplingPlanner.discardSampling, SamplingPlanner.requireActive, hattempt,
        Outcome.require]
    rw [hdiscard]
    refine .released hactive ⟨?_, hlength, fun i hi h ↦ (hunsealed i hi h).congr rfl⟩
      (.inr ⟨e, rfl⟩)
    rw [hframe]
  · exact .crashed ⟨hframe, hlength, hunsealed⟩

theorem prepareSampling_cases {rt : SamplingRuntime} {handle : SamplingHandle}
    (hcoherent : Coherent rt) (hsink : rt.Unsealed handle.sink) (inputTokens : Option ℕ) :
    FinishCase rt handle inputTokens
      ((rt.prepareSampling handle inputTokens).1,
        (rt.prepareSampling handle inputTokens).2 >>= fun commit ↦ .ok (.prepared commit)) := by
  by_cases hactive : ActiveHandle rt handle
  · obtain ⟨batch, hstate, hid⟩ := hactive
    have hactive : ActiveHandle rt handle := ⟨batch, hstate, hid⟩
    unfold prepareSampling
    rw [requireActive_of_active hstate hid]
    dsimp only
    split_ifs with hpending hstarted
    · obtain ⟨hreleased, herr⟩ := abortWith_of_active (α := PreparedSamplingCommit)
        (.pendingExecutions batch.pending.length) hcoherent hactive hsink
      rw [herr]
      exact .released hactive hreleased (.inr ⟨_, rfl⟩)
    · obtain ⟨hreleased, herr⟩ := abortWith_of_active (α := PreparedSamplingCommit)
        .samplingNotStarted hcoherent hactive hsink
      rw [herr]
      exact .released hactive hreleased (.inr ⟨_, rfl⟩)
    · have hsinks := SinksOnly.onSink rt handle.sink (·.sealFacts rt.planner.source.epoch)
      split
      · rename_i rt₁ facts hseal
        rw [hseal] at hsinks
        dsimp only at hsinks
        have hplanner : rt₁.planner = rt.planner := by rw [hsinks.frame]
        have hcommit : rt₁.nextCommit = rt.nextCommit := by rw [hsinks.frame]
        rw [hplanner, hcommit]
        split
        · rename_i commitId hparse
          obtain ⟨-, hthread, hvalue⟩ := parseId_eq_ok.mp hparse
          exact prepareSealed_cases hcoherent hstate hid (by simpa using hstarted) hsinks facts
            hthread hvalue inputTokens
        · rename_i e hparse
          refine .unnamed e hactive hsinks fun hvalid ↦ ?_
          have hok : parseId rt.planner.source.thread
              (commitIdText rt.planner.source.thread rt.nextCommit) =
                .ok ⟨rt.planner.source.thread, _, hvalid⟩ := parseId_eq_ok.mpr ⟨hvalid, rfl, rfl⟩
          rw [hok] at hparse
          simp at hparse
        · rename_i hparse
          exact absurd hparse (parseId_ne_crash _ _)
      · rename_i rt₁ e hseal
        rw [hseal] at hsinks
        have hunsealed : rt₁.Unsealed handle.sink := by
          obtain ⟨sink, hget, hsink⟩ := hsink
          have hlt := (List.getElem?_eq_some_iff.mp hget).1
          simp only [onSink, hget] at hseal
          obtain ⟨rfl, herr⟩ := Prod.mk.inj hseal
          obtain ⟨e₀, herr₀, -⟩ := Outcome.mapErr_eq_err.mp herr
          exact ⟨_, by simp [hlt], SamplingFactSink.sealFacts_unsealed hsink herr₀⟩
        obtain ⟨hreleased, herr⟩ := abortWith_of_active (α := PreparedSamplingCommit) e
          (hsinks.coherent hcoherent) (hsinks.activeHandle hactive) hunsealed
        rw [herr]
        exact .released hactive (hsinks.released hreleased) (.inr ⟨_, rfl⟩)
      · rename_i rt₁ hseal
        rw [hseal] at hsinks
        exact .crashed hsinks
  · obtain ⟨e, he⟩ := requireActive_of_not_active hactive
    unfold prepareSampling
    rw [he]
    exact .inactive e hactive

theorem finishSampling_cases {rt : SamplingRuntime} {handle : SamplingHandle}
    (hcoherent : Coherent rt) (hsink : rt.Unsealed handle.sink) (terminal : SamplingTerminal)
    (inputTokens : Option ℕ) :
    FinishCase rt handle inputTokens (rt.finishSampling handle terminal inputTokens) := by
  unfold finishSampling
  split_ifs with hterminal
  · by_cases hactive : ActiveHandle rt handle
    · obtain ⟨hreleased, -, hok⟩ := abortSampling_of_active hcoherent hactive hsink
      have hpair : rt.abortSampling handle = ((rt.abortSampling handle).1, .ok ()) := by rw [← hok]
      rw [hpair]
      exact .released hactive hreleased (.inl rfl)
    · obtain ⟨e, he⟩ := abortSampling_of_not_active hactive
      rw [he]
      exact .inactive e hactive
  · have hcases := prepareSampling_cases hcoherent hsink inputTokens
    split <;> rename_i heq <;> rw [heq] at hcases <;> exact hcases

end SamplingRuntime

end SpineCodex
