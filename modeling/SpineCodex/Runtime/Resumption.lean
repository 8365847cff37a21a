import SpineCodex.Replay.Eager
import SpineCodex.Runtime.Atomicity

/-!
# A thread that is resumed often

Replay counts the distinct attempts and commits of a log.  When an attempt was lost before
its started record, every resumption names its attempt like the one before, but its commit
anew, so that commits outnumber attempts and outgrow the limit on identities first.
-/

namespace SpineCodex

namespace Resumption

/-! ## The records of one resumption

The thread has one source cell, at boundary 1.  Every resumption runs a sampling without
source of its own under the same `attempt`. -/

section Records

variable (attempt : SamplingAttemptId) (previous : Option SamplingCommitId) (pre : Option BoundaryId)
  (id : SamplingCommitId)

def theBoundary : BoundaryId := ⟨attempt.thread, 0, 1⟩

def startedAt : SamplingStarted :=
  ⟨samplingStartedSchema, attempt, 0, theBoundary attempt, previous, none, none, none⟩

def recordAt : SamplingCommit :=
  ⟨samplingCommitSchema, attempt, none, id, 0, pre, theBoundary attempt, theBoundary attempt,
    previous, none, [], none, none⟩

/-- A JSON value of 301 bytes, larger than any identity. -/
def largeJson : Json := .array (List.replicate 60 .null)

theorem byteSize_largeJson : largeJson.byteSize = 301 := by decide +kernel

theorem byteSize_boundary_le (ordinal : ℕ) (h : ordinal < 10) :
    (EpochOrdinalId.toJson ⟨attempt.thread, 0, ordinal⟩).byteSize ≤ largeJson.byteSize := by
  have hthread := attempt.thread.valid.quotedSize_le
  have hkeys : Json.quotedSize "thread" + Json.quotedSize "epoch" + Json.quotedSize "ordinal" = 24 := by
    decide
  have hdigit : (Json.number ordinal).byteSize = 1 := by
    interval_cases ordinal <;> decide
  have hzero : (Json.number 0).byteSize = 1 := by decide
  rw [byteSize_largeJson]
  simp only [EpochOrdinalId.toJson, ThreadNamespace.toJson, Json.byteSize, Json.fieldsSize,
    List.length_cons, List.length_nil] at hdigit hzero ⊢
  omega

theorem byteSize_id_le : id.toJson.byteSize ≤ largeJson.byteSize := by
  rw [byteSize_largeJson]
  exact id.byteSize_toJson_le.trans (by omega)

theorem byteSize_orNull_le :
    (orNull NamespacedId.toJson previous).byteSize ≤ largeJson.byteSize := by
  cases previous with
  | none => rw [byteSize_largeJson]; decide
  | some id => exact byteSize_id_le id

/-- The JSON of a started record with its identities left open. -/
def startedJson (attempt boundary previous : Json) : Json :=
  .object [("type", .string "sampling_started"), ("record", .object
    [("schema", .string samplingStartedSchema), ("attempt_id", attempt), ("epoch", .number 0),
      ("pre_boundary", boundary), ("previous_commit_id", previous)])]

/-- The JSON of a commit record with its identities left open. -/
def commitJson (attempt id pre boundary previous : Json) : Json :=
  .object [("type", .string "sampling_commit"), ("record", .object
    [("schema", .string samplingCommitSchema), ("attempt_id", attempt), ("commit_id", id),
      ("epoch", .number 0), ("previous_pre_boundary", pre), ("pre_boundary", boundary),
      ("post_boundary", boundary), ("previous_commit_id", previous), ("executions", .array [])])]

theorem startedAt_valid :
    (SamplingArchiveRecord.samplingStarted (startedAt attempt previous)).validate = .ok () := by
  have hattempt := byteSize_id_le attempt
  have hboundary := byteSize_boundary_le attempt 1 (by decide)
  have hprevious := byteSize_orNull_le previous
  have hsize : (SamplingArchiveRecord.samplingStarted (startedAt attempt previous)).toJson.byteSize ≤
      (startedJson largeJson largeJson largeJson).byteSize := by
    simp only [SamplingArchiveRecord.toJson, SamplingStarted.toJson, startedAt, theBoundary,
      optionalField, List.append_nil, startedJson, Json.byteSize, Json.fieldsSize, List.length_cons,
      List.length_nil]
    omega
  have hlarge : (startedJson largeJson largeJson largeJson).byteSize ≤ maxArchiveRecordBytes := by
    decide +kernel
  have hcontent : (SamplingArchiveRecord.samplingStarted
      (startedAt attempt previous)).validateContent = .ok () := by
    simp [SamplingArchiveRecord.validateContent, startedAt, requireSchema, requireAttemptScope,
      requireBoundaryScope, theBoundary, Outcome.require]
  rw [SamplingArchiveRecord.validate, hcontent, Outcome.ok_bind, Outcome.require_eq_ok]
  exact hsize.trans hlarge

variable {attempt previous pre id}

theorem recordAt_valid (hthread : id.thread = attempt.thread)
    (hprevious : ∀ commit ∈ previous, commit.thread = attempt.thread) (hne : previous ≠ some id)
    (hpre : pre = none ∨ pre = some (theBoundary attempt)) :
    (SamplingArchiveRecord.samplingCommit (recordAt attempt previous pre id)).validate = .ok () := by
  have hattempt := byteSize_id_le attempt
  have hid := byteSize_id_le id
  have hboundary := byteSize_boundary_le attempt 1 (by decide)
  have hcommit := byteSize_orNull_le previous
  have hpreSize : (orNull EpochOrdinalId.toJson pre).byteSize ≤ largeJson.byteSize := by
    rcases hpre with rfl | rfl
    · rw [byteSize_largeJson]; decide
    · exact hboundary
  have hsize : (SamplingArchiveRecord.samplingCommit
      (recordAt attempt previous pre id)).toJson.byteSize ≤
        (commitJson largeJson largeJson largeJson largeJson largeJson).byteSize := by
    simp only [SamplingArchiveRecord.toJson, SamplingCommit.toJson, recordAt, theBoundary,
      optionalField, List.append_nil, List.map_nil, commitJson, Json.byteSize, Json.fieldsSize,
      List.cons_append, List.nil_append, List.length_cons, List.length_nil]
    omega
  have hlarge : (commitJson largeJson largeJson largeJson largeJson largeJson).byteSize ≤
      maxArchiveRecordBytes := by decide +kernel
  have hscope : requireBoundaryScope attempt.thread 0 (theBoundary attempt) = .ok () :=
    Outcome.require_eq_ok.mpr ⟨rfl, rfl⟩
  have hpreScope : requirePreviousPreBoundary (recordAt attempt previous pre id) = .ok () := by
    rcases hpre with rfl | rfl
    · rfl
    · simp [requirePreviousPreBoundary, recordAt, hscope, Outcome.require]
  have hcommitScope : requireOptionalCommitScope attempt.thread previous = .ok () := by
    cases previous with
    | none => rfl
    | some commit => exact Outcome.require_eq_ok.mpr (hprevious commit rfl)
  have hcontent : validateSamplingCommit (recordAt attempt previous pre id) = .ok () := by
    unfold validateSamplingCommit
    rw [hpreScope]
    cases pre <;>
      simp [recordAt, requireAttemptScope, hscope, hthread, Outcome.require, hne, hcommitScope,
        validateExecutions]
  have hschema : (SamplingArchiveRecord.samplingCommit
      (recordAt attempt previous pre id)).validateContent = .ok () := by
    rw [SamplingArchiveRecord.validateContent, hcontent]
    rfl
  rw [SamplingArchiveRecord.validate, hschema, Outcome.ok_bind, Outcome.require_eq_ok]
  exact hsize.trans hlarge

end Records

/-! ## The states between resumptions -/

section States

variable (attempt : SamplingAttemptId) (previous : Option SamplingCommitId) (pre : Option BoundaryId)

def theCell : SourceCell :=
  ⟨⟨attempt.thread, 0, 0⟩, theBoundary attempt, .opaqueItem, .native (.rollout 1)⟩

def theLedger : SourceLedger := ⟨attempt.thread, 0, [theCell attempt], some 1, 1⟩

def theParser : SpineCharParser := ⟨[⟨0, .opaqueItem 1, []⟩], [], some 1, 1⟩

def theReducer : SpineReducer :=
  { SpineReducer.new with
    nodes := [(RuntimeNode.root 1 0).push (.leaf (.native (.rollout 1)))]
    lastBoundary := some 1 }

def theCompiler : SpineCompiler where
  reducer := theReducer
  projection := ⟨theReducer.nodes.map (·.snapshot), theReducer.cursor, [.native (.rollout 1)], some 1⟩

def thePlan : ContextPlanRecipe :=
  ⟨contextPlanSchemaV1, attempt.thread, 0, none, [.source ⟨attempt.thread, 0, 0⟩ []], [], none⟩

def theConfig : SpineConfig := ⟨true, true, fun h ↦ h⟩

def thePlanner : SamplingPlanner :=
  .fromReplayState (theLedger attempt) theParser theCompiler 1 pre previous (thePlan attempt) .default
    theConfig

/-- What replay has between two records: a committed state of the kernel and the identities. -/
def replayed (committed : ℕ) (kernel : KernelState) (attempts : Finset SamplingAttemptId)
    (commits : Finset SamplingCommitId) (applied : List SamplingCommitId) : ReplayState where
  source := theLedger attempt
  parser := kernel.1
  compiler := kernel.2
  committedSourceCells := committed
  previousPreBoundary := pre
  previousCommitId := previous
  started := []
  commits := commits
  attemptIds := attempts
  appliedCommits := applied
  usageSamples := []
  inputPressure := .default
  nextProjectionOrdinal := 0

/-- What replay has after some resumptions. -/
def resumed (commits : Finset SamplingCommitId) (applied : List SamplingCommitId) : ReplayState :=
  replayed attempt previous pre 1 (theParser, theCompiler) {attempt} commits applied

/-- The JSON of the plan with its identities left open. -/
def planJson (thread source : Json) : Json :=
  .object [("schema", .string contextPlanSchemaV1), ("thread", thread), ("epoch", .number 0),
    ("cells", .array [.object [("type", .string "source"), ("source_id", source),
      ("labels", .array [])]]), ("memory_slots", .array [])]

theorem thePlan_valid : (thePlan attempt).validate = .ok () := by
  have hthread : attempt.thread.toJson.byteSize ≤ largeJson.byteSize := by
    rw [byteSize_largeJson]
    exact attempt.thread.valid.quotedSize_le.trans (by omega)
  have hsource := byteSize_boundary_le attempt 0 (by decide)
  have hsize : (thePlan attempt).toJson.byteSize ≤ (planJson largeJson largeJson).byteSize := by
    simp only [ContextPlanRecipe.toJson, thePlan, optionalField, List.append_nil, List.map_cons,
      List.map_nil, ContextPlanCell.toJson, planJson, Json.byteSize, Json.fieldsSize, Json.itemsSize,
      List.cons_append, List.nil_append, List.length_cons, List.length_nil]
    omega
  have hlarge : (planJson largeJson largeJson).byteSize ≤ maxContextPlanBytes := by decide +kernel
  have hbytes : (thePlan attempt).toJson.byteSize ≤ maxContextPlanBytes := hsize.trans hlarge
  have hcells : (thePlan attempt).cells.foldlM (thePlan attempt).validateCell (∅, ∅) =
      .ok ({⟨attempt.thread, 0, 0⟩}, ∅) := rfl
  have hschema : (thePlan attempt).schema = contextPlanSchemaV1 := rfl
  have hlength : (thePlan attempt).cells.length ≤ maxVisibleContextItems := by
    simp [thePlan, maxVisibleContextItems]
  have hslots : (thePlan attempt).memorySlots.length ≤ maxContextPlanMemorySlots := by
    simp [thePlan]
  simp [ContextPlanRecipe.validate, Outcome.require, hschema, hlength, hslots, hcells, hbytes]

theorem buildContextPlan_theLedger (previousPlan : Option ContextPlanRecipe) :
    buildContextPlan (theLedger attempt).snapshot theCompiler.projection theParser.pendingBoundaries
      previousPlan 0 = .ok (thePlan attempt, 0) :=
  buildContextPlan_eq_ok.mpr ⟨⟨{⟨attempt.thread, 0, 0⟩}, ∅, 0, [.source ⟨attempt.thread, 0, 0⟩ []]⟩,
    rfl, thePlan_valid attempt, rfl⟩

theorem finish_resumed (commits : Finset SamplingCommitId) (applied : List SamplingCommitId) :
    ∃ result, (resumed attempt previous pre commits applied).finish theConfig = .ok result ∧
      result.candidate = .fromReplay (thePlanner attempt previous pre) 1
        (ReplayState.countInThread commits attempt.thread) := by
  have hplanner : (resumed attempt previous pre commits applied).recoverPlanner theConfig =
      .ok (thePlanner attempt previous pre, thePlan attempt) := by
    have hbuild := buildContextPlan_theLedger attempt none
    simp only [ReplayState.recoverPlanner, resumed, replayed, hbuild]
    rfl
  have hresolve : (thePlan attempt).resolve (theLedger attempt).snapshot =
      .ok ⟨[⟨.source ⟨attempt.thread, 0, 0⟩, .native (.rollout 1), []⟩], []⟩ := by
    have hcell : (theLedger attempt).snapshot.resolve ⟨attempt.thread, 0, 0⟩ =
        some (.native (.rollout 1)) := by
      simp [SourceSnapshot.resolve, SourceLedger.snapshot, theLedger, theCell]
    rw [ContextPlanRecipe.resolve, thePlan_valid]
    simp [Outcome.require, thePlan, theLedger, SourceLedger.snapshot] at hcell ⊢
    simp [ContextPlanRecipe.resolveCell, hcell, Outcome.okOr]
  have hattempts : ReplayState.countInThread {attempt} attempt.thread = 1 := by
    simp [ReplayState.countInThread, Finset.filter_singleton]
  have hlive : (resumed attempt previous pre commits applied).livePlan
      (thePlanner attempt previous pre) (thePlan attempt) = .ok (thePlan attempt) := rfl
  have hslots : projectionMemorySlots theCompiler.projection = [] := rfl
  refine ⟨⟨theCompiler.projection, [.native (.rollout 1)], thePlan attempt, [], [], applied, 0,
    .fromReplay (thePlanner attempt previous pre) 1
      (ReplayState.countInThread commits attempt.thread)⟩, ?_, rfl⟩
  simp only [ReplayState.finish, hplanner, hlive, Outcome.ok_bind]
  simp only [resumed, replayed, hresolve, hslots, Outcome.mapErr_ok, Outcome.ok_bind,
    Outcome.require, if_true, ← hattempts]
  rfl

variable {attempt previous pre}

/-- The two records of a sampling, as replay sees them. -/
theorem applyInput_cycle {committed : ℕ} {kernel : KernelState}
    {attempts : Finset SamplingAttemptId} {id : SamplingCommitId}
    {commits : Finset SamplingCommitId} (applied : List SamplingCommitId)
    (hkernel : reduceSamplingDelta ⟨(theLedger attempt).snapshot, committed, 1, 1, [], none,
      .verify []⟩ kernel = .ok ((theParser, theCompiler), []))
    (hattempts : insert attempt attempts = {attempt}) (hthread : id.thread = attempt.thread)
    (hprevious : ∀ commit ∈ previous, commit.thread = attempt.thread) (hne : previous ≠ some id)
    (hpre : pre = none ∨ pre = some (theBoundary attempt)) (hnew : id ∉ commits) :
    [ReplayInput.archive (.samplingStarted (startedAt attempt previous)),
        .archive (.samplingCommit (recordAt attempt previous pre id))].foldlM ReplayState.applyInput
          (replayed attempt previous pre committed kernel attempts commits applied) =
      .ok (resumed attempt (some id) (some (theBoundary attempt)) (insert id commits)
        (applied ++ [id])) := by
  have hstarted : (replayed attempt previous pre committed kernel attempts commits
      applied).applyArchive (.samplingStarted (startedAt attempt previous)) =
        .ok { replayed attempt previous pre committed kernel {attempt} commits applied with
          started := [(attempt, startedAt attempt previous)] } := by
    have hfollow : ∀ s : ReplayState, s.source.thread = attempt.thread →
        s.followNamespace (startedAt attempt previous) = .ok s := fun s h ↦ if_pos h.symm
    rw [ReplayState.applyArchive, startedAt_valid]
    simp only [Outcome.mapErr_ok, Outcome.ok_bind, ReplayState.applyStarted]
    rw [hfollow _ rfl]
    simp [replayed, startedAt, theLedger, theBoundary, SourceLedger.currentBoundary,
      Outcome.require, hattempts]
  have hscope : ReplayState.requireCommitScope
      { replayed attempt previous pre committed kernel {attempt} commits applied with
        started := [(attempt, startedAt attempt previous)] } (recordAt attempt previous pre id) =
          .ok () := by
    simp [ReplayState.requireCommitScope, replayed, recordAt, startedAt, theLedger, theCell,
      theBoundary, SourceLedger.snapshot, SourceSnapshot.lastBoundary, Outcome.require, Outcome.okOr]
  have hvalid := recordAt_valid hthread hprevious hne hpre
  have hcommits : (recordAt attempt previous pre id).commitId ∉
      (replayed attempt previous pre committed kernel {attempt} commits applied).commits := hnew
  have hcommit : ReplayState.applyCommit
      { replayed attempt previous pre committed kernel {attempt} commits applied with
        started := [(attempt, startedAt attempt previous)] } (recordAt attempt previous pre id) =
          .ok (resumed attempt (some id) (some (theBoundary attempt)) (insert id commits)
            (applied ++ [id])) := by
    rw [ReplayState.applyCommit, if_neg hcommits, hscope]
    exact congrArg (fun x ↦ Outcome.mapErr replayDeltaError x >>= fun y ↦ Outcome.ok
      { resumed attempt (some id) (some (theBoundary attempt)) (insert id commits) (applied ++ [id])
        with parser := y.1.1, compiler := y.1.2 }) hkernel
  simp only [List.foldlM_cons, List.foldlM_nil, ReplayState.applyInput, hstarted, Outcome.ok_bind]
  simp only [ReplayState.applyArchive, hvalid, Outcome.mapErr_ok, Outcome.ok_bind, hcommit,
    Outcome.pure_eq]

end States

/-! ## One sampling

The runs below start with an idle runtime that has allocated one attempt and whose planner
would commit to `theParser` and `theCompiler`. -/

section Cycle

open SamplingRuntime

variable (attempt : SamplingAttemptId) (previous : Option SamplingCommitId) (pre : Option BoundaryId)
  (p : SamplingPlanner) (k : ℕ) (sinks : List SamplingFactSink)

/-- A planner with the one source cell that can commit a sampling without source of its own. -/
structure Ready : Prop where
  source_eq : p.source = theLedger attempt
  inactive : p.activeAttempt = none
  jit : p.jitEnabled = true
  committed_le : p.committedSourceCells ≤ 1
  pre_eq : p.previousPreBoundary = pre
  commit_eq : p.previousCommitId = previous
  reduce : p.reduceCommit ⟨⟨attempt, 0, theBoundary attempt⟩, []⟩ (theBoundary attempt) none =
    .ok ((theParser, theCompiler), .default, [])
  build : buildContextPlan (theLedger attempt).snapshot theCompiler.projection
    theParser.pendingBoundaries p.committedPlan p.nextProjectionOrdinal = .ok (thePlan attempt, 0)

theorem ready_thePlanner : Ready attempt previous pre (thePlanner attempt previous pre) where
  source_eq := rfl
  inactive := rfl
  jit := rfl
  committed_le := le_refl 1
  pre_eq := rfl
  commit_eq := rfl
  reduce := rfl
  build := buildContextPlan_theLedger attempt (some (thePlan attempt))

def resting : SamplingRuntime := ⟨p, 1, k, .idle, sinks⟩

def theHandle : SamplingHandle := ⟨⟨attempt, 0, theBoundary attempt⟩, sinks.length⟩

/-- The runtime while the sampling is active, with its batch and its sink. -/
def sampling (started : Bool) (lifecycle : SinkLifecycle) : SamplingRuntime where
  planner := { p with activeAttempt := some attempt }
  nextAttempt := 2
  nextCommit := k
  state := .active ⟨attempt, theBoundary attempt, started, sinks.length, 0, []⟩
  sinks := sinks ++
    [{ SamplingFactSink.new ⟨attempt, 0, theBoundary attempt⟩ with lifecycle := lifecycle }]

/-- The commit that the sampling prepares. -/
def preparedAt (id : SamplingCommitId) : PreparedSamplingCommit where
  record := recordAt attempt previous pre id
  plan := thePlan attempt
  projection := theCompiler.projection
  candidate := ⟨previous, p.committedSourceCells, theParser, theCompiler, 1,
    some (theBoundary attempt), some id, 0, .default⟩

variable {attempt previous pre p k sinks}

theorem beginSampling_resting (hready : Ready attempt previous pre p)
    (hattempt : attempt.value = attemptIdText attempt.thread 1) :
    (resting p k sinks).beginSampling =
      (sampling attempt p k sinks false .opened, .ok (theHandle attempt sinks)) := by
  have hthread : attempt.thread = (resting p k sinks).planner.source.thread := by
    rw [resting, hready.source_eq]
    rfl
  have hbegin : CanBegin (resting p k sinks) attempt :=
    ⟨rfl, hready.inactive, hready.jit, hthread, hthread ▸ hattempt⟩
  rw [beginSampling_of_canBegin hbegin]
  cases p
  obtain rfl := hready.source_eq
  rfl

theorem samplingStartedRecord_sampling (hready : Ready attempt previous pre p) :
    (sampling attempt p k sinks false .opened).samplingStartedRecord (theHandle attempt sinks) =
      (sampling attempt p k sinks true .opened,
        .ok (.samplingStarted (startedAt attempt previous))) := by
  have hactive : (sampling attempt p k sinks false .opened).requireActive (theHandle attempt sinks) =
      .ok ⟨attempt, theBoundary attempt, false, sinks.length, 0, []⟩ := requireActive_of_active rfl rfl
  have hrecord : SamplingPlanner.samplingStartedRecord { p with activeAttempt := some attempt }
      ⟨attempt, 0, theBoundary attempt⟩ = .ok (.samplingStarted (startedAt attempt previous)) := by
    have hplanner : SamplingPlanner.requireActive { p with activeAttempt := some attempt } attempt =
        .ok () := Outcome.require_eq_ok.mpr rfl
    have hvalid := startedAt_valid attempt previous
    rw [SamplingPlanner.samplingStartedRecord, hplanner, Outcome.ok_bind]
    cases p
    obtain rfl := hready.source_eq
    obtain rfl := hready.commit_eq
    exact congrArg (fun x ↦ Outcome.mapErr PlannerError.archive x >>= fun _ ↦ Outcome.ok _) hvalid
  rw [SamplingRuntime.samplingStartedRecord, hactive]
  simp only [Outcome.ok_bind, Outcome.require, if_true, sampling, theHandle, hrecord, Outcome.pure_eq]

/-- A host begins the sampling and records its start. -/
theorem reachable_sampling {log : List ReplayInput} {handles : List SamplingHandle}
    (hready : Ready attempt previous pre p)
    (hattempt : attempt.value = attemptIdText attempt.thread 1)
    (h : Host.Reachable ⟨resting p k sinks, handles, [], log⟩) :
    Host.Reachable ⟨sampling attempt p k sinks true .opened, handles ++ [theHandle attempt sinks], [],
      log ++ [.archive (.samplingStarted (startedAt attempt previous))]⟩ := by
  have hbegin := h.step (.perform .begin trivial)
  simp only [Host.perform, beginSampling_resting hready hattempt] at hbegin
  have hstarted := hbegin.step
    (.perform (.started (theHandle attempt sinks)) (by simp [Host.Allowed]))
  simp only [Host.perform, samplingStartedRecord_sampling hready] at hstarted
  exact hstarted

variable (k sinks) in
/-- Behind the seal, the sampling waits for the identity of its commit. -/
theorem finishSampling_sampling (hready : Ready attempt previous pre p) :
    (sampling attempt p k sinks true .opened).finishSampling (theHandle attempt sinks) .completed none =
      match parseId attempt.thread (commitIdText attempt.thread k) with
      | .ok id =>
          match (sampling attempt p k sinks true .sealed).prepareSealed (theHandle attempt sinks) []
              id none with
          | (rt, .ok commit) => (rt, .ok (.prepared commit))
          | (rt, .err e) => (rt, .err e)
          | (rt, .crash) => (rt, .crash)
      | .err e => (sampling attempt p k sinks true .sealed, .err e)
      | .crash => (sampling attempt p k sinks true .sealed, .crash) := by
  have hactive : (sampling attempt p k sinks true .opened).requireActive (theHandle attempt sinks) =
      .ok ⟨attempt, theBoundary attempt, true, sinks.length, 0, []⟩ := requireActive_of_active rfl rfl
  have hseal : (sampling attempt p k sinks true .opened).onSink sinks.length (·.sealFacts 0) =
      (sampling attempt p k sinks true .sealed, .ok []) := by
    simp [SamplingRuntime.onSink, sampling, SamplingFactSink.sealFacts, SamplingFactSink.new,
      SinkLifecycle.requireOpen]
  have hsource : (sampling attempt p k sinks true .opened).planner.source = theLedger attempt :=
    hready.source_eq
  have hsource' : (sampling attempt p k sinks true .sealed).planner.source = theLedger attempt :=
    hready.source_eq
  rw [finishSampling, if_neg (by simp), SamplingRuntime.prepareSampling, hactive]
  simp only [ne_eq, not_true_eq_false, if_false, Bool.true_eq_false, theHandle, hsource]
  simp only [theLedger, hseal, hsource']
  have hcommit : (sampling attempt p k sinks true .sealed).nextCommit = k := rfl
  rw [hcommit]
  cases parseId attempt.thread (commitIdText attempt.thread k) <;> rfl

section Prepare

variable {id : SamplingCommitId} (hready : Ready attempt previous pre p)
  (hthread : id.thread = attempt.thread)
  (hprevious : ∀ commit ∈ previous, commit.thread = attempt.thread) (hne : previous ≠ some id)
  (hpre : pre = none ∨ pre = some (theBoundary attempt))

include hready hthread hprevious hne hpre

theorem planner_prepareSampling :
    SamplingPlanner.prepareSampling { p with activeAttempt := some attempt }
        ⟨⟨attempt, 0, theBoundary attempt⟩, []⟩ (theBoundary attempt) id none =
      .ok (p, preparedAt attempt previous pre p id) := by
  have hactive : SamplingPlanner.requireActive { p with activeAttempt := some attempt } attempt =
      .ok () := Outcome.require_eq_ok.mpr rfl
  have hscope : SamplingPlanner.validateCommitScope { p with activeAttempt := some attempt }
      ⟨⟨attempt, 0, theBoundary attempt⟩, []⟩ (theBoundary attempt) id = .ok () := by
    simp [SamplingPlanner.validateCommitScope, Outcome.require, theBoundary, hthread,
      hready.source_eq, theLedger]
  have hreduce : SamplingPlanner.reduceCommit { p with activeAttempt := some attempt }
      ⟨⟨attempt, 0, theBoundary attempt⟩, []⟩ (theBoundary attempt) none =
        .ok ((theParser, theCompiler), .default, []) := hready.reduce
  have hlast : p.source.snapshot.lastBoundary = some (theBoundary attempt) := by
    rw [hready.source_eq]
    rfl
  have hcommitted : p.committedSourceCells ≤ p.source.snapshot.cells.length := by
    rw [hready.source_eq]
    exact hready.committed_le
  have hbuild := hready.build
  rw [← hready.source_eq] at hbuild
  have hvalid := recordAt_valid hthread hprevious hne hpre
  simp only [SamplingPlanner.prepareSampling, hactive, hscope, hreduce, Outcome.ok_bind,
    Outcome.require, if_pos hlast, if_pos hcommitted, hbuild]
  cases p
  obtain rfl := hready.source_eq
  obtain rfl := hready.commit_eq
  obtain rfl := hready.pre_eq
  obtain rfl := hready.inactive
  exact congrArg (fun x ↦ Outcome.mapErr PlannerError.archive x >>= fun _ ↦ Outcome.ok (_, _)) hvalid

theorem finishSampling_of_named (hvalue : id.value = commitIdText attempt.thread k) :
    (sampling attempt p k sinks true .opened).finishSampling (theHandle attempt sinks) .completed none =
      ({ sampling attempt p k sinks true .sealed with
          planner := p
          nextCommit := k + 1
          state := .prepared attempt id }, .ok (.prepared (preparedAt attempt previous pre p id))) := by
  have hparse : parseId attempt.thread (commitIdText attempt.thread k) = .ok id :=
    parseId_eq_ok.mpr ⟨hvalue ▸ id.valid, hthread, hvalue⟩
  have hpost : (sampling attempt p k sinks true .sealed).postBoundary (theHandle attempt sinks) =
      theBoundary attempt := by
    simp [postBoundary, sampling, hready.source_eq, theLedger, theCell, SourceLedger.snapshot,
      SourceSnapshot.lastBoundary]
  have hplanner : (sampling attempt p k sinks true .sealed).planner.prepareSampling
      ⟨(theHandle attempt sinks).attempt, []⟩
      ((sampling attempt p k sinks true .sealed).postBoundary (theHandle attempt sinks)) id none =
        .ok (p, preparedAt attempt previous pre p id) := by
    rw [hpost]
    exact planner_prepareSampling hready hthread hprevious hne hpre
  have hstate : SamplingRuntime.state { sampling attempt p k sinks true .sealed with planner := p } =
      .active ⟨attempt, theBoundary attempt, true, sinks.length, 0, []⟩ := rfl
  have htake := takeActive_of_active hstate
  rw [finishSampling_sampling k sinks hready, hparse]
  simp only [SamplingRuntime.prepareSealed, hplanner]
  dsimp only [theHandle]
  rw [htake]
  rfl

variable (id) in
/-- A sampling by a host leads to a log with its two records. -/
theorem reachable_cycle {log : List ReplayInput} {handles : List SamplingHandle}
    (hattempt : attempt.value = attemptIdText attempt.thread 1)
    (hvalue : id.value = commitIdText attempt.thread k)
    (h : Host.Reachable ⟨resting p k sinks, handles, [], log⟩) :
    ∃ host, Host.Reachable host ∧ host.log = log ++
      [.archive (.samplingStarted (startedAt attempt previous)),
        .archive (.samplingCommit (recordAt attempt previous pre id))] := by
  have hfinish := (reachable_sampling hready hattempt h).step
    (.perform (.finish (theHandle attempt sinks) .completed none) (by simp [Host.Allowed]))
  simp only [Host.perform, finishSampling_of_named hready hthread hprevious hne hpre hvalue]
    at hfinish
  have hinstall := hfinish.step
    (.perform (.install (preparedAt attempt previous pre p id)) (by simp [Host.Allowed]))
  refine ⟨_, hinstall, ?_⟩
  have hok : (SamplingRuntime.installPrepared { sampling attempt p k sinks true .sealed with
      planner := p
      nextCommit := k + 1
      state := .prepared attempt id } (preparedAt attempt previous pre p id)).2 = .ok () := by
    simp [SamplingRuntime.installPrepared, SamplingRuntime.MatchesPending, Outcome.require,
      preparedAt, recordAt, SamplingPlanner.installPrepared, hready.source_eq, hready.commit_eq,
      theLedger]
  simp only [Host.perform]
  split
  · simp [preparedAt]
  · rename_i hnot heq
    rw [heq] at hok
    exact absurd hok hnot

end Prepare

/-- The planner before the first commit. -/
def firstPlanner (attempt : SamplingAttemptId) : SamplingPlanner :=
  { SamplingPlanner.new attempt.thread 0 theConfig with source := theLedger attempt }

theorem ready_firstPlanner (attempt : SamplingAttemptId) :
    Ready attempt none none (firstPlanner attempt) where
  source_eq := rfl
  inactive := rfl
  jit := rfl
  committed_le := Nat.zero_le 1
  pre_eq := rfl
  commit_eq := rfl
  reduce := rfl
  build := buildContextPlan_theLedger attempt none

variable (attempt) in
/-- A host observes one item and loses its first attempt before it is recorded. -/
theorem reachable_lost (lost : SamplingAttemptId) (hthread : lost.thread = attempt.thread)
    (hvalue : lost.value = attemptIdText attempt.thread 0) :
    ∃ sinks handles, Host.Reachable ⟨resting (firstPlanner attempt) 0 sinks, handles, [],
      [.source (.opaqueItem 1)]⟩ := by
  have hobserve := (Host.Reachable.new attempt.thread 0 theConfig).step
    (.perform (.observe [.opaqueItem 1]) trivial)
  have hbegin := hobserve.step (.perform .begin trivial)
  have hcan : CanBegin ⟨firstPlanner attempt, 0, 0, .idle, []⟩ lost := ⟨rfl, rfl, rfl, hthread, hvalue⟩
  have hbegun := beginSampling_of_canBegin hcan
  have hhost : Host.perform (Host.start (SamplingRuntime.new attempt.thread 0 theConfig) [])
      (.observe [.opaqueItem 1]) =
        ⟨⟨firstPlanner attempt, 0, 0, .idle, []⟩, [], [], [.source (.opaqueItem 1)]⟩ := rfl
  rw [hhost] at hbegin
  simp only [Host.perform, hbegun] at hbegin
  have habort := hbegin.step
    (.perform (.abort ⟨⟨lost, 0, theBoundary attempt⟩, 0⟩) (List.mem_singleton_self _))
  have hstate : (begun ⟨firstPlanner attempt, 0, 0, .idle, []⟩ lost).state =
      .active ⟨lost, theBoundary attempt, false, 0, 0, []⟩ := rfl
  have hplanner : (begun ⟨firstPlanner attempt, 0, 0, .idle, []⟩ lost).planner.requireActive lost =
      .ok () := Outcome.require_eq_ok.mpr rfl
  have hrun : (begun ⟨firstPlanner attempt, 0, 0, .idle, []⟩ lost).abortSampling
      ⟨⟨lost, 0, theBoundary attempt⟩, 0⟩ = (resting (firstPlanner attempt) 0
        [(SamplingFactSink.new ⟨lost, 0, theBoundary attempt⟩).clear .aborted], .ok ()) := by
    rw [SamplingRuntime.abortSampling, takeActive_of_active hstate]
    simp only [SamplingPlanner.abortSampling, hplanner]
    rfl
  simp only [Host.perform, hrun] at habort
  exact ⟨_, _, habort⟩

theorem reduce_first (attempt : SamplingAttemptId) :
    reduceSamplingDelta ⟨(theLedger attempt).snapshot, 0, 1, 1, [], none, .verify []⟩
      (.default, .new) = .ok ((theParser, theCompiler), []) := rfl

theorem reduce_later (attempt : SamplingAttemptId) :
    reduceSamplingDelta ⟨(theLedger attempt).snapshot, 1, 1, 1, [], none, .verify []⟩
      (theParser, theCompiler) = .ok ((theParser, theCompiler), []) := rfl

/-- The replay of the first source item. -/
theorem applyInput_source (attempt : SamplingAttemptId) :
    [ReplayInput.source (.opaqueItem 1)].foldlM ReplayState.applyInput (.initial attempt.thread) =
      .ok (replayed attempt none none 0 (.default, .new) ∅ ∅ []) := rfl

end Cycle

/-! ## A hundred resumptions -/

/-- A namespace that leaves room for one digit in an attempt and for two in a commit. -/
def longThread : ThreadNamespace := ⟨.ofList (List.replicate 118 'a'), by decide +kernel⟩

def attemptZero : SamplingAttemptId := ⟨longThread, attemptIdText longThread 0, by decide +kernel⟩

def attemptOne : SamplingAttemptId := ⟨longThread, attemptIdText longThread 1, by decide +kernel⟩

theorem attemptOne_value : attemptOne.value = attemptIdText attemptOne.thread 1 := rfl

theorem commitIdText_injective (thread : ThreadNamespace) :
    Function.Injective (commitIdText thread) := by
  intro m n h
  have hdigits : toString m = toString n := (String.append_right_inj _).mp h
  exact Nat.repr_injective hdigits

theorem valid_commitIdText {k : ℕ} (hk : k < 100) : ValidComponent (commitIdText longThread k) := by
  have hdigits : ∀ k < 100, (toString k).utf8ByteSize ≤ 2 ∧
      (toString k).toList.all identityChar = true := by decide +kernel
  have hsize : longThread.value.utf8ByteSize = 118 := by decide +kernel
  have hkind : "-commit-".utf8ByteSize = 8 ∧ "-commit-".toList.all identityChar = true := by
    decide +kernel
  refine ⟨?_, ?_, ?_⟩
  · intro h
    have hzero := congrArg String.utf8ByteSize h
    simp only [commitIdText, ordinalIdText, String.utf8ByteSize_append, hsize] at hzero
    simp at hzero
  · simp only [commitIdText, ordinalIdText, String.utf8ByteSize_append, hsize, hkind.1, maxIdBytes]
    have := (hdigits k hk).1
    omega
  · simp only [commitIdText, ordinalIdText, String.toList_append, List.all_append, hkind.2,
      (hdigits k hk).2, longThread.valid.2.2, Bool.and_self]

theorem not_valid_commitIdText : ¬ValidComponent (commitIdText longThread 100) := by
  decide +kernel

/-- The commit that the `k`-th resumption makes. -/
def commitAt (k : ℕ) (hk : k < 100) : SamplingCommitId :=
  ⟨longThread, commitIdText longThread k, valid_commitIdText hk⟩

/-- The replay of a log with the first `n` commits. -/
structure Committed (n : ℕ) (host : Host) where
  commits : Finset SamplingCommitId
  applied : List SamplingCommitId
  last : SamplingCommitId
  reachable : host.Reachable
  replay_eq : host.log.foldlM ReplayState.applyInput (.initial attemptOne.thread) =
    .ok (resumed attemptOne (some last) (some (theBoundary attemptOne)) commits applied)
  card_eq : commits.card = n
  last_mem : last ∈ commits
  named : ∀ id ∈ commits, id.thread = longThread ∧ ∃ j < n, id.value = commitIdText longThread j

namespace Committed

variable {n : ℕ} {host : Host}

theorem commitAt_notMem (c : Committed n host) (hn : n < 100) : commitAt n hn ∉ c.commits := by
  intro h
  obtain ⟨-, j, hj, hvalue⟩ := c.named _ h
  exact absurd (commitIdText_injective longThread hvalue) (by omega)

/-- Replay recovers a runtime that goes on after the `n` commits. -/
theorem reachable_recovered (c : Committed n host) :
    Host.Reachable ⟨SamplingRuntime.fromReplay (thePlanner attemptOne (some c.last)
      (some (theBoundary attemptOne))) 1 n, [], [], host.log⟩ := by
  obtain ⟨result, hfinish, hcandidate⟩ := finish_resumed attemptOne (some c.last)
    (some (theBoundary attemptOne)) c.commits c.applied
  have hprepare : CanonicalReplay.prepare ⟨attemptOne.thread, theConfig⟩ host.log = .ok result := by
    rw [CanonicalReplay.prepare_eq, c.replay_eq, Outcome.ok_bind]
    exact hfinish
  have hcount : ReplayState.countInThread c.commits longThread = n := by
    rw [ReplayState.countInThread, Finset.filter_true_of_mem fun id hid ↦ (c.named id hid).1]
    exact c.card_eq
  have hreachable := c.reachable.recovered host _ result hprepare
  have hthread : attemptOne.thread = longThread := rfl
  rw [hcandidate, hthread, hcount] at hreachable
  exact hreachable

end Committed

theorem hundred : 0 < 100 := by decide

theorem exists_committed_one : ∃ host, Nonempty (Committed 1 host) := by
  obtain ⟨sinks, handles, hlost⟩ := reachable_lost attemptOne attemptZero rfl rfl
  obtain ⟨host, hreachable, hlog⟩ := reachable_cycle (commitAt 0 hundred)
    (ready_firstPlanner attemptOne) rfl (by simp) (by simp) (.inl rfl) attemptOne_value rfl hlost
  have hreplay : host.log.foldlM ReplayState.applyInput (.initial attemptOne.thread) =
      .ok (resumed attemptOne (some (commitAt 0 hundred)) (some (theBoundary attemptOne))
        {commitAt 0 hundred} [commitAt 0 hundred]) := by
    rw [hlog, List.foldlM_append, applyInput_source attemptOne, Outcome.ok_bind]
    exact applyInput_cycle [] (reduce_first attemptOne) (by simp) rfl (by simp) (by simp) (.inl rfl)
      (by simp)
  have hnamed : ∀ id ∈ ({commitAt 0 hundred} : Finset SamplingCommitId),
      id.thread = longThread ∧ ∃ j < 1, id.value = commitIdText longThread j := by
    intro id hid
    rw [Finset.mem_singleton.mp hid]
    exact ⟨rfl, 0, Nat.one_pos, rfl⟩
  exact ⟨host, ⟨⟨_, _, _, hreachable, hreplay, Finset.card_singleton _, Finset.mem_singleton_self _,
    hnamed⟩⟩⟩

theorem exists_committed_succ {n : ℕ} {host : Host} (c : Committed n host) (hn : n < 100) :
    ∃ host', Nonempty (Committed (n + 1) host') := by
  have hnew := c.commitAt_notMem hn
  have hprevious : ∀ commit ∈ some c.last, commit.thread = attemptOne.thread := by
    intro commit h
    rw [← Option.mem_some.mp h]
    exact (c.named _ c.last_mem).1
  have hne : some c.last ≠ some (commitAt n hn) := by
    intro h
    exact hnew (Option.some.inj h ▸ c.last_mem)
  obtain ⟨host', hreachable, hlog⟩ := reachable_cycle (commitAt n hn)
    (ready_thePlanner attemptOne (some c.last) (some (theBoundary attemptOne))) rfl hprevious hne
      (.inr rfl) attemptOne_value rfl c.reachable_recovered
  refine ⟨host', ⟨insert (commitAt n hn) c.commits, c.applied ++ [commitAt n hn], commitAt n hn,
    hreachable, ?_, ?_, Finset.mem_insert_self _ _, ?_⟩⟩
  · rw [hlog, List.foldlM_append, c.replay_eq, Outcome.ok_bind]
    exact applyInput_cycle c.applied (reduce_later attemptOne) (by simp) rfl hprevious hne (.inr rfl) hnew
  · rw [Finset.card_insert_of_notMem hnew, c.card_eq]
  · intro id hid
    rcases Finset.mem_insert.mp hid with rfl | hid
    · exact ⟨rfl, n, by omega, rfl⟩
    · obtain ⟨hthread, j, hj, hvalue⟩ := c.named id hid
      exact ⟨hthread, j, by omega, hvalue⟩

theorem exists_committed {n : ℕ} (hn : n < 100) : ∃ host, Nonempty (Committed (n + 1) host) := by
  induction n with
  | zero => exact exists_committed_one
  | succ n ih =>
    obtain ⟨host, ⟨c⟩⟩ := ih (by omega)
    exact exists_committed_succ c hn

end Resumption

namespace Host

open Resumption SamplingRuntime

/-- After a hundred resumptions the next commit cannot be named: the sampling is finished with an
error, and the runtime stays active. -/
theorem exists_error_while_active :
    ∃ host, Reachable host ∧ ∃ handle ∈ host.handles, ActiveHandle host.runtime handle ∧
      ∃ rt' e, host.runtime.finishSampling handle .completed none = (rt', .err e) ∧
        ActiveHandle rt' handle := by
  obtain ⟨host, ⟨c⟩⟩ := exists_committed (n := 99) (by decide)
  have hready := ready_thePlanner attemptOne (some c.last) (some (theBoundary attemptOne))
  have hrecovered : Reachable ⟨resting (thePlanner attemptOne (some c.last)
    (some (theBoundary attemptOne))) 100 [], [], [], host.log⟩ := c.reachable_recovered
  have hstarted := reachable_sampling hready attemptOne_value hrecovered
  obtain ⟨e, hparse⟩ : ∃ e, parseId attemptOne.thread (commitIdText attemptOne.thread 100) =
      .err e := by
    cases hparse : parseId attemptOne.thread (commitIdText attemptOne.thread 100) with
    | ok id => exact absurd (parseId_eq_ok.mp hparse).1 not_valid_commitIdText
    | err e => exact ⟨e, rfl⟩
    | crash => exact absurd hparse (parseId_ne_crash _ _)
  have hfinish := finishSampling_sampling 100 [] hready
  rw [hparse] at hfinish
  exact ⟨_, hstarted, theHandle attemptOne [], by simp, ⟨_, rfl, rfl⟩, _, e, hfinish, ⟨_, rfl, rfl⟩⟩

end Host

end SpineCodex
