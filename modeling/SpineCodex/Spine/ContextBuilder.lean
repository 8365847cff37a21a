import SpineCodex.Spine.ContextPlan
import SpineCodex.Spine.SamplingDelta
import SpineCodex.Spine.Sink

/-!
# Building a context plan

The builder walks over the visible context and consumes the source cells that its items
stand for; items without source become projection cells.
-/

namespace SpineCodex

inductive Feature where
  | jit
  | spawn
  deriving Repr, DecidableEq

inductive PlannerTransitionError where
  | multipleStructuralFacts
  | taskCursorRequired (operation : String)
  deriving Repr, DecidableEq

inductive PlannerError where
  | source (error : SourceLedgerError)
  | sampling (error : SamplingError)
  | parse (error : CharParseError)
  | compileSpine (error : SpineError)
  | invalidTransition (error : PlannerTransitionError)
  | invalidFact (error : ExecutedFactError)
  | contextPlan (error : ContextPlanError)
  | archive (error : ArchiveError)
  | samplingAlreadyActive
  | jitDisabled
  | featureDisabled (feature : Feature)
  | noActiveSampling
  | attemptMismatch
  | identityScopeMismatch
  | invalidBoundaryOrder
  | postBoundaryIsNotSourceTail
  | committedSourcePrefixMissing
  | factHasNoSourceGroup (execution : ExecutionId)
  | missingSourceBoundary (boundary : RawBoundary)
  | invalidCompactBarrier (reason : String)
  | samplingNotStarted
  | samplingAlreadyStarted
  | samplingCommitPendingInstall
  | preparedSamplingMismatch
  | preparedSamplingStale
  | duplicateExecutionKey (key : String)
  | unknownExecutionKey (key : String)
  | executionAlreadyStaged (key : String)
  | successfulExecutionMissingFact (key : String)
  | pendingExecutions (count : ℕ)
  deriving DecidableEq

/-- `ContextPlanBuilder`: what a build has used and produced so far. -/
structure ContextPlanBuilder where
  usedSource : Finset SourceCellId
  usedProjection : Finset ProjectionCellId
  nextProjectionOrdinal : ℕ
  cells : List ContextPlanCell
  deriving DecidableEq

namespace ContextPlanBuilder

def new (nextProjectionOrdinal : ℕ) : ContextPlanBuilder := ⟨∅, ∅, nextProjectionOrdinal, []⟩

/-- The first unused source cell that carries the item as a synthetic payload. -/
def syntheticSource (source : SourceSnapshot) (b : ContextPlanBuilder) (item : ContextItem) :
    Option SourceCell :=
  source.cells.find? fun cell ↦ cell.payload = .synthetic item ∧ cell.id ∉ b.usedSource

/-- `source_at_boundary`.  The cells are strictly ordered by boundary, so that the binary search
finds a cell exactly when a search from the front does. -/
def sourceAtBoundary (source : SourceSnapshot) (b : ContextPlanBuilder) (boundary : RawBoundary) :
    Option SourceCell :=
  (source.sourceAtRawBoundary boundary).filter (·.id ∉ b.usedSource)

def pushSource (b : ContextPlanBuilder) (cell : SourceCell) (labels : List ContextLabel) :
    ContextPlanBuilder :=
  { b with
    usedSource := insert cell.id b.usedSource
    cells := b.cells ++ [.source cell.id labels] }

/-- `allocate_projection_id`: the least ordinal that is not in use. -/
def allocateProjectionId (source : SourceSnapshot) (b : ContextPlanBuilder) : ProjectionCellId :=
  let free := (List.range (b.usedProjection.card + 1)).find? fun ordinal ↦
    (⟨source.thread, source.epoch, ordinal⟩ : ProjectionCellId) ∉ b.usedProjection
  ⟨source.thread, source.epoch, free.getD b.usedProjection.card⟩

/-- The identity that the item had in the previous plan, unless it is in use. -/
def reusable (source : SourceSnapshot) (previous : Option ContextPlanRecipe)
    (b : ContextPlanBuilder) (item : ContextItem) : Option ProjectionCellId :=
  previous.bind fun plan ↦ plan.cells.findSome? fun
    | .projection projectionId previousItem =>
        if projectionId.thread = source.thread ∧ projectionId.epoch = source.epoch ∧
            previousItem = item ∧ projectionId ∉ b.usedProjection then some projectionId
        else none
    | .source _ _ => none

def pushProjection (source : SourceSnapshot) (previous : Option ContextPlanRecipe)
    (b : ContextPlanBuilder) (item : ContextItem) : ContextPlanBuilder :=
  let projectionId := (reusable source previous b item).getD (allocateProjectionId source b)
  { b with
    usedProjection := insert projectionId b.usedProjection
    nextProjectionOrdinal := max b.nextProjectionOrdinal (projectionId.ordinal + 1)
    cells := b.cells ++ [.projection projectionId item] }

/-- The unused cells of a span; both ends belong to the span. -/
def spanCells (source : SourceSnapshot) (b : ContextPlanBuilder) (span : RawSpan) :
    List SourceCell :=
  ((source.cells.dropWhile (·.boundary.ordinal < span.start)).takeWhile
    (·.boundary.ordinal ≤ span.stop)).filter (·.id ∉ b.usedSource)

def pushSpan (source : SourceSnapshot) (b : ContextPlanBuilder) (span : RawSpan) :
    Outcome PlannerError ContextPlanBuilder :=
  match spanCells source b span with
  | [] => .err (.missingSourceBoundary span.start)
  | cells => .ok (cells.foldl (fun b cell ↦ b.pushSource cell []) b)

/-- The source cell of a message, which must carry the same message. -/
def pushMessage (source : SourceSnapshot) (b : ContextPlanBuilder) (message : Message)
    (labels : List ContextLabel) : Outcome PlannerError ContextPlanBuilder := do
  let cell ← .okOr (.missingSourceBoundary message.boundary)
    ((sourceAtBoundary source b message.boundary).filter (·.payload = .message message))
  pure (b.pushSource cell labels)

/-- The part of `push_item` behind the search for a synthetic cell. -/
def pushPlain (source : SourceSnapshot) (previous : Option ContextPlanRecipe)
    (b : ContextPlanBuilder) (item : ContextItem) : Outcome PlannerError ContextPlanBuilder :=
  match item with
  | .message message userAnchor =>
      pushMessage source b message (userAnchor.toList.map .userAnchor)
  | .sourceSpan span => pushSpan source b span
  | .memorySlot (.user _ message anchor) => pushMessage source b message [.userAnchor anchor]
  | .native (.rollout ordinal) => do
      let cell ← .okOr (.missingSourceBoundary ordinal) (sourceAtBoundary source b ordinal)
      pure (b.pushSource cell [])
  | .native (.compactReplacement _ _) | .syntheticNode _ _ _ | .memorySlot (.summary _ _ _)
  | .memorySlot (.spawnEvidence _ _ _ _ _ _) => .ok (pushProjection source previous b item)

/-- `push_item`: a synthetic cell with the item goes first. -/
def pushItem (source : SourceSnapshot) (previous : Option ContextPlanRecipe)
    (b : ContextPlanBuilder) (item : ContextItem) : Outcome PlannerError ContextPlanBuilder :=
  match syntheticSource source b item with
  | some cell => .ok (b.pushSource cell [])
  | none => pushPlain source previous b item

/-- A boundary whose message the parser still holds back. -/
def pushPending (source : SourceSnapshot) (b : ContextPlanBuilder) (boundary : RawBoundary) :
    Outcome PlannerError ContextPlanBuilder := do
  let cell ← .okOr (.missingSourceBoundary boundary) (sourceAtBoundary source b boundary)
  pure (b.pushSource cell [])

end ContextPlanBuilder

/-- The memory of all nodes, in the order of the nodes. -/
def projectionMemorySlots (projection : SpineProjection) : List MemorySlot :=
  projection.nodes.flatMap fun node ↦ node.memory.getD []

/-- The cells of a plan, before the plan is validated. -/
def buildCells (source : SourceSnapshot) (projection : SpineProjection)
    (pendingBoundaries : List RawBoundary) (previous : Option ContextPlanRecipe)
    (nextProjectionOrdinal : ℕ) : Outcome PlannerError ContextPlanBuilder := do
  let b ← projection.visibleContext.foldlM (ContextPlanBuilder.pushItem source previous)
    (.new nextProjectionOrdinal)
  pendingBoundaries.foldlM (ContextPlanBuilder.pushPending source) b

/-- The plan with the given cells. -/
def planOf (source : SourceSnapshot) (projection : SpineProjection)
    (cells : List ContextPlanCell) : ContextPlanRecipe where
  schema := contextPlanSchemaV1
  thread := source.thread
  epoch := source.epoch
  sourceSnapshotDigest := none
  cells := cells
  memorySlots := projectionMemorySlots projection
  planDigest := none

/-- `build_context_plan`: the plan and the next projection ordinal. -/
def buildContextPlan (source : SourceSnapshot) (projection : SpineProjection)
    (pendingBoundaries : List RawBoundary) (previous : Option ContextPlanRecipe)
    (nextProjectionOrdinal : ℕ) : Outcome PlannerError (ContextPlanRecipe × ℕ) := do
  let b ← buildCells source projection pendingBoundaries previous nextProjectionOrdinal
  let plan := planOf source projection b.cells
  plan.validate.mapErr .contextPlan
  pure (plan, b.nextProjectionOrdinal)

theorem buildContextPlan_eq_ok {source : SourceSnapshot} {projection : SpineProjection}
    {pendingBoundaries : List RawBoundary} {previous : Option ContextPlanRecipe} {next : ℕ}
    {result : ContextPlanRecipe × ℕ} :
    buildContextPlan source projection pendingBoundaries previous next = .ok result ↔
      ∃ b, buildCells source projection pendingBoundaries previous next = .ok b ∧
        (planOf source projection b.cells).validate = .ok () ∧
        result = (planOf source projection b.cells, b.nextProjectionOrdinal) := by
  simp only [buildContextPlan, Outcome.bind_eq_ok, Outcome.mapErr_eq_ok, Outcome.pure_eq,
    Outcome.ok.injEq]
  constructor
  · rintro ⟨b, hb, _, hvalid, rfl⟩
    exact ⟨b, hb, hvalid, rfl⟩
  · rintro ⟨b, hb, hvalid, rfl⟩
    exact ⟨b, hb, (), hvalid, rfl⟩

end SpineCodex
