import SpineCodex.Spine.Archive
import SpineCodex.Spine.Compiler
import SpineCodex.Spine.SourceLedger

/-!
# Context plans

A plan lists the cells of the context to send: source cells by identity, and items that
only the projection knows.
-/

namespace SpineCodex

open Json (object array string number)

def contextPlanSchemaV1 : String := "spine.context.plan.v1"
def maxContextPlanBytes : ℕ := 2 * 1024 * 1024
def maxContextPlanMemorySlots : ℕ := maxVisibleContextItems
def maxContextLabelsPerSource : ℕ := 1

inductive ContextPlanCell where
  | source (sourceId : SourceCellId) (labels : List ContextLabel)
  | projection (projectionId : ProjectionCellId) (item : ContextItem)
  deriving DecidableEq

structure ContextPlanRecipe where
  schema : String
  thread : ThreadNamespace
  epoch : ContextEpoch
  sourceSnapshotDigest : Option RecordDigest
  cells : List ContextPlanCell
  memorySlots : List MemorySlot
  planDigest : Option RecordDigest
  deriving DecidableEq

inductive ContextCellProvenance where
  | source (id : SourceCellId)
  | projection (id : ProjectionCellId)
  deriving DecidableEq

structure ResolvedContextCell where
  provenance : ContextCellProvenance
  item : ContextItem
  labels : List ContextLabel
  deriving DecidableEq

structure ResolvedContextPlan where
  cells : List ResolvedContextCell
  memorySlots : List MemorySlot
  deriving DecidableEq

inductive ContextPlanError where
  | unsupportedSchema (actual : String)
  | identityScopeMismatch
  | tooManyCells (max actual : ℕ)
  | tooManyMemorySlots (max actual : ℕ)
  | duplicateSourceCell (id : SourceCellId)
  | duplicateProjectionCell (id : ProjectionCellId)
  | invalidSourceLabels (id : SourceCellId)
  | recipeTooLarge (maxBytes actualBytes : ℕ)
  | sourceSnapshotScopeMismatch
  | missingSourceCell (id : SourceCellId)
  deriving DecidableEq

def ContextLabel.toJson : ContextLabel → Json
  | .userAnchor anchor => object [("UserAnchor", number anchor)]

def ContextPlanCell.toJson : ContextPlanCell → Json
  | .source sourceId labels => object [("type", string "source"), ("source_id", sourceId.toJson),
      ("labels", array (labels.map ContextLabel.toJson))]
  | .projection projectionId item => object [("type", string "projection"),
      ("projection_id", projectionId.toJson), ("item", item.toJson)]

namespace ContextPlanRecipe

def toJson (plan : ContextPlanRecipe) : Json :=
  object ([("schema", string plan.schema), ("thread", plan.thread.toJson),
      ("epoch", number plan.epoch)] ++
    optionalField "source_snapshot_digest" RecordDigest.toJson plan.sourceSnapshotDigest ++
    [("cells", array (plan.cells.map ContextPlanCell.toJson)),
      ("memory_slots", array (plan.memorySlots.map MemorySlot.toJson))] ++
    optionalField "plan_digest" RecordDigest.toJson plan.planDigest)

/-- The checks on one cell, given the identities seen before it. -/
def validateCell (plan : ContextPlanRecipe) (seen : Finset SourceCellId × Finset ProjectionCellId) :
    ContextPlanCell → Outcome ContextPlanError (Finset SourceCellId × Finset ProjectionCellId)
  | .source sourceId labels => do
      .require (sourceId.epoch = plan.epoch) .identityScopeMismatch
      .require (sourceId ∉ seen.1) (.duplicateSourceCell sourceId)
      .require (labels.length ≤ maxContextLabelsPerSource ∧ labels.Nodup)
        (.invalidSourceLabels sourceId)
      pure (insert sourceId seen.1, seen.2)
  | .projection projectionId _ => do
      .require (projectionId.thread = plan.thread ∧ projectionId.epoch = plan.epoch)
        .identityScopeMismatch
      .require (projectionId ∉ seen.2) (.duplicateProjectionCell projectionId)
      pure (seen.1, insert projectionId seen.2)

/-- `validate`, which is `validate_structure`; `finalize` returns the plan after it. -/
def validate (plan : ContextPlanRecipe) : Outcome ContextPlanError Unit := do
  .require (plan.schema = contextPlanSchemaV1) (.unsupportedSchema plan.schema)
  .require (plan.cells.length ≤ maxVisibleContextItems)
    (.tooManyCells maxVisibleContextItems plan.cells.length)
  .require (plan.memorySlots.length ≤ maxContextPlanMemorySlots)
    (.tooManyMemorySlots maxContextPlanMemorySlots plan.memorySlots.length)
  let _ ← plan.cells.foldlM plan.validateCell (∅, ∅)
  let actualBytes := plan.toJson.byteSize
  .require (actualBytes ≤ maxContextPlanBytes) (.recipeTooLarge maxContextPlanBytes actualBytes)

/-- One cell resolved against a snapshot. -/
def resolveCell (source : SourceSnapshot) : ContextPlanCell →
    Outcome ContextPlanError ResolvedContextCell
  | .source sourceId labels => do
      let item ← .okOr (.missingSourceCell sourceId) (source.resolve sourceId)
      pure ⟨.source sourceId, item, labels⟩
  | .projection projectionId item => .ok ⟨.projection projectionId, item, []⟩

def resolve (plan : ContextPlanRecipe) (source : SourceSnapshot) :
    Outcome ContextPlanError ResolvedContextPlan := do
  plan.validate
  .require (source.thread = plan.thread ∧ source.epoch = plan.epoch) .sourceSnapshotScopeMismatch
  let cells ← plan.cells.mapM (resolveCell source)
  pure ⟨cells, plan.memorySlots⟩

end ContextPlanRecipe

end SpineCodex
