import SpineCodex.Kernel.Ledger
import SpineCodex.Lib.BinarySearch

/-!
# Source cells by index

The builder of context plans does not scan the source.  It searches a boundary by halving and takes
a span from a partition point up to the first cell behind the span.  Here the builder is given the
way in which it finds cells: by index, as the source has it, or by a scan over all cells for unused
ones.  On cells with strictly increasing boundaries both ways find the same cells in the same order,
so that both builders return the same plan or the same error.
-/

namespace SpineCodex

/-- How a builder finds cells that it has not used: the one at a boundary, and those of a span. -/
@[ext]
structure SourceLookup where
  sourceAtBoundary : ContextPlanBuilder → RawBoundary → Option SourceCell
  spanCells : ContextPlanBuilder → RawSpan → List SourceCell

namespace SourceLookup

/-- `source_at_boundary` and the sweep of `push_span`, by index. -/
def indexed (source : SourceSnapshot) : SourceLookup where
  sourceAtBoundary b boundary :=
    let found := binarySearchBy (fun cell ↦ compare cell.boundary.ordinal boundary) source.cells
    (found.toOption.bind fun index ↦ source.cells[index]?).filter (·.id ∉ b.usedSource)
  spanCells b span :=
    let start := partitionPoint (·.boundary.ordinal < span.start) source.cells
    ((source.cells.drop start).takeWhile (·.boundary.ordinal ≤ span.stop)).filter
      (·.id ∉ b.usedSource)

/-- A scan over all cells. -/
def linear (source : SourceSnapshot) : SourceLookup where
  sourceAtBoundary b boundary :=
    source.cells.find? fun cell ↦ cell.boundary.ordinal == boundary && cell.id ∉ b.usedSource
  spanCells b span :=
    source.cells.filter fun cell ↦ decide (span.start ≤ cell.boundary.ordinal) &&
      decide (cell.boundary.ordinal ≤ span.stop) && decide (cell.id ∉ b.usedSource)

/-- A walk from the front, as far as the cells are needed. -/
def walk (source : SourceSnapshot) : SourceLookup where
  sourceAtBoundary := ContextPlanBuilder.sourceAtBoundary source
  spanCells := ContextPlanBuilder.spanCells source

/-! ## The builder -/

section Builder

variable (lookup : SourceLookup)

def pushSpan (b : ContextPlanBuilder) (span : RawSpan) : Outcome PlannerError ContextPlanBuilder :=
  match lookup.spanCells b span with
  | [] => .err (.missingSourceBoundary span.start)
  | cells => .ok (cells.foldl (fun b cell ↦ b.pushSource cell []) b)

def pushMessage (b : ContextPlanBuilder) (message : Message) (labels : List ContextLabel) :
    Outcome PlannerError ContextPlanBuilder := do
  let cell ← .okOr (.missingSourceBoundary message.boundary)
    ((lookup.sourceAtBoundary b message.boundary).filter (·.payload = .message message))
  pure (b.pushSource cell labels)

/-- A cell at a boundary, whatever it carries. -/
def pushBoundary (b : ContextPlanBuilder) (boundary : RawBoundary) :
    Outcome PlannerError ContextPlanBuilder := do
  let cell ← .okOr (.missingSourceBoundary boundary) (lookup.sourceAtBoundary b boundary)
  pure (b.pushSource cell [])

/-- The part of `push_item` behind the search for a synthetic cell. -/
def pushPlain (source : SourceSnapshot) (previous : Option ContextPlanRecipe)
    (b : ContextPlanBuilder) (item : ContextItem) : Outcome PlannerError ContextPlanBuilder :=
  match item with
  | .message message userAnchor =>
      lookup.pushMessage b message (userAnchor.toList.map .userAnchor)
  | .sourceSpan span => lookup.pushSpan b span
  | .memorySlot (.user _ message anchor) => lookup.pushMessage b message [.userAnchor anchor]
  | .native (.rollout ordinal) => lookup.pushBoundary b ordinal
  | .native (.compactReplacement _ _) | .syntheticNode _ _ _ | .memorySlot (.summary _ _ _)
  | .memorySlot (.spawnEvidence _ _ _ _ _ _) => .ok (b.pushProjection source previous item)

def pushItem (source : SourceSnapshot) (previous : Option ContextPlanRecipe)
    (b : ContextPlanBuilder) (item : ContextItem) : Outcome PlannerError ContextPlanBuilder :=
  match b.syntheticSource source item with
  | some cell => .ok (b.pushSource cell [])
  | none => lookup.pushPlain source previous b item

/-- `build_context_plan` with the given lookup. -/
def buildContextPlan (source : SourceSnapshot) (projection : SpineProjection)
    (pendingBoundaries : List RawBoundary) (previous : Option ContextPlanRecipe)
    (nextProjectionOrdinal : ℕ) : Outcome PlannerError (ContextPlanRecipe × ℕ) := do
  let b ← projection.visibleContext.foldlM (lookup.pushItem source previous)
    (.new nextProjectionOrdinal)
  let b ← pendingBoundaries.foldlM lookup.pushBoundary b
  let plan := planOf source projection b.cells
  plan.validate.mapErr .contextPlan
  pure (plan, b.nextProjectionOrdinal)

end Builder

/-! ## The same cells -/

section Increasing

variable {source : SourceSnapshot}

/-- The cells of a snapshot have strictly increasing raw boundaries. -/
def Increasing (source : SourceSnapshot) : Prop :=
  source.cells.Pairwise fun first second ↦ first.boundary.ordinal < second.boundary.ordinal

instance (source : SourceSnapshot) : Decidable (Increasing source) :=
  inferInstanceAs (Decidable (source.cells.Pairwise _))

/-- Of items with increasing keys, the one with a key is the only one to ask. -/
private theorem filter_find?_key {α : Type*} {key : α → ℕ} {items : List α}
    (hkeys : items.Pairwise fun first second ↦ key first < key second) (wanted : ℕ)
    (condition : α → Bool) :
    (items.find? fun item ↦ key item == wanted).filter condition =
      items.find? fun item ↦ key item == wanted && condition item := by
  induction items with
  | nil => rfl
  | cons first items ih =>
    obtain ⟨hfirst, hrest⟩ := List.pairwise_cons.mp hkeys
    by_cases hkey : key first = wanted
    · have hlater : (items.find? fun item ↦ key item == wanted && condition item) = none := by
        rw [List.find?_eq_none]
        intro item hitem heq
        have hlt := hfirst item hitem
        have heq : key item = wanted := beq_iff_eq.mp (Bool.and_eq_true_iff.mp heq).1
        omega
      rw [List.find?_cons, List.find?_cons, hlater, beq_iff_eq.mpr hkey]
      cases hcondition : condition first <;> simp [Option.filter, hcondition]
    · rw [List.find?_cons, List.find?_cons, beq_eq_false_iff_ne.mpr hkey, Bool.false_and]
      exact ih hrest

/-- The cells of a span, found from its start to its end or among all cells. -/
private theorem sweep_eq_filter (h : Increasing source) (span : RawSpan)
    (condition : SourceCell → Bool) :
    ((source.cells.dropWhile (·.boundary.ordinal < span.start)).takeWhile
      (·.boundary.ordinal ≤ span.stop)).filter condition =
      source.cells.filter fun cell ↦ decide (span.start ≤ cell.boundary.ordinal) &&
        decide (cell.boundary.ordinal ≤ span.stop) && condition cell := by
  have hstart : source.cells.dropWhile (·.boundary.ordinal < span.start) =
      source.cells.filter fun cell ↦ decide (span.start ≤ cell.boundary.ordinal) := by
    rw [dropWhile_eq_filter]
    · apply List.filter_congr
      intro cell _
      rw [← decide_not, decide_eq_decide, not_lt]
    · refine h.imp fun hlt hsecond ↦ ?_
      exact decide_eq_true (hlt.trans (of_decide_eq_true hsecond))
  rw [hstart, takeWhile_eq_filter, List.filter_filter, List.filter_filter]
  · apply List.filter_congr
    intro cell _
    rw [Bool.and_comm, Bool.and_comm (condition cell), Bool.and_assoc]
  · refine (h.filter _).imp fun hlt hsecond ↦ ?_
    exact decide_eq_true (hlt.le.trans (of_decide_eq_true hsecond))

theorem indexed_eq_linear (h : Increasing source) : indexed source = linear source := by
  ext1
  · funext b boundary
    simp only [indexed, linear]
    rw [binarySearchBy_key h, filter_find?_key h]
  · funext b span
    simp only [indexed, linear]
    rw [drop_partitionPoint, sweep_eq_filter h]
    refine h.imp fun hlt hsecond ↦ ?_
    exact decide_eq_true (hlt.trans (of_decide_eq_true hsecond))

theorem walk_eq_linear (h : Increasing source) : walk source = linear source := by
  ext1
  · funext b boundary
    exact filter_find?_key h boundary _
  · funext b span
    exact sweep_eq_filter h span _

/-- The builder of the planner finds its cells by a walk. -/
theorem buildContextPlan_walk (source : SourceSnapshot) (projection : SpineProjection)
    (pendingBoundaries : List RawBoundary) (previous : Option ContextPlanRecipe) (next : ℕ) :
    (walk source).buildContextPlan source projection pendingBoundaries previous next =
      SpineCodex.buildContextPlan source projection pendingBoundaries previous next := by
  have hplain : (walk source).pushPlain source previous =
      ContextPlanBuilder.pushPlain source previous := by
    funext b item
    cases item with
    | native reference => cases reference <;> rfl
    | memorySlot slot => cases slot <;> rfl
    | message | sourceSpan | syntheticNode => rfl
  have hitem : (walk source).pushItem source previous =
      ContextPlanBuilder.pushItem source previous := by
    funext b item
    cases hsynthetic : b.syntheticSource source item with
    | some cell => simp only [pushItem, ContextPlanBuilder.pushItem, hsynthetic]
    | none => simp only [pushItem, ContextPlanBuilder.pushItem, hsynthetic, hplain]
  have hpending : (walk source).pushBoundary = ContextPlanBuilder.pushPending source := rfl
  rw [buildContextPlan, SpineCodex.buildContextPlan, buildCells, hitem, hpending, bind_assoc]

/-- On the snapshot of a ledger, the builder of the planner is the one that searches by index. -/
theorem buildContextPlan_ledger {l : SourceLedger} (h : l.Ordered) (projection : SpineProjection)
    (pendingBoundaries : List RawBoundary) (previous : Option ContextPlanRecipe) (next : ℕ) :
    (indexed l.snapshot).buildContextPlan l.snapshot projection pendingBoundaries previous next =
      SpineCodex.buildContextPlan l.snapshot projection pendingBoundaries previous next := by
  have hincreasing : Increasing l.snapshot := List.pairwise_map.mp h.sorted
  rw [indexed_eq_linear hincreasing, ← walk_eq_linear hincreasing, buildContextPlan_walk]

/-- The searches by index find what the scans find, and the plans built with them are the same, or
fail with the same error. -/
theorem indexed_builds_as_linear (h : Increasing source) :
    (∀ b boundary, (indexed source).sourceAtBoundary b boundary =
      (linear source).sourceAtBoundary b boundary) ∧
    (∀ b span, (indexed source).spanCells b span = (linear source).spanCells b span) ∧
    ∀ projection pendingBoundaries previous next,
      (indexed source).buildContextPlan source projection pendingBoundaries previous next =
        (linear source).buildContextPlan source projection pendingBoundaries previous next := by
  rw [indexed_eq_linear h]
  exact ⟨fun _ _ ↦ rfl, fun _ _ ↦ rfl, fun _ _ _ _ ↦ rfl⟩

end Increasing

theorem parent_valid : ValidComponent "parent" := by decide

theorem child_valid : ValidComponent "child" := by decide

/-- Cells of a parent thread and of the thread that continues it. -/
def forkedSource : SourceSnapshot where
  thread := ⟨"child", child_valid⟩
  epoch := 0
  cells := [(⟨"parent", parent_valid⟩, 0, 2), (⟨"parent", parent_valid⟩, 1, 4),
    (⟨"child", child_valid⟩, 0, 6), (⟨"child", child_valid⟩, 1, 8)].map fun (thread, ordinal, boundary) ↦
      ⟨⟨thread, 0, ordinal⟩, ⟨thread, 0, boundary⟩, .opaqueItem, .native (.rollout boundary)⟩

/-- A cell, what a span around it has left, and a pending boundary behind the span. -/
theorem forkedSource_builds_as_linear :
    Increasing forkedSource ∧
    (∀ span, (indexed forkedSource).spanCells (.new 0) span =
      (linear forkedSource).spanCells (.new 0) span) ∧
    (indexed forkedSource).buildContextPlan forkedSource
        ⟨[], ⟨[1]⟩, [.native (.rollout 4), .sourceSpan ⟨1, 6⟩], none⟩ [8] none 0 =
      (linear forkedSource).buildContextPlan forkedSource
        ⟨[], ⟨[1]⟩, [.native (.rollout 4), .sourceSpan ⟨1, 6⟩], none⟩ [8] none 0 := by
  have h : Increasing forkedSource := by decide
  exact ⟨h, (indexed_builds_as_linear h).2.1 _, (indexed_builds_as_linear h).2.2 _ _ _ _⟩

end SourceLookup

end SpineCodex
