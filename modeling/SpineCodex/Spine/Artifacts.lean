import SpineCodex.Spine.Model

/-!
# What a host derives from a projection

The memory artifacts of the closed tasks and the tree that a status command shows.
-/

namespace SpineCodex

/-! ## Memory artifacts -/

structure MemoryArtifact where
  nodeId : NodeId
  summary : String
  body : String
  deriving Repr, DecidableEq

/-- The body of a summary slot of the given node. -/
def MemorySlot.bodyOf? (id : NodeId) : MemorySlot → Option String
  | .summary ownerNode _ body => if ownerNode = id then some body else none
  | _ => none

/-- The body of any summary slot. -/
def MemorySlot.body? : MemorySlot → Option String
  | .summary _ _ body => some body
  | _ => none

/-- A task that was closed. -/
def NodeSnapshot.IsClosedTask (node : NodeSnapshot) : Prop :=
  node.kind = .task ∧ node.status = .closed

instance (node : NodeSnapshot) : Decidable node.IsClosedTask :=
  inferInstanceAs (Decidable (_ ∧ _))

/-- The artifact of one closed task, by the first summary slot of its own. -/
def NodeSnapshot.artifact? (node : NodeSnapshot) : Option MemoryArtifact := do
  let memory ← node.memory
  let body ← memory.findSome? (MemorySlot.bodyOf? node.id)
  some ⟨node.id, node.summary.getD "node", body⟩

/-- `closed_memory_artifacts`. -/
def closedMemoryArtifacts (projection : SpineProjection) : List MemoryArtifact :=
  (projection.nodes.filter fun node ↦ node.IsClosedTask).filterMap NodeSnapshot.artifact?

/-! ## The status tree -/

inductive ContextPressureProblem where
  | missingCurrentUsage
  | missingOpenContextBaseline
  | coordinateMismatch
  deriving Repr, DecidableEq

structure ContextPressure where
  openInputTokens : Option ℤ
  currentInputTokens : Option ℤ
  contextTokens : Option ℤ
  problem : Option ContextPressureProblem
  deriving Repr, DecidableEq

structure TokenUsageSample where
  boundary : RawBoundary
  inputTokens : ℤ
  deriving Repr, DecidableEq

structure TreeNode where
  id : NodeId
  parent : Option NodeId
  kind : NodeKind
  status : NodeStatus
  summary : Option String
  memorySummary : Option String
  spawnOutcome : Option SpawnOutcome
  start : RawBoundary
  stop : Option RawBoundary
  pressure : Option ContextPressure
  deriving Repr, DecidableEq

structure TreeSnapshot where
  cursor : NodeId
  nodes : List TreeNode
  lastBoundary : Option RawBoundary
  deriving Repr, DecidableEq

/-- `context_pressure`; the difference of two `i64` is checked. -/
def contextPressure (opened current : Option ℤ) : ContextPressure :=
  match current, opened with
  | none, _ => ⟨opened, none, none, some .missingCurrentUsage⟩
  | some current, none => ⟨none, some current, none, some .missingOpenContextBaseline⟩
  | some current, some opened =>
      if 0 ≤ current - opened ∧ current - opened < 2 ^ 63 then
        ⟨some opened, some current, some (current - opened), none⟩
      else ⟨some opened, some current, none, some .coordinateMismatch⟩

/-- `context_pressures`: one entry for each open node, a later one of an equal id replacing an
earlier one. -/
def contextPressures (projection : SpineProjection) (samples : List TokenUsageSample) :
    List (NodeId × ContextPressure) :=
  let current := samples.reverse.findSome? fun sample ↦
    if 0 < sample.inputTokens then some sample.inputTokens else none
  (projection.nodes.filter fun node ↦ node.status = .live ∨ node.status = .opened).map fun node ↦
    let opened := ((samples.find? fun sample ↦ node.start < sample.boundary).map
      (·.inputTokens)).filter (0 < ·)
    (node.id, contextPressure opened current)

/-- The outcome in a spawn evidence of the given node. -/
def MemorySlot.outcomeOf? (id : NodeId) : MemorySlot → Option SpawnOutcome
  | .spawnEvidence ownerNode _ _ outcome _ _ => if ownerNode = id then some outcome else none
  | _ => none

/-- `tree_snapshot`. -/
def treeSnapshot (projection : SpineProjection) (samples : List TokenUsageSample) :
    TreeSnapshot where
  cursor := projection.cursor
  nodes := projection.nodes.map fun node ↦
    { id := node.id
      parent := node.parent
      kind := node.kind
      status := node.status
      summary := node.summary
      memorySummary := node.memory.bind fun slots ↦ slots.reverse.findSome? MemorySlot.body?
      spawnOutcome := node.memory.bind fun slots ↦ slots.findSome? (MemorySlot.outcomeOf? node.id)
      start := node.start
      stop := node.stop
      pressure := ((contextPressures projection samples).reverse.find? (·.1 = node.id)).map
        Prod.snd }
  lastBoundary := projection.lastBoundary

end SpineCodex
