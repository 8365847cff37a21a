import SpineCodex.Spine.Model

/-!
# The reducer

The tree of runtime nodes and the transitions that source events, compactions
and executed facts make on it.  A missing node aborts the process in the source
(`node_index` panics), so every transition returns an `Option` whose `none`
stands for that abort.

Children are numbered with 32-bit arithmetic: `count as u32 + 1` wraps and
`saturating_add` sticks at the top.
-/

namespace SpineCodex

/-- The number of values of a `u32`. -/
def u32Size : ℕ := 2 ^ 32

/-- `n as u32 + 1`. -/
def u32Succ (n : ℕ) : ℕ := (n % u32Size + 1) % u32Size

/-- `u32::try_from(n).unwrap_or(u32::MAX)`. -/
def u32Clamp (n : ℕ) : ℕ := min n (u32Size - 1)

/-- `u32::saturating_add`. -/
def u32SaturatingAdd (a b : ℕ) : ℕ := min (a + b) (u32Size - 1)

inductive NodeEntry where
  | leaf (item : ContextItem)
  | child (id : NodeId)
  deriving Repr, DecidableEq

structure RuntimeNode where
  id : NodeId
  parent : Option NodeId
  status : NodeStatus
  summary : Option String
  memory : Option (List MemorySlot)
  start : RawBoundary
  stop : Option RawBoundary
  openInputTokens : Option ℕ
  entries : List NodeEntry
  deriving Repr, DecidableEq

namespace NodeEntry

def child? : NodeEntry → Option NodeId
  | .child id => some id
  | .leaf _ => none

end NodeEntry

namespace RuntimeNode

def children (node : RuntimeNode) : List NodeId := node.entries.filterMap NodeEntry.child?

def snapshot (node : RuntimeNode) : NodeSnapshot where
  id := node.id
  parent := node.parent
  children := node.children
  kind := if node.parent.isNone then .rootEpoch else .task
  status := node.status
  summary := node.summary
  memory := node.memory
  start := node.start
  stop := node.stop

/-- Appends one entry. -/
def push (node : RuntimeNode) (entry : NodeEntry) : RuntimeNode :=
  { node with entries := node.entries ++ [entry] }

/-- The node that `new` and `apply_compact` create for a root epoch. -/
def root (epoch : ℕ) (start : RawBoundary) : RuntimeNode where
  id := .rootEpoch epoch
  parent := none
  status := .live
  summary := some "root"
  memory := none
  start := start
  stop := none
  openInputTokens := none
  entries := []

/-- The node that `open` and `next` create: it starts with the span that opened it. -/
def task (id parent : NodeId) (span : RawSpan) (summary : String) (openInputTokens : Option ℕ) :
    RuntimeNode where
  id := id
  parent := some parent
  status := .live
  summary := some summary
  memory := none
  start := span.start
  stop := none
  openInputTokens := openInputTokens
  entries := [.leaf (.sourceSpan span)]

/-- The closed node that `spawn` creates for one task and its terminal result. -/
def spawned (id parent : NodeId) (span : RawSpan) (task : SpawnTask) (result : SpawnResult) :
    RuntimeNode where
  id := id
  parent := some parent
  status := .closed
  summary := some task.summary
  memory := some
    [.spawnEvidence id span task result.outcome result.diagnostic result.executionRef,
      .summary id span result.memoryBody]
  start := span.start
  stop := some span.stop
  openInputTokens := none
  entries := []

/-- A node whose new child `id` is now the open one. -/
def opening (id : NodeId) (node : RuntimeNode) : RuntimeNode :=
  { node.push (.child id) with status := .opened }

/-- A node closed with its memory. -/
def closing (memory : List MemorySlot) (stop : RawBoundary) (node : RuntimeNode) : RuntimeNode :=
  { node with memory := some memory, status := .closed, stop := some stop }

/-- A node that the cursor returns to. -/
def resuming (span : RawSpan) (node : RuntimeNode) : RuntimeNode :=
  { node.push (.leaf (.sourceSpan span)) with status := .live }

/-- A node that spawned `children`. -/
def spawning (span : RawSpan) (children : List RuntimeNode) (node : RuntimeNode) : RuntimeNode :=
  { node with entries := node.entries ++ .leaf (.sourceSpan span) ::
      children.map fun child ↦ .child child.id }

/-- The effect of `apply_compact` on one node when `epoch` ends. -/
def compacting (epoch : ℕ) (boundary : RawBoundary) (node : RuntimeNode) : RuntimeNode :=
  if node.id.parts.head? = some epoch ∧ node.status ≠ .closed then
    { node with status := .compacted, stop := some (node.stop.getD boundary) }
  else node

end RuntimeNode

structure SpineReducer where
  nodes : List RuntimeNode
  currentRoot : NodeId
  cursor : NodeId
  baseline : List ContextItem
  nextUserAnchor : ℕ
  lastBoundary : Option RawBoundary
  deriving Repr, DecidableEq

/-- `TypedTransitionError`. -/
inductive TypedTransitionError where
  | multipleStructuralFacts
  | taskCursorRequired (tool : String)
  deriving Repr, DecidableEq

/-- The user slot that `assemble_memory` keeps for a leaf, if any. -/
def userSlot (owner : NodeId) : ContextItem → Option MemorySlot
  | .message m (some anchor) => if m.role = .user then some (.user owner m anchor) else none
  | _ => none

namespace SpineReducer

def new : SpineReducer where
  nodes := [.root 1 0]
  currentRoot := .rootEpoch 1
  cursor := .rootEpoch 1
  baseline := []
  nextUserAnchor := 1
  lastBoundary := none

/-- `node_index`; `none` is the panic on a missing node. -/
def nodeIndex (r : SpineReducer) (id : NodeId) : Option ℕ :=
  r.nodes.findIdx? fun node ↦ node.id == id

/-- `&self.nodes[self.node_index(id)]`. -/
def node (r : SpineReducer) (id : NodeId) : Option RuntimeNode := do
  let index ← r.nodeIndex id
  r.nodes[index]?

/-- Changes the node that `node_index` finds for `id`. -/
def updateNode (r : SpineReducer) (id : NodeId) (f : RuntimeNode → RuntimeNode) :
    Option SpineReducer := do
  let index ← r.nodeIndex id
  some { r with nodes := r.nodes.modify index f }

/-- The slots that a node's entries contribute to its memory, in order. -/
def entryMemory (r : SpineReducer) (owner : NodeId) : List NodeEntry → Option (List MemorySlot)
  | [] => some []
  | .leaf item :: rest => do
      let slots ← r.entryMemory owner rest
      some ((userSlot owner item).toList ++ slots)
  | .child id :: rest => do
      let child ← r.node id
      let slots ← r.entryMemory owner rest
      some (child.memory.getD [] ++ slots)

def assembleMemory (r : SpineReducer) (node : RuntimeNode) (modelMemory : String)
    (source : RawSpan) : Option (List MemorySlot) := do
  let slots ← r.entryMemory node.id node.entries
  some (slots ++ [.summary node.id source modelMemory])

/-! ## Rendering

The source recurses through child links.  Here the recursion carries fuel; the
number of nodes is enough of it on every reachable tree. -/

/-- `render_entries`, over the rendering of a child. -/
def renderEntries (renderChild : NodeId → Option (List ContextItem)) :
    List NodeEntry → Option (List ContextItem)
  | [] => some []
  | .leaf item :: rest => do
      let items ← renderEntries renderChild rest
      some (item :: items)
  | .child id :: rest => do
      let rendered ← renderChild id
      let items ← renderEntries renderChild rest
      some (rendered ++ items)

def renderNode (r : SpineReducer) : ℕ → NodeId → Option (List ContextItem)
  | 0, _ => none
  | fuel + 1, id => do
      let node ← r.node id
      match node.status with
      | .closed => some ((node.memory.getD []).map .memorySlot)
      | .live | .opened => do
          let items ← renderEntries (r.renderNode fuel) node.entries
          some (.syntheticNode node.id (node.summary.getD "") .opened :: items)
      | .compacted => some []

def renderCurrentEpoch (r : SpineReducer) : Option (List ContextItem) := do
  let root ← r.node r.currentRoot
  let items ← renderEntries (r.renderNode r.nodes.length) root.entries
  some (r.baseline ++ items)

def projection (r : SpineReducer) : Option SpineProjection := do
  let visibleContext ← r.renderCurrentEpoch
  some {
    nodes := r.nodes.map RuntimeNode.snapshot
    cursor := r.cursor
    visibleContext := visibleContext
    lastBoundary := r.lastBoundary }

/-! ## Transitions -/

def pushCursorEntry (r : SpineReducer) (entry : NodeEntry) : Option SpineReducer :=
  r.updateNode r.cursor (·.push entry)

def pushSourceSpan (r : SpineReducer) (span : RawSpan) : Option SpineReducer :=
  r.pushCursorEntry (.leaf (.sourceSpan span))

/-- `apply_message`: a true user message takes the next anchor. -/
def applyMessage (r : SpineReducer) (message : Message) : Option SpineReducer :=
  if message.role = .user then
    { r with nextUserAnchor := r.nextUserAnchor + 1 }.pushCursorEntry
      (.leaf (.message message (some r.nextUserAnchor)))
  else
    r.pushCursorEntry (.leaf (.message message none))

/-- The id that the next child of `parent` gets. -/
def nextChild (parentId : NodeId) (parent : RuntimeNode) : NodeId :=
  parentId.child (u32Succ parent.children.length)

/-- Appends a live task node under `parentId` and moves the cursor there. -/
def openUnder (r : SpineReducer) (parentId : NodeId) (span : RawSpan) (summary : String)
    (openInputTokens : Option ℕ) : Option SpineReducer := do
  let parent ← r.node parentId
  let childId := nextChild parentId parent
  let r' ← r.updateNode parentId (.opening childId)
  some { r' with
    nodes := r'.nodes ++ [.task childId parentId span summary openInputTokens]
    cursor := childId }

/-- `open`. -/
def openNode (r : SpineReducer) (span : RawSpan) (summary : String)
    (openInputTokens : Option ℕ) : Option SpineReducer :=
  r.openUnder r.cursor span summary openInputTokens

/-- The part that `close` and `next` share: the cursor node gets its memory and is closed. -/
def closeCursor (r : SpineReducer) (span : RawSpan) (modelMemory : String) :
    Option (SpineReducer × NodeId) := do
  let closed ← r.node r.cursor
  -- the source's `expect("task node has a parent")`
  let parentId ← closed.parent
  let memory ← r.assembleMemory closed modelMemory span
  let r' ← r.updateNode r.cursor (.closing memory span.start)
  some (r', parentId)

/-- `close`. -/
def closeNode (r : SpineReducer) (span : RawSpan) (modelMemory : String) :
    Option SpineReducer := do
  let (r', parentId) ← r.closeCursor span modelMemory
  let r'' ← r'.updateNode parentId (.resuming span)
  some { r'' with cursor := parentId }

/-- `next`. -/
def nextNode (r : SpineReducer) (span : RawSpan) (summary modelMemory : String)
    (openInputTokens : Option ℕ) : Option SpineReducer := do
  let (r', parentId) ← r.closeCursor span modelMemory
  r'.openUnder parentId span summary openInputTokens

/-- The closed children of one spawn, numbered from `first`. -/
def spawnChildren (parentId : NodeId) (first : ℕ) (span : RawSpan)
    (pairs : List (SpawnTask × SpawnResult)) : List RuntimeNode :=
  pairs.mapIdx fun offset pair ↦
    .spawned (parentId.child (u32SaturatingAdd first (u32Clamp offset))) parentId span
      pair.1 pair.2

/-- The pairs of task and result that a spawn uses. -/
def spawnPairs (batches : List (List SpawnTask × List SpawnResult)) :
    List (SpawnTask × SpawnResult) :=
  batches.flatMap fun batch ↦ batch.1.zip batch.2

def spawn (r : SpineReducer) (span : RawSpan)
    (batches : List (List SpawnTask × List SpawnResult)) : Option SpineReducer := do
  let parent ← r.node r.cursor
  let children := spawnChildren r.cursor (u32Succ parent.children.length) span
    (spawnPairs batches)
  let r' ← r.updateNode r.cursor (.spawning span children)
  some { r' with nodes := r'.nodes ++ children }

def applyCompact (r : SpineReducer) (boundary : RawBoundary)
    (replacementHistory : List ContextItem) : Option SpineReducer := do
  let epoch ← r.currentRoot.parts.head?
  let nextEpoch := u32SaturatingAdd epoch 1
  some { r with
    nodes := r.nodes.map (.compacting epoch boundary) ++ [.root nextEpoch boundary]
    baseline := replacementHistory
    currentRoot := .rootEpoch nextEpoch
    cursor := .rootEpoch nextEpoch }

/-- The state change of `apply`. -/
def transition (r : SpineReducer) : RolloutEvent → Option SpineReducer
  | .message m => r.applyMessage m
  | .sourceSpan span _ => r.pushSourceSpan span
  | .opaqueItem boundary => r.pushCursorEntry (.leaf (.native (.rollout boundary)))
  | .synthetic _ item => r.pushCursorEntry (.leaf item)
  | .compact boundary history => r.applyCompact boundary history

/-- `apply`. -/
def apply (r : SpineReducer) (event : RolloutEvent) : Option (SpineReducer × SpineProjection) := do
  let r' ← { r with lastBoundary := some event.boundary }.transition event
  let projection ← r'.projection
  some (r', projection)

def cursorKind (r : SpineReducer) : Option NodeKind := do
  let node ← r.node r.cursor
  some (if node.parent.isNone then .rootEpoch else .task)

end SpineReducer

/-- The tasks and results of a spawn fact. -/
def SpineOperationFact.spawnBatch? :
    SpineOperationFact → Option (List SpawnTask × List SpawnResult)
  | .spawn tasks results => some (tasks, results)
  | _ => none

namespace SpineReducer

/-- The state change of `apply_sampling` for the facts of one sampling. -/
def samplingTransition (r : SpineReducer) (span : RawSpan) (facts : List ExecutedSpineFact)
    (openInputTokens : Option ℕ) : Outcome TypedTransitionError SpineReducer :=
  match facts with
  | [] => .expect (r.pushSourceSpan span)
  | [fact] =>
      match fact.operation with
      | .openNode summary => .expect (r.openNode span summary openInputTokens)
      | .closeNode memory => do
          let kind ← .expect r.cursorKind
          .require (kind = .task) (.taskCursorRequired "close")
          .expect (r.closeNode span memory)
      | .nextNode closedMemory nextSummary => do
          let kind ← .expect r.cursorKind
          .require (kind = .task) (.taskCursorRequired "next")
          .expect (r.nextNode span nextSummary closedMemory openInputTokens)
      | .spawn tasks results => .expect (r.spawn span [(tasks, results)])
  | facts =>
      if facts.all (·.operation.spawnBatch?.isSome) then
        .expect (r.spawn span (facts.filterMap (·.operation.spawnBatch?)))
      else .err .multipleStructuralFacts

/-- `apply_sampling`.  A failed call leaves only the last boundary changed in the source; its
callers drop the reducer then. -/
def applySampling (r : SpineReducer) (span : RawSpan) (facts : List ExecutedSpineFact)
    (openInputTokens : Option ℕ) :
    Outcome TypedTransitionError (SpineReducer × SpineProjection) := do
  let r' ← { r with lastBoundary := some span.stop }.samplingTransition span facts openInputTokens
  let projection ← .expect r'.projection
  pure (r', projection)

end SpineReducer

end SpineCodex
