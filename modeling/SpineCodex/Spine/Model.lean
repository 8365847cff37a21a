import SpineCodex.Spine.Identity

/-!
# The data model

Messages, tree node identities, memory slots and the items of the context that
the model sees.  Node ordinals are 32-bit in the source: every definition that
allocates one takes the truncation explicitly.
-/

namespace SpineCodex

/-- `RawBoundary`: a position in the host's rollout. -/
abbrev RawBoundary := ℕ

/-- `RawSpan`, with `stop` for the source's `end`. -/
structure RawSpan where
  start : RawBoundary
  stop : RawBoundary
  deriving Repr, DecidableEq

/-- `NodeId`: the path of 32-bit ordinals from a root epoch. -/
structure NodeId where
  parts : List ℕ
  deriving Repr, DecidableEq

namespace NodeId

def rootEpoch (epoch : ℕ) : NodeId := ⟨[epoch]⟩

def child (id : NodeId) (ordinal : ℕ) : NodeId := ⟨id.parts ++ [ordinal]⟩

end NodeId

inductive MessageRole where
  | user
  | contextualUser
  | assistant
  | developer
  | system
  deriving Repr, DecidableEq

structure Message where
  boundary : RawBoundary
  role : MessageRole
  content : String
  deriving Repr, DecidableEq

structure SpawnTask where
  summary : String
  prompt : String
  deriving Repr, DecidableEq

inductive SpawnOutcome where
  | completed
  | errored
  | aborted
  deriving Repr, DecidableEq

structure SpawnResult where
  ordinal : ℕ
  outcome : SpawnOutcome
  memoryBody : String
  diagnostic : Option String
  executionRef : Option String
  deriving Repr, DecidableEq

inductive NodeKind where
  | rootEpoch
  | task
  deriving Repr, DecidableEq

inductive NodeStatus where
  | live
  | opened
  | closed
  | compacted
  deriving Repr, DecidableEq

inductive MemorySlot where
  | user (ownerNode : NodeId) (message : Message) (anchor : ℕ)
  | summary (ownerNode : NodeId) (source : RawSpan) (body : String)
  | spawnEvidence (ownerNode : NodeId) (source : RawSpan) (task : SpawnTask)
      (outcome : SpawnOutcome) (diagnostic executionRef : Option String)
  deriving Repr, DecidableEq

inductive NativeItemRef where
  | rollout (ordinal : RawBoundary)
  | compactReplacement (compactBoundary : RawBoundary) (index : ℕ)
  deriving Repr, DecidableEq

/-- `ContextItem`: one item of the context that the model sees. -/
inductive ContextItem where
  | message (message : Message) (userAnchor : Option ℕ)
  | sourceSpan (span : RawSpan)
  | syntheticNode (nodeId : NodeId) (summary : String) (status : NodeStatus)
  | memorySlot (slot : MemorySlot)
  | native (source : NativeItemRef)
  deriving Repr, DecidableEq

/-- The byte length of an optional text, absent texts counting zero. -/
def optionalBytes (text : Option String) : ℕ := text.elim 0 String.utf8ByteSize

def ContextItem.retainedSyntheticBytes : ContextItem → ℕ
  | .message m _ => if m.role = .contextualUser then m.content.utf8ByteSize else 0
  | .syntheticNode _ summary _ => summary.utf8ByteSize
  | .memorySlot (.summary _ _ body) => body.utf8ByteSize
  | .memorySlot (.spawnEvidence _ _ task _ diagnostic executionRef) =>
      task.summary.utf8ByteSize + task.prompt.utf8ByteSize + optionalBytes diagnostic +
        optionalBytes executionRef
  | .sourceSpan _ | .memorySlot (.user _ _ _) | .native _ => 0

/-- `RolloutEvent`; `opaqueItem` is the source's `Opaque`. -/
inductive RolloutEvent where
  | message (message : Message)
  | sourceSpan (span : RawSpan) (retainedBytes : ℕ)
  | opaqueItem (boundary : RawBoundary)
  | synthetic (boundary : RawBoundary) (item : ContextItem)
  | compact (boundary : RawBoundary) (replacementHistory : List ContextItem)
  deriving Repr, DecidableEq

namespace RolloutEvent

def boundary : RolloutEvent → RawBoundary
  | .message m => m.boundary
  | .sourceSpan span _ => span.stop
  | .opaqueItem boundary | .synthetic boundary _ | .compact boundary _ => boundary

def retainedBytes : RolloutEvent → ℕ
  | .message m => m.content.utf8ByteSize
  | .sourceSpan _ retainedBytes => retainedBytes
  | .opaqueItem _ => 0
  | .synthetic _ item => item.retainedSyntheticBytes
  | .compact _ history => (history.map ContextItem.retainedSyntheticBytes).sum

end RolloutEvent

structure NodeSnapshot where
  id : NodeId
  parent : Option NodeId
  children : List NodeId
  kind : NodeKind
  status : NodeStatus
  summary : Option String
  memory : Option (List MemorySlot)
  start : RawBoundary
  stop : Option RawBoundary
  deriving Repr, DecidableEq

/-- `SpineProjection`: the tree and the visible context that one reducer state stands for. -/
structure SpineProjection where
  nodes : List NodeSnapshot
  cursor : NodeId
  visibleContext : List ContextItem
  lastBoundary : Option RawBoundary
  deriving Repr, DecidableEq

/-! ## Recorded facts -/

/-- `ExecutionOrigin`. -/
inductive ExecutionOrigin where
  | direct (executionRef : String)
  deriving Repr, DecidableEq

/-- `SpineOperationFact`. -/
inductive SpineOperationFact where
  | openNode (summary : String)
  | closeNode (memory : String)
  | nextNode (closedMemory nextSummary : String)
  | spawn (tasks : List SpawnTask) (terminalResults : List SpawnResult)
  deriving Repr, DecidableEq

/-- `ExecutedSpineFact`. -/
structure ExecutedSpineFact where
  executionId : ExecutionId
  ordinal : AdmissionOrdinal
  origin : ExecutionOrigin
  operation : SpineOperationFact
  deriving DecidableEq

end SpineCodex
