import Mathlib

/-!
# The items of a rollout

A rollout is the append-only log of a session.  Only what its readers look at is kept of an
item.  Which texts are contextual fragments, compaction summaries or instructions between agents
is decided by tables of markers outside this development, so these tests are parameters.
-/

namespace SpineCodex

/-- `ContentItem`: the text of an input part, or a part that no test looks into. -/
inductive ContentItem where
  | inputText (text : String)
  | other
  deriving Repr, DecidableEq

/-- `ResponseItem`. -/
inductive ResponseItem where
  | message (role : String) (content : List ContentItem)
  | agentMessage
  | other
  deriving Repr, DecidableEq

/-- The tests on the parts of a message. -/
structure ContentTests where
  isContextualUserFragment : ContentItem → Bool
  isContextualDevFragment : ContentItem → Bool
  isSummaryMessage : String → Bool
  isInterAgentInstruction : List ContentItem → Bool

namespace ContentTests

variable (tests : ContentTests)

/-- `is_contextual_user_message_content`. -/
def isContextualUserMessageContent (content : List ContentItem) : Bool :=
  content.any tests.isContextualUserFragment

/-- `is_contextual_dev_message_content`. -/
def isContextualDevMessageContent (content : List ContentItem) : Bool :=
  content.any tests.isContextualDevFragment

/-- A part that holds the summary of a compaction. -/
def isSummaryPart : ContentItem → Bool
  | .inputText text => tests.isSummaryMessage text
  | .other => false

/-- `is_user_turn_boundary`. -/
def isUserTurnBoundary : ResponseItem → Bool
  | .agentMessage => true
  | .message role content =>
      (role == "user" && !tests.isContextualUserMessageContent content &&
          !content.any tests.isSummaryPart) ||
        (role == "assistant" && tests.isInterAgentInstruction content)
  | .other => false

/-- The messages that a rollback removes above its cut. -/
def isContextual : ResponseItem → Bool
  | .message role content =>
      (role == "developer" && tests.isContextualDevMessageContent content) ||
        (role == "user" && tests.isContextualUserMessageContent content)
  | _ => false

/-- A contextual message starts no turn. -/
theorem isUserTurnBoundary_of_isContextual {item : ResponseItem} (h : tests.isContextual item = true) :
    tests.isUserTurnBoundary item = false := by
  cases item with
  | message role content =>
    simp only [isContextual, Bool.or_eq_true, Bool.and_eq_true, beq_iff_eq] at h
    rcases h with ⟨rfl, -⟩ | ⟨rfl, hcontext⟩
    · simp [isUserTurnBoundary]
    · simp [isUserTurnBoundary, hcontext]
  | agentMessage => simp [isContextual] at h
  | other => simp [isContextual] at h

end ContentTests

/-- `TurnAttribution`, by the turn that it is for. -/
structure TurnAttribution where
  turnId : String
  turnTrigger : Option String
  deriving Repr, DecidableEq

/-- `PreviousTurnSettings`. -/
structure PreviousTurnSettings where
  model : String
  cyberAccessProgram : Option String
  compHash : Option String
  realtimeActive : Option Bool
  deriving Repr, DecidableEq

/-- `TurnContextItem`. -/
structure TurnContextItem where
  turnId : Option String
  model : String
  cyberAccessProgram : Option String
  compHash : Option String
  realtimeActive : Option Bool
  deriving Repr, DecidableEq

/-- `CompactionResumeMetadata`. -/
structure CompactionResumeMetadata where
  lastStartedTurnId : Option String
  turnAttribution : Option TurnAttribution
  previousTurnSettings : Option PreviousTurnSettings
  deriving Repr, DecidableEq

/-- `CompactedItem`. -/
structure CompactedItem where
  replacementHistory : Option (List ResponseItem)
  windowNumber : Option ℕ
  firstWindowId : Option String
  previousWindowId : Option String
  windowId : Option String
  resumeMetadata : Option CompactionResumeMetadata
  deriving Repr, DecidableEq

/-- `EventMsg`; the events that no reader here looks at are one. -/
inductive EventMsg where
  | tokenCount
  | threadRolledBack (numTurns : ℕ)
  | turnStarted (turnId : String) (turnAttribution : Option TurnAttribution)
  | turnComplete (turnId : String)
  | turnAborted (turnId : Option String)
  | userMessage
  | other
  deriving Repr, DecidableEq

/-- `RolloutItem`; the items that no reader here looks at are one. -/
inductive RolloutItem where
  | sessionMeta (contextWindow : Option String)
  | responseItem (item : ResponseItem)
  | interAgentCommunication
  | compacted (item : CompactedItem)
  | turnContext (item : TurnContextItem)
  | worldState (full : Bool)
  | eventMsg (event : EventMsg)
  | spineSamplingStarted
  | spineTransition
  | other
  deriving Repr, DecidableEq

end SpineCodex
