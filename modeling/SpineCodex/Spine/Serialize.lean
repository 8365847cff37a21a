import SpineCodex.Lib.Json
import SpineCodex.Spine.Model

/-!
# The JSON form of the data model

The values that the derived serializers write, field by field in declaration order.
Only their sizes are used: several limits are limits on the encoded bytes.
-/

namespace SpineCodex

open Json (object array string number null)

/-- An optional value without `skip_serializing_if`. -/
def orNull {α : Type*} (toJson : α → Json) : Option α → Json
  | some a => toJson a
  | none => null

/-- An optional field with `skip_serializing_if = "Option::is_none"`. -/
def optionalField {α : Type*} (name : String) (toJson : α → Json) : Option α → List (String × Json)
  | some a => [(name, toJson a)]
  | none => []

/-- An externally tagged variant with fields. -/
def variant (name : String) (fields : List (String × Json)) : Json := object [(name, object fields)]

def ThreadNamespace.toJson (t : ThreadNamespace) : Json := string t.value

def EpochOrdinalId.toJson (id : EpochOrdinalId) : Json :=
  object [("thread", id.thread.toJson), ("epoch", number id.epoch), ("ordinal", number id.ordinal)]

def NamespacedId.toJson (id : NamespacedId) : Json :=
  object [("thread", id.thread.toJson), ("value", string id.value)]

def RawSpan.toJson (span : RawSpan) : Json :=
  object [("start", number span.start), ("end", number span.stop)]

def NodeId.toJson (id : NodeId) : Json := array (id.parts.map number)

def MessageRole.toJson : MessageRole → Json
  | .user => string "User"
  | .contextualUser => string "ContextualUser"
  | .assistant => string "Assistant"
  | .developer => string "Developer"
  | .system => string "System"

def Message.toJson (m : Message) : Json :=
  object [("boundary", number m.boundary), ("role", m.role.toJson), ("content", string m.content)]

def SpawnTask.toJson (task : SpawnTask) : Json :=
  object [("summary", string task.summary), ("prompt", string task.prompt)]

def SpawnOutcome.toJson : SpawnOutcome → Json
  | .completed => string "completed"
  | .errored => string "errored"
  | .aborted => string "aborted"

def SpawnResult.toJson (result : SpawnResult) : Json :=
  object [("ordinal", number result.ordinal), ("outcome", result.outcome.toJson),
    ("memory_body", string result.memoryBody), ("diagnostic", orNull string result.diagnostic),
    ("execution_ref", orNull string result.executionRef)]

def NodeStatus.toJson : NodeStatus → Json
  | .live => string "Live"
  | .opened => string "Opened"
  | .closed => string "Closed"
  | .compacted => string "Compacted"

def MemorySlot.toJson : MemorySlot → Json
  | .user ownerNode message anchor => variant "User"
      [("owner_node", ownerNode.toJson), ("message", message.toJson), ("anchor", number anchor)]
  | .summary ownerNode source body => variant "Summary"
      [("owner_node", ownerNode.toJson), ("source", source.toJson), ("body", string body)]
  | .spawnEvidence ownerNode source task outcome diagnostic executionRef => variant "SpawnEvidence"
      [("owner_node", ownerNode.toJson), ("source", source.toJson), ("task", task.toJson),
        ("outcome", outcome.toJson), ("diagnostic", orNull string diagnostic),
        ("execution_ref", orNull string executionRef)]

def NativeItemRef.toJson : NativeItemRef → Json
  | .rollout ordinal => variant "Rollout" [("ordinal", number ordinal)]
  | .compactReplacement compactBoundary index => variant "CompactReplacement"
      [("compact_boundary", number compactBoundary), ("index", number index)]

def ContextItem.toJson : ContextItem → Json
  | .message m userAnchor => variant "Message"
      [("message", m.toJson), ("user_anchor", orNull number userAnchor)]
  | .sourceSpan span => variant "SourceSpan" [("span", span.toJson)]
  | .syntheticNode nodeId summary status => variant "SyntheticNode"
      [("node_id", nodeId.toJson), ("summary", string summary), ("status", status.toJson)]
  | .memorySlot slot => object [("MemorySlot", slot.toJson)]
  | .native source => variant "Native" [("source", source.toJson)]

def ExecutionOrigin.toJson : ExecutionOrigin → Json
  | .direct executionRef => object [("type", string "direct"), ("execution_ref", string executionRef)]

def SpineOperationFact.toJson : SpineOperationFact → Json
  | .openNode summary => object [("type", string "open"), ("summary", string summary)]
  | .closeNode memory => object [("type", string "close"), ("memory", string memory)]
  | .nextNode closedMemory nextSummary => object [("type", string "next"),
      ("closed_memory", string closedMemory), ("next_summary", string nextSummary)]
  | .spawn tasks terminalResults => object [("type", string "spawn"),
      ("tasks", array (tasks.map SpawnTask.toJson)),
      ("terminal_results", array (terminalResults.map SpawnResult.toJson))]

def ExecutedSpineFact.toJson (fact : ExecutedSpineFact) : Json :=
  object [("execution_id", fact.executionId.toJson), ("ordinal", number fact.ordinal),
    ("origin", fact.origin.toJson), ("operation", fact.operation.toJson)]

/-! ## The size of identities -/

/-- The characters of an identity are written as they are. -/
theorem escapedSize_of_identityChar {c : Char} (h : identityChar c = true) :
    Json.escapedSize c = c.utf8Size := by
  have hrange : 0x2d ≤ c.val.toNat ∧ c.val.toNat ≤ 0x7a ∧ c.val.toNat ≠ 0x5c := by
    simp only [identityChar, Char.isAlphanum, Char.isAlpha, Char.isUpper, Char.isLower,
      Char.isDigit, Bool.or_eq_true, Bool.and_eq_true, decide_eq_true_eq, beq_iff_eq,
      UInt32.le_iff_toNat_le] at h
    rcases h with (((((⟨h₁, h₂⟩ | ⟨h₁, h₂⟩) | ⟨h₁, h₂⟩) | rfl) | rfl) | rfl) | rfl <;>
      simp_all <;> omega
  have hval : ∀ n : UInt32, n.toNat < 0x2d → c.val ≠ n := by
    rintro n hn rfl
    omega
  have hchar : ∀ d : Char, d.val.toNat < 0x2d ∨ d.val.toNat = 0x5c → c ≠ d := by
    rintro d hd rfl
    omega
  rw [Json.escapedSize, if_neg, if_neg]
  · intro hlt
    have hlow : c.val.toNat < 32 := UInt32.lt_iff_toNat_lt.mp hlt
    omega
  · simp only [not_or]
    exact ⟨hchar _ (by decide), hchar _ (by decide), hval _ (by decide), hval _ (by decide),
      hval _ (by decide), hval _ (by decide), hval _ (by decide)⟩

theorem ValidComponent.quotedSize_le {value : String} (h : ValidComponent value) :
    Json.quotedSize value ≤ 130 := by
  rw [Json.quotedSize_of_plain fun c hc ↦
    escapedSize_of_identityChar (List.all_eq_true.mp h.2.2 c hc)]
  have := h.2.1
  simp only [maxIdBytes] at this
  omega

theorem NamespacedId.byteSize_toJson_le (id : NamespacedId) : id.toJson.byteSize ≤ 280 := by
  have hthread := id.thread.valid.quotedSize_le
  have hvalue := id.valid.quotedSize_le
  have hthreadKey : Json.quotedSize "thread" = 8 := by decide
  have hvalueKey : Json.quotedSize "value" = 7 := by decide
  simp only [NamespacedId.toJson, ThreadNamespace.toJson, Json.byteSize, Json.fieldsSize,
    List.length_cons, List.length_nil, hthreadKey, hvalueKey]
  omega

end SpineCodex
