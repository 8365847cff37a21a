import SpineCodex.Spawn.Results
import SpineCodex.Spine.ArgumentRecords

/-!
# The validity that the rollout debugger reports

The debugger replaces the arguments of a tool call by their shape and says whether they are
valid.  It checks the schema of the arguments on its own, on the tree of the JSON text, where
the last of several equal keys counts.  Here the reported validity is compared with the
verdict of the tool itself.
-/

namespace SpineCodex

/-! ## Maps of parsed objects -/

namespace Json

/-- `Map::get`: of several equal keys the last one is kept. -/
def field? (entries : List (String × Json)) (name : String) : Option Json :=
  (entries.reverse.find? (·.1 = name)).map Prod.snd

/-- `Value::as_object`. -/
def asObject : Json → Option (List (String × Json))
  | object entries => some entries
  | _ => none

mutual

/-- The values and keys of a tree, as the preflight counts them. -/
def nodes : Json → ℕ
  | array items => 1 + itemNodes items
  | object entries => 1 + entryNodes entries
  | _ => 1

def itemNodes : List Json → ℕ
  | [] => 0
  | item :: rest => nodes item + itemNodes rest

def entryNodes : List (String × Json) → ℕ
  | [] => 0
  | (_, value) :: rest => 1 + nodes value + entryNodes rest

end

end Json

/-! ## Shapes -/

inductive DebugToolKind where
  | spineOpen
  | spineClose
  | spineNext
  | spineSpawn
  | codeMode
  | shell
  | patch
  | web
  | mcp
  | image
  | unclassified
  deriving Repr, DecidableEq

/-- `is_spine`. -/
def DebugToolKind.isSpine (tool : DebugToolKind) : Bool :=
  tool ∈ [spineOpen, spineClose, spineNext, spineSpawn]

inductive DebugObjectState where
  | object
  | nonObject
  | malformedJson
  deriving Repr, DecidableEq

inductive DebugStringShape where
  | missing
  | null
  | wrongType
  | empty
  | whitespace
  | nonEmpty
  deriving Repr, DecidableEq

/-- `is_non_empty`. -/
def DebugStringShape.isNonEmpty (shape : DebugStringShape) : Bool := shape == nonEmpty

inductive DebugJsonValueShape where
  | null
  | bool
  | number
  | string
  | array (length : ℕ)
  | object (length : ℕ)
  | malformedJson
  deriving Repr, DecidableEq

inductive DebugCollectionShape where
  | missing
  | null
  | wrongType
  | array
  deriving Repr, DecidableEq

structure DebugSpawnTaskShape where
  object : DebugObjectState
  summary : DebugStringShape
  prompt : DebugStringShape
  unknownFields : Bool
  deriving Repr, DecidableEq

structure DebugCollection (α : Type) where
  shape : DebugCollectionShape
  items : List α
  deriving Repr, DecidableEq

inductive DebugToolArguments where
  | redacted (shape : DebugJsonValueShape)
  | openNode (state : DebugObjectState) (summary : DebugStringShape) (unknownFields valid : Bool)
  | closeNode (state : DebugObjectState) (memory : DebugStringShape) (unknownFields valid : Bool)
  | nextNode (state : DebugObjectState) (summary memory : DebugStringShape)
      (unknownFields valid : Bool)
  | spawn (state : DebugObjectState) (tasks : DebugCollection DebugSpawnTaskShape)
      (unknownFields valid : Bool)
  deriving Repr, DecidableEq

/-- The reported validity, of a call that has one. -/
def DebugToolArguments.valid? : DebugToolArguments → Option Bool
  | redacted _ => none
  | openNode _ _ _ valid => some valid
  | closeNode _ _ _ valid => some valid
  | nextNode _ _ _ _ valid => some valid
  | spawn _ _ _ valid => some valid

namespace RolloutDebug

/-- `string_shape`. -/
def stringShape : Option Json → DebugStringShape
  | none => .missing
  | some .null => .null
  | some (.string value) =>
      if value = "" then .empty else if trim value = "" then .whitespace else .nonEmpty
  | some _ => .wrongType

/-- `field`. -/
def field (fields : Option (List (String × Json))) (name : String) : Option Json :=
  fields.bind (Json.field? · name)

/-- `has_unknown_fields`. -/
def hasUnknownFields (fields : Option (List (String × Json))) (allowed : List String) : Bool :=
  fields.any fun entries ↦ entries.any fun entry ↦ !allowed.contains entry.1

/-- `json_value_shape`; equal keys are one entry of the parsed object. -/
def jsonValueShape : Json → DebugJsonValueShape
  | .null => .null
  | .bool _ => .bool
  | .number _ => .number
  | .string _ => .string
  | .array items => .array items.length
  | .object entries => .object (entries.map Prod.fst).dedup.length

/-- `inspect_spawn_tasks`. -/
def inspectSpawnTasks : Option Json → DebugCollection DebugSpawnTaskShape
  | none => ⟨.missing, []⟩
  | some (.array items) =>
      ⟨.array, items.map fun item ↦
        { object := if item.asObject.isSome then .object else .nonObject
          summary := stringShape (field item.asObject "summary")
          prompt := stringShape (field item.asObject "prompt")
          unknownFields := hasUnknownFields item.asObject ["summary", "prompt"] }⟩
  | some .null => ⟨.null, []⟩
  | some _ => ⟨.wrongType, []⟩

end RolloutDebug

/-! ## The redactor -/

inductive RolloutDebugRedactorError where
  | resourceLimitExceeded
  | ambiguousCallId
  deriving Repr, DecidableEq

/-- The part of the redactor's state that the arguments of a call are checked against. -/
structure RolloutDebugRedactor where
  recordJsonNodes : ℕ
  packageJsonNodes : ℕ
  maxJsonNodesPerRecord : ℕ
  maxJsonNodesPerPackage : ℕ
  failure : Option RolloutDebugRedactorError
  deriving Repr, DecidableEq

/-- A reader for the debugger, with the nodes that the preflight meets in a malformed text
before it stops. -/
structure DebugReader extends JsonReader where
  brokenNodes : String → ℕ

def DebugReader.nodes (reader : DebugReader) (text : String) : ℕ :=
  match reader.value text with
  | some json => json.nodes
  | none => reader.brokenNodes text

namespace RolloutDebugRedactor

open RolloutDebug

/-- The nodes that may still be read. -/
def remaining (redactor : RolloutDebugRedactor) : ℕ :=
  min (redactor.maxJsonNodesPerRecord - redactor.recordJsonNodes)
    (redactor.maxJsonNodesPerPackage - redactor.packageJsonNodes)

/-- `preflight_json`. -/
def preflightJson (reader : DebugReader) (redactor : RolloutDebugRedactor) (text : String) :
    RolloutDebugRedactor × Bool :=
  let exceeded := decide (redactor.remaining < reader.nodes text)
  let consumed := min redactor.remaining (reader.nodes text)
  ({ redactor with
      recordJsonNodes := redactor.recordJsonNodes + consumed
      packageJsonNodes := redactor.packageJsonNodes + consumed
      failure := if exceeded then redactor.failure.or (some .resourceLimitExceeded)
        else redactor.failure },
    (reader.value text).isSome && !exceeded)

/-- The shape of the arguments of a spine tool, by their tree. -/
def spineArguments (reader : DebugReader) (tool : DebugToolKind) (validJson : Bool)
    (arguments : String) : DebugToolArguments :=
  let parsed := if validJson then reader.value arguments else none
  let state : DebugObjectState := match parsed with
    | some (.object _) => .object
    | some _ => .nonObject
    | none => .malformedJson
  let fields := parsed.bind Json.asObject
  match tool with
  | .spineOpen =>
      let summary := stringShape (field fields "summary")
      .openNode state summary (hasUnknownFields fields ["summary"])
        (state == .object && summary.isNonEmpty &&
          !hasUnknownFields fields ["summary"])
  | .spineClose =>
      let memory := stringShape (field fields "memory")
      .closeNode state memory (hasUnknownFields fields ["memory"])
        (state == .object && memory.isNonEmpty &&
          !hasUnknownFields fields ["memory"])
  | .spineNext =>
      let summary := stringShape (field fields "summary")
      let memory := stringShape (field fields "memory")
      .nextNode state summary memory (hasUnknownFields fields ["summary", "memory"])
        (state == .object && summary.isNonEmpty && memory.isNonEmpty &&
          !hasUnknownFields fields ["summary", "memory"])
  | _ =>
      .spawn state (inspectSpawnTasks (field fields "tasks")) (hasUnknownFields fields ["tasks"])
        (validJson && (parseTasks reader.toolArguments arguments).any fun _ ↦ true)

/-- `redact_tool_arguments`. -/
def redactToolArguments (reader : DebugReader) (redactor : RolloutDebugRedactor)
    (tool : DebugToolKind) (arguments : String) : RolloutDebugRedactor × DebugToolArguments :=
  if redactor.failure.isSome then (redactor, .redacted .malformedJson)
  else
    let (redactor, validJson) := redactor.preflightJson reader arguments
    if tool.isSpine then (redactor, spineArguments reader tool validJson arguments)
    else
      (redactor, .redacted
        (if validJson then ((reader.value arguments).map jsonValueShape).getD .malformedJson
          else .malformedJson))

/-- The validity in the record of the call: a record of a redactor that has failed is not
handed out. -/
def reportedValidity (reader : DebugReader) (redactor : RolloutDebugRedactor)
    (tool : DebugToolKind) (arguments : String) : Option Bool :=
  let (redactor, shape) := redactor.redactToolArguments reader tool arguments
  if redactor.failure.isSome then none else shape.valid?

end RolloutDebugRedactor

/-! ## Agreement with the tool -/

namespace Json

variable {entries : List (String × Json)} {name : String} {value : Json}

theorem mem_of_field? (h : field? entries name = some value) : (name, value) ∈ entries := by
  obtain ⟨⟨key, _⟩, hfind, rfl⟩ := Option.map_eq_some_iff.1 h
  have hkey : key = name := by simpa using List.find?_some hfind
  rw [← hkey]
  exact List.mem_reverse.1 (List.mem_of_find?_eq_some hfind)

theorem field?_of_mem (hnodup : (entries.map Prod.fst).Nodup) (h : (name, value) ∈ entries) :
    field? entries name = some value := by
  have hfound : (entries.reverse.find? (·.1 = name)).isSome := by
    rw [List.find?_isSome]
    exact ⟨_, List.mem_reverse.2 h, by simp⟩
  obtain ⟨entry, hentry⟩ := Option.isSome_iff_exists.1 hfound
  have hkey : entry.1 = name := by simpa using List.find?_some hentry
  have hmem : entry ∈ entries := List.mem_reverse.1 (List.mem_of_find?_eq_some hentry)
  have heq : entry = (name, value) := List.inj_on_of_nodup_map hnodup hmem h hkey
  rw [field?, hentry, heq]
  rfl

end Json

theorem RolloutDebug.isNonEmpty_stringShape {value : Option Json} :
    (stringShape value).isNonEmpty = true ↔
      ∃ text, value = some (.string text) ∧ ¬Blank text := by
  rw [DebugStringShape.isNonEmpty, beq_iff_eq]
  unfold stringShape
  split
  · simp
  · simp
  · next text =>
    by_cases hempty : text = ""
    · subst hempty
      simp [Blank, trim]
    · by_cases hblank : trim text = ""
      · simp [hempty, hblank, Blank]
      · simp [hempty, hblank, Blank]
  · next other hnull hstring =>
    simp only [reduceCtorEq, Option.some.injEq, false_iff, not_exists, not_and]
    intro text htext
    exact absurd htext (hstring text)

namespace ControlCall

def debugKind : ControlCall → DebugToolKind
  | openNode => .spineOpen
  | nextNode => .spineNext

/-- The trees that the debugger calls valid. -/
def Claimed (call : ControlCall) (json : Json) : Prop :=
  ∃ entries, json = .object entries ∧ (∀ entry ∈ entries, entry.1 ∈ call.aliases) ∧
    ∀ name ∈ call.aliases, ∃ text, Json.field? entries name = some (.string text) ∧ ¬Blank text

/-- The trees on which the debugger and the tool differ. -/
inductive Diverges (call : ControlCall) : Json → Prop
  /-- an array of texts, which the tool reads by position -/
  | positional {texts : List String} (hfits : List.Forall₂ TextFits call.names texts) :
      Diverges call (.array (texts.map .string))
  /-- the goal under its own name, which the debugger does not know -/
  | unaliased {entries : List (String × Json)} (hkeys : (entries.map Prod.fst).Perm call.names)
      (hfits : EntriesFit entries) : Diverges call (.object entries)
  /-- a repeated key, which the tool refuses -/
  | repeated {entries : List (String × Json)} (hclaimed : call.Claimed (.object entries))
      (hkeys : ¬(entries.map Prod.fst).Nodup) : Diverges call (.object entries)
  /-- a text over the tool's limit, which the debugger does not measure -/
  | oversized {entries : List (String × Json)} {name text : String}
      (hclaimed : call.Claimed (.object entries)) (hname : name ∈ call.aliases)
      (hfield : Json.field? entries name = some (.string text))
      (hsize : textLimit name < (trim text).utf8ByteSize) : Diverges call (.object entries)

variable {call : ControlCall} {json : Json} {entries : List (String × Json)}

theorem names_nodup : call.names.Nodup ∧ call.aliases.Nodup := by
  cases call <;> decide

theorem goal_mem_names : "goal" ∈ call.names ∧ "goal" ∉ call.aliases := by
  cases call <;> decide

theorem not_claimed_of_goal (h : "goal" ∈ entries.map Prod.fst) :
    ¬call.Claimed (.object entries) := by
  rintro ⟨_, heq, hkeys, -⟩
  cases heq
  obtain ⟨entry, hentry, hgoal⟩ := List.mem_map.1 h
  have halias := hkeys entry hentry
  rw [hgoal] at halias
  exact goal_mem_names.2 halias

theorem nodup_of_accepts (h : call.Accepts (.object entries)) : (entries.map Prod.fst).Nodup := by
  obtain ⟨hperm | hperm, -⟩ := accepts_object.1 h
  · exact hperm.nodup_iff.2 names_nodup.1
  · exact hperm.nodup_iff.2 names_nodup.2

/-- On every tree of the list, one of the two accepts and the other does not. -/
theorem Diverges.disagree (h : call.Diverges json) : ¬(call.Claimed json ↔ call.Accepts json) := by
  intro hagree
  cases h with
  | @positional texts hfits =>
    obtain ⟨_, heq, -⟩ := hagree.2 (accepts_array.2 ⟨texts, hfits, rfl⟩)
    cases heq
  | @unaliased entries hkeys hfits =>
    have hgoal : "goal" ∈ entries.map Prod.fst := hkeys.mem_iff.2 goal_mem_names.1
    exact not_claimed_of_goal hgoal (hagree.2 (accepts_object.2 ⟨.inl hkeys, hfits⟩))
  | repeated hclaimed hkeys => exact hkeys (nodup_of_accepts (hagree.1 hclaimed))
  | @oversized entries name text hclaimed hname hfield hsize =>
    obtain ⟨-, hfits⟩ := accepts_object.1 (hagree.1 hclaimed)
    obtain ⟨_, heq, hfit⟩ := hfits (name, .string text) (Json.mem_of_field? hfield)
    cases heq
    exact absurd hfit.2 (Nat.not_le.2 hsize)

theorem accepts_of_claimed (hsame : ¬call.Diverges json) (h : call.Claimed json) :
    call.Accepts json := by
  obtain ⟨entries, rfl, hknown, hfields⟩ := h
  have hclaimed : call.Claimed (.object entries) := ⟨entries, rfl, hknown, hfields⟩
  have hnodup : (entries.map Prod.fst).Nodup := by
    by_contra hrepeated
    exact hsame (.repeated hclaimed hrepeated)
  have hkeys : (entries.map Prod.fst).Perm call.aliases := by
    rw [List.perm_ext_iff_of_nodup hnodup names_nodup.2]
    intro name
    constructor
    · intro hname
      obtain ⟨entry, hentry, rfl⟩ := List.mem_map.1 hname
      exact hknown entry hentry
    · intro hname
      obtain ⟨text, hfield, -⟩ := hfields name hname
      exact List.mem_map.2 ⟨_, Json.mem_of_field? hfield, rfl⟩
  refine accepts_object.2 ⟨.inr hkeys, ?_⟩
  rintro ⟨name, value⟩ hentry
  obtain ⟨text, hfield, hblank⟩ := hfields name (hknown _ hentry)
  have hvalue : value = .string text := by
    rw [Json.field?_of_mem hnodup hentry] at hfield
    exact Option.some.inj hfield
  refine ⟨text, hvalue, hblank, ?_⟩
  by_contra hsize
  exact hsame (.oversized hclaimed (hknown _ hentry) hfield (Nat.not_le.1 hsize))

theorem claimed_of_accepts (hsame : ¬call.Diverges json) (h : call.Accepts json) :
    call.Claimed json := by
  cases json with
  | object entries =>
    have hnodup := nodup_of_accepts h
    obtain ⟨hkeys | hkeys, hfits⟩ := accepts_object.1 h
    · exact absurd (.unaliased hkeys hfits) hsame
    · refine ⟨entries, rfl, ?_, ?_⟩
      · intro entry hentry
        exact hkeys.mem_iff.1 (List.mem_map.2 ⟨entry, hentry, rfl⟩)
      · intro name hname
        obtain ⟨entry, hentry, rfl⟩ := List.mem_map.1 (hkeys.mem_iff.2 hname)
        obtain ⟨text, hvalue, hfit⟩ := hfits entry hentry
        refine ⟨text, ?_, hfit.1⟩
        rw [← hvalue]
        exact Json.field?_of_mem hnodup hentry
  | array items =>
    obtain ⟨texts, hfits, rfl⟩ := accepts_array.1 h
    exact absurd (.positional hfits) hsame
  | _ =>
    obtain ⟨texts, hnone, -⟩ := h
    cases hnone

theorem claimed_iff_accepts : (call.Claimed json ↔ call.Accepts json) ↔ ¬call.Diverges json :=
  ⟨fun hagree hdiverges ↦ hdiverges.disagree hagree,
    fun hsame ↦ ⟨accepts_of_claimed hsame, claimed_of_accepts hsame⟩⟩

end ControlCall

namespace RolloutDebugRedactor

open RolloutDebug

variable {reader : DebugReader} {redactor : RolloutDebugRedactor} {call : ControlCall}
  {text : String}

/-- The call gets a record: the redactor has not failed, and the arguments do not make it. -/
def Hands (redactor : RolloutDebugRedactor) (reader : DebugReader) (text : String) : Prop :=
  redactor.failure = none ∧ reader.nodes text ≤ redactor.remaining

theorem known_iff {entries : List (String × Json)} {allowed : List String} :
    hasUnknownFields (some entries) allowed = false ↔ ∀ entry ∈ entries, entry.1 ∈ allowed := by
  simp [hasUnknownFields]

/-- The verdict on the arguments, by their tree. -/
theorem valid_spineArguments (reader : DebugReader) (call : ControlCall) (text : String) :
    ∃ valid, (spineArguments reader call.debugKind (reader.value text).isSome text).valid? =
        some valid ∧
      (valid = true ↔ ∃ json, reader.value text = some json ∧ call.Claimed json) := by
  cases call with
  | openNode =>
    refine ⟨_, rfl, ?_⟩
    cases hjson : reader.value text with
    | none => simp
    | some json =>
      cases json with
      | object entries =>
        simp [ControlCall.Claimed, ControlCall.aliases, field, Json.asObject, known_iff,
          isNonEmpty_stringShape, and_comm]
      | _ => simp [ControlCall.Claimed]
  | nextNode =>
    refine ⟨_, rfl, ?_⟩
    cases hjson : reader.value text with
    | none => simp
    | some json =>
      cases json with
      | object entries =>
        simp [ControlCall.Claimed, ControlCall.aliases, field, Json.asObject, known_iff,
          isNonEmpty_stringShape, and_comm, and_assoc]
      | _ => simp [ControlCall.Claimed]

theorem reportedValidity_of_hands (h : redactor.Hands reader text) :
    redactor.reportedValidity reader call.debugKind text =
      (spineArguments reader call.debugKind (reader.value text).isSome text).valid? := by
  have hspine : call.debugKind.isSpine = true := by
    cases call <;> rfl
  simp [reportedValidity, redactToolArguments, preflightJson, h.1, hspine, Nat.not_lt.2 h.2]

theorem reportedValidity_of_not_hands (h : ¬redactor.Hands reader text) :
    redactor.reportedValidity reader call.debugKind text = none := by
  have hspine : call.debugKind.isSpine = true := by
    cases call <;> rfl
  cases hfailure : redactor.failure with
  | some error => simp [reportedValidity, redactToolArguments, hfailure]
  | none =>
    have hlimit : redactor.remaining < reader.nodes text := by
      by_contra hfits
      exact h ⟨hfailure, Nat.not_lt.1 hfits⟩
    simp [reportedValidity, redactToolArguments, preflightJson, hfailure, hspine, hlimit]

end RolloutDebugRedactor

/-- The reported validity is the tool's verdict, except on the trees listed in
`ControlCall.Diverges`. -/
theorem debug_validity_agrees_iff (reader : DebugReader) (redactor : RolloutDebugRedactor)
    (call : ControlCall) (text : String) :
    (∀ valid, redactor.reportedValidity reader call.debugKind text = some valid →
        (valid = true ↔
          ∃ validation, validateTool reader.toolArguments call.tool text = .ok validation)) ↔
      (redactor.Hands reader text →
        ∀ json, reader.value text = some json → ¬call.Diverges json) := by
  rw [ControlCall.validateTool_eq_ok]
  by_cases hhands : redactor.Hands reader text
  · obtain ⟨valid, hvalid, hclaimed⟩ :=
      RolloutDebugRedactor.valid_spineArguments reader call text
    rw [RolloutDebugRedactor.reportedValidity_of_hands hhands, hvalid]
    simp only [Option.some.injEq, forall_eq', hclaimed, hhands, forall_const]
    cases hjson : reader.value text with
    | none => simp
    | some json => simpa using ControlCall.claimed_iff_accepts
  · rw [RolloutDebugRedactor.reportedValidity_of_not_hands hhands]
    simp [hhands]

/-! A goal under its own name is accepted and reported invalid. -/

def goalText : String := "\x7b\"goal\":\"x\"\x7d"

/-- A reader of this one text. -/
def goalReader : DebugReader where
  value text := if text = goalText then some (.object [("goal", .string "x")]) else none
  error _ := "expected value at line 1 column 1"
  spawnArgs _ := .err "expected value at line 1 column 1"
  brokenNodes _ := 1

def freshRedactor : RolloutDebugRedactor where
  recordJsonNodes := 0
  packageJsonNodes := 0
  maxJsonNodesPerRecord := 65536
  maxJsonNodesPerPackage := 4 * 1024 * 1024
  failure := none

theorem named_goal_reported_invalid :
    freshRedactor.reportedValidity goalReader .spineOpen goalText = some false ∧
      validateTool goalReader.toolArguments .openNode goalText =
        .ok (.transition (.openNode "x")) := by
  decide +kernel

end SpineCodex
