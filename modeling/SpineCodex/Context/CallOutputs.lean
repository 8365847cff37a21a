import Mathlib.Data.Finset.Insert
import SpineCodex.Lib.IndexedEdits
import SpineCodex.Lib.Pairing

/-!
# Calls and outputs of a prompt

Before a history is sent, every call gets an output and every output without a call is taken out.
Function calls and local shell calls are answered by the same kind of output.  Tool search outputs
of the server stand without a call.

An inconsistency is reported by `errorOrPanic`, which ends a debug build and only writes to the log
in a release build; the build is a parameter.  Fields that neither step reads are one value of
type `Value`.
-/

namespace SpineCodex

namespace Prompt

open IndexedEdits

/-! ## Items -/

inductive FunctionCallOutputBody (Value : Type) where
  | text (text : String)
  | contentItems (items : List Value)
deriving DecidableEq

structure FunctionCallOutputPayload (Value : Type) where
  body : FunctionCallOutputBody Value
  success : Option Bool
deriving DecidableEq

def FunctionCallOutputPayload.fromText {Value : Type} (text : String) :
    FunctionCallOutputPayload Value :=
  ⟨.text text, none⟩

/-- The items of a history, `other` for those that are neither calls nor outputs. -/
inductive ResponseItem (Value : Type) where
  | functionCall (id : Option String) (callId : String) (rest : Value)
  | localShellCall (id : Option String) (callId : Option String) (rest : Value)
  | toolSearchCall (id : Option String) (callId : Option String) (rest : Value)
  | customToolCall (id : Option String) (callId : String) (rest : Value)
  | functionCallOutput (id callId name nameSpace : Option String)
      (output : FunctionCallOutputPayload Value) (passthrough : Option Value)
  | toolSearchOutput (id callId : Option String) (status execution : String) (tools : List Value)
      (passthrough : Option Value)
  | customToolCallOutput (id : Option String) (callId : String) (name : Option String)
      (output : FunctionCallOutputPayload Value) (passthrough : Option Value)
  | other (value : Value)
deriving DecidableEq

/-- What the two steps read of the metadata of the harness. -/
structure CodexHarnessMetadata where
  inheritedUserMessage : Bool
deriving DecidableEq

structure ResponseItemEnvelope (Value : Type) where
  item : ResponseItem Value
  metadata : Option CodexHarnessMetadata
deriving DecidableEq

variable {Value : Type}

def ResponseItemEnvelope.new (item : ResponseItem Value) : ResponseItemEnvelope Value :=
  ⟨item, none⟩

/-- The envelope was copied from a parent. -/
def ResponseItemEnvelope.inherited (envelope : ResponseItemEnvelope Value) : Bool :=
  envelope.metadata.any (·.inheritedUserMessage)

/-! ## The two steps -/

/-- Identifiers seen in a history, by the kind of call they belong to. -/
structure IdSets where
  function : Finset String
  toolSearch : Finset String
  customTool : Finset String

def IdSets.empty : IdSets :=
  ⟨∅, ∅, ∅⟩

def noteOutput (ids : IdSets) (envelope : ResponseItemEnvelope Value) : IdSets :=
  match envelope.item with
  | .functionCallOutput _ (some callId) _ _ _ _ =>
    { ids with function := insert callId ids.function }
  | .toolSearchOutput _ (some callId) _ _ _ _ =>
    { ids with toolSearch := insert callId ids.toolSearch }
  | .customToolCallOutput _ callId _ _ _ =>
    { ids with customTool := insert callId ids.customTool }
  | _ => ids

def noteCall (ids : IdSets) (envelope : ResponseItemEnvelope Value) : IdSets :=
  match envelope.item with
  | .functionCall _ callId _ | .localShellCall _ (some callId) _ =>
    { ids with function := insert callId ids.function }
  | .toolSearchCall _ (some callId) _ => { ids with toolSearch := insert callId ids.toolSearch }
  | .customToolCall _ callId _ => { ids with customTool := insert callId ids.customTool }
  | _ => ids

/-- The end of a debug build, or a line in the log. -/
def errorOrPanic (debugAssertions : Bool) (message : String) : Except String Unit :=
  if debugAssertions then .error message else .ok ()

section Steps

-- the identifier made of a kind and the UUID of a name in the namespace of synthetic outputs
variable (withSuffix : String → String → String)

def syntheticOutputId (kind : String) (itemId : Option String) : Option String :=
  (itemId.filter (· ≠ "")).map fun sourceId ↦ withSuffix kind (kind ++ ":" ++ sourceId)

def functionOutput (id : Option String) (callId : String) : ResponseItemEnvelope Value :=
  .new (.functionCallOutput (syntheticOutputId withSuffix "fco" id) (some callId) none none
    (.fromText "aborted") none)

def toolSearchAnswer (id : Option String) (callId : String) : ResponseItemEnvelope Value :=
  .new (.toolSearchOutput (syntheticOutputId withSuffix "tso" id) (some callId) "completed" "client"
    [] none)

def customToolOutput (id : Option String) (callId : String) : ResponseItemEnvelope Value :=
  .new (.customToolCallOutput (syntheticOutputId withSuffix "ctco" id) callId none
    (.fromText "aborted") none)

/-- The output to insert behind an item. -/
def missingOutput (ids : IdSets) (envelope : ResponseItemEnvelope Value) :
    Option (ResponseItemEnvelope Value) :=
  match envelope.item with
  | .functionCall id callId _ | .localShellCall id (some callId) _ =>
    if callId ∈ ids.function then none else some (functionOutput withSuffix id callId)
  | .toolSearchCall id (some callId) _ =>
    if callId ∈ ids.toolSearch then none else some (toolSearchAnswer withSuffix id callId)
  | .customToolCall id callId _ =>
    if callId ∈ ids.customTool then none else some (customToolOutput withSuffix id callId)
  | _ => none

/-- The error that goes with a missing output.  A call still running in the parent has no output in
a fork, and a missing output of a function or a tool search is only noted. -/
def missingOutputError (ids : IdSets) (envelope : ResponseItemEnvelope Value) : Option String :=
  match envelope.item with
  | .customToolCall _ callId _ =>
    if callId ∈ ids.customTool ∨ envelope.inherited then none
    else some ("Custom tool call output is missing for call id: " ++ callId)
  | .localShellCall _ (some callId) _ =>
    if callId ∈ ids.function ∨ envelope.inherited then none
    else some ("Local shell call output is missing for call id: " ++ callId)
  | _ => none

def ensureCallOutputsPresent (debugAssertions : Bool) (items : List (ResponseItemEnvelope Value)) :
    Except String (List (ResponseItemEnvelope Value)) :=
  let ids := items.foldl noteOutput .empty
  (items.forM fun envelope ↦
    (missingOutputError ids envelope).forM (errorOrPanic debugAssertions)).map fun _ ↦
      insertAfter items (collect (missingOutput withSuffix ids) items 0)

/-- The error of an output whose call is not there. -/
def orphanError (ids : IdSets) (envelope : ResponseItemEnvelope Value) : Option String :=
  match envelope.item with
  | .functionCallOutput _ (some callId) _ _ _ _ =>
    if callId ∈ ids.function then none
    else some ("Orphan function call output for call id: " ++ callId)
  | .customToolCallOutput _ callId _ _ _ =>
    if callId ∈ ids.customTool then none
    else some ("Orphan custom tool call output for call id: " ++ callId)
  | .toolSearchOutput _ (some callId) _ execution _ _ =>
    if execution = "server" ∨ callId ∈ ids.toolSearch then none
    else some ("Orphan tool search output for call id: " ++ callId)
  | _ => none

def removeOrphanOutputs (debugAssertions : Bool) (items : List (ResponseItemEnvelope Value)) :
    Except String (List (ResponseItemEnvelope Value)) :=
  let ids := items.foldl noteCall .empty
  (items.forM fun envelope ↦ (orphanError ids envelope).forM (errorOrPanic debugAssertions)).map
    fun _ ↦ retainUnlisted ((collect (orphanError ids) items 0).map Prod.fst) 0 items

/-- The two steps in a row, as a history is prepared for a prompt. -/
def pairOutputs (debugAssertions : Bool) (items : List (ResponseItemEnvelope Value)) :
    Except String (List (ResponseItemEnvelope Value)) :=
  (ensureCallOutputsPresent withSuffix debugAssertions items).bind
    (removeOrphanOutputs debugAssertions)

end Steps

/-! ## Keys -/

/-- Calls and outputs belong together by their kind and their identifier. -/
inductive CallKind where
  | function
  | toolSearch
  | customTool
deriving DecidableEq

def IdSets.of (ids : IdSets) : CallKind → Finset String
  | .function => ids.function
  | .toolSearch => ids.toolSearch
  | .customTool => ids.customTool

namespace ResponseItem

def callKey : ResponseItem Value → Option (CallKind × String)
  | functionCall _ callId _ => some (.function, callId)
  | localShellCall _ callId _ => callId.map (.function, ·)
  | toolSearchCall _ callId _ => callId.map (.toolSearch, ·)
  | customToolCall _ callId _ => some (.customTool, callId)
  | _ => none

def outputKey : ResponseItem Value → Option (CallKind × String)
  | functionCallOutput _ callId _ _ _ _ => callId.map (.function, ·)
  | toolSearchOutput _ callId _ _ _ _ => callId.map (.toolSearch, ·)
  | customToolCallOutput _ callId _ _ _ => some (.customTool, callId)
  | _ => none

/-- Tool search outputs that the server made. -/
def isServerOutput : ResponseItem Value → Bool
  | toolSearchOutput _ _ _ execution _ _ => execution == "server"
  | _ => false

end ResponseItem

/-- An output that carries a call identifier which no call of its kind has. -/
def Orphan (items : List (ResponseItemEnvelope Value)) (envelope : ResponseItemEnvelope Value) :
    Prop :=
  envelope.item.isServerOutput = false ∧ ∃ key, envelope.item.outputKey = some key ∧
    ∀ call ∈ items, call.item.callKey ≠ some key

variable (withSuffix : String → String → String)

/-- The output made up for a call. -/
def answer (call : ResponseItemEnvelope Value) (key : CallKind × String) :
    ResponseItemEnvelope Value :=
  match call.item, key with
  | .functionCall id _ _, (_, callId) | .localShellCall id _ _, (_, callId) =>
    functionOutput withSuffix id callId
  | .toolSearchCall id _ _, (_, callId) => toolSearchAnswer withSuffix id callId
  | .customToolCall id _ _, (_, callId) => customToolOutput withSuffix id callId
  | _, _ => call

/-- The items of a prompt as calls and outputs. -/
def pairing : Pairing (ResponseItemEnvelope Value) (CallKind × String) where
  call envelope := envelope.item.callKey
  output envelope := envelope.item.outputKey
  exempt envelope := envelope.item.isServerOutput
  answer := answer withSuffix
  output_of_call := by
    intro envelope key h
    obtain ⟨item, metadata⟩ := envelope
    cases item <;> first | rfl | cases h
  call_answer := by
    intro envelope key h
    obtain ⟨item, metadata⟩ := envelope
    cases item <;> rfl
  output_answer := by
    intro envelope key h
    obtain ⟨item, metadata⟩ := envelope
    cases item with
    | functionCall id callId rest =>
      cases h
      rfl
    | localShellCall id callId rest =>
      obtain ⟨callId, rfl, rfl⟩ := Option.map_eq_some_iff.mp h
      rfl
    | toolSearchCall id callId rest =>
      obtain ⟨callId, rfl, rfl⟩ := Option.map_eq_some_iff.mp h
      rfl
    | customToolCall id callId rest =>
      cases h
      rfl
    | _ => cases h

/-! ## What the sets hold -/

section Sets

variable {note : IdSets → ResponseItemEnvelope Value → IdSets}
  {key : ResponseItemEnvelope Value → Option (CallKind × String)}

/-- A pass that notes the keys of the items ends with the keys of the list. -/
theorem mem_foldl_note {kind : CallKind} {id : String}
    (hnote : ∀ ids envelope, id ∈ (note ids envelope).of kind ↔
      id ∈ ids.of kind ∨ key envelope = some (kind, id))
    (items : List (ResponseItemEnvelope Value)) (ids : IdSets) :
    id ∈ (items.foldl note ids).of kind ↔
      id ∈ ids.of kind ∨ (kind, id) ∈ items.filterMap key := by
  induction items generalizing ids with
  | nil => simp
  | cons envelope items ih =>
    rw [List.foldl_cons, ih, hnote, or_assoc, List.mem_filterMap, List.mem_filterMap,
      List.exists_mem_cons_iff]

theorem mem_noteOutput {ids : IdSets} {envelope : ResponseItemEnvelope Value} {kind : CallKind}
    {id : String} : id ∈ (noteOutput ids envelope).of kind ↔
      id ∈ ids.of kind ∨ envelope.item.outputKey = some (kind, id) := by
  obtain ⟨item, metadata⟩ := envelope
  cases kind <;> cases item with
  | functionCallOutput _ callId =>
    cases callId <;> simp [noteOutput, IdSets.of, ResponseItem.outputKey, or_comm, eq_comm]
  | toolSearchOutput _ callId =>
    cases callId <;> simp [noteOutput, IdSets.of, ResponseItem.outputKey, or_comm, eq_comm]
  | _ => simp [noteOutput, IdSets.of, ResponseItem.outputKey, or_comm, eq_comm]

theorem mem_noteCall {ids : IdSets} {envelope : ResponseItemEnvelope Value} {kind : CallKind}
    {id : String} : id ∈ (noteCall ids envelope).of kind ↔
      id ∈ ids.of kind ∨ envelope.item.callKey = some (kind, id) := by
  obtain ⟨item, metadata⟩ := envelope
  cases kind <;> cases item with
  | localShellCall _ callId =>
    cases callId <;> simp [noteCall, IdSets.of, ResponseItem.callKey, or_comm, eq_comm]
  | toolSearchCall _ callId =>
    cases callId <;> simp [noteCall, IdSets.of, ResponseItem.callKey, or_comm, eq_comm]
  | _ => simp [noteCall, IdSets.of, ResponseItem.callKey, or_comm, eq_comm]

theorem IdSets.notMem_empty (kind : CallKind) (id : String) : id ∉ IdSets.empty.of kind := by
  cases kind <;> exact Finset.notMem_empty id

theorem mem_outputIds (items : List (ResponseItemEnvelope Value)) (key : CallKind × String) :
    key.2 ∈ (items.foldl noteOutput .empty).of key.1 ↔ key ∈ (pairing withSuffix).outputs items :=
  (mem_foldl_note (fun ids envelope ↦ @mem_noteOutput _ ids envelope key.1 key.2) items .empty).trans
    (or_iff_right (IdSets.notMem_empty _ _))

theorem mem_callIds (items : List (ResponseItemEnvelope Value)) (key : CallKind × String) :
    key.2 ∈ (items.foldl noteCall .empty).of key.1 ↔ key ∈ (pairing withSuffix).calls items :=
  (mem_foldl_note (fun ids envelope ↦ @mem_noteCall _ ids envelope key.1 key.2) items .empty).trans
    (or_iff_right (IdSets.notMem_empty _ _))

end Sets

/-! ## The steps as completing and pruning -/

theorem missingOutput_eq (ids : IdSets) (envelope : ResponseItemEnvelope Value) :
    missingOutput withSuffix ids envelope = envelope.item.callKey.bind fun key ↦
      if key.2 ∈ ids.of key.1 then none else some (answer withSuffix envelope key) := by
  obtain ⟨item, metadata⟩ := envelope
  cases item with
  | localShellCall _ callId => cases callId <;> rfl
  | toolSearchCall _ callId => cases callId <;> rfl
  | _ => rfl

theorem isNone_orphanError (ids : IdSets) (envelope : ResponseItemEnvelope Value) :
    (orphanError ids envelope).isNone = !(!envelope.item.isServerOutput &&
      envelope.item.outputKey.any fun key ↦ decide (key.2 ∉ ids.of key.1)) := by
  obtain ⟨item, metadata⟩ := envelope
  cases item with
  | functionCallOutput _ callId =>
    cases callId with
    | none => rfl
    | some callId =>
      simp only [orphanError, ResponseItem.isServerOutput, ResponseItem.outputKey, IdSets.of]
      split_ifs with h <;> simp [h]
  | toolSearchOutput _ callId _ execution =>
    cases callId with
    | none => simp [orphanError, ResponseItem.outputKey]
    | some callId =>
      simp only [orphanError, ResponseItem.isServerOutput, ResponseItem.outputKey, IdSets.of]
      by_cases hserver : execution = "server"
      · simp [hserver]
      · by_cases h : callId ∈ ids.toolSearch <;> simp [hserver, h]
  | customToolCallOutput _ callId =>
    simp only [orphanError, ResponseItem.isServerOutput, ResponseItem.outputKey, IdSets.of]
    split_ifs with h <;> simp [h]
  | _ => rfl

theorem missingOutput_outputIds (items : List (ResponseItemEnvelope Value))
    (envelope : ResponseItemEnvelope Value) :
    missingOutput withSuffix (items.foldl noteOutput .empty) envelope =
      (pairing withSuffix).missing items envelope := by
  rw [missingOutput_eq]
  change _ = envelope.item.callKey.bind _
  congr 1
  funext key
  have hids := mem_outputIds withSuffix items key
  by_cases h : key ∈ (pairing withSuffix).outputs items
  · rw [if_pos (hids.mpr h), if_pos h]
  · rw [if_neg (mt hids.mp h), if_neg h]
    rfl

theorem isNone_orphanError_callIds (items : List (ResponseItemEnvelope Value))
    (envelope : ResponseItemEnvelope Value) :
    (orphanError (items.foldl noteCall .empty) envelope).isNone =
      !(pairing withSuffix).orphan items envelope := by
  rw [isNone_orphanError]
  change _ = !(!envelope.item.isServerOutput && envelope.item.outputKey.any _)
  congr 3
  funext key
  exact decide_eq_decide.mpr (not_congr (mem_callIds withSuffix items key))

/-- A build that only logs goes on after every error. -/
theorem forM_errorOrPanic_false (error : ResponseItemEnvelope Value → Option String)
    (items : List (ResponseItemEnvelope Value)) :
    (items.forM fun envelope ↦ (error envelope).forM (errorOrPanic false)) = .ok () := by
  induction items with
  | nil => rfl
  | cons envelope items ih =>
    rw [List.forM]
    cases error envelope <;> exact ih

theorem ensureCallOutputsPresent_eq (items : List (ResponseItemEnvelope Value)) :
    ensureCallOutputsPresent withSuffix false items = .ok ((pairing withSuffix).complete items) := by
  rw [ensureCallOutputsPresent, forM_errorOrPanic_false, insertAfter_collect]
  simp only [missingOutput_outputIds]
  rfl

theorem removeOrphanOutputs_eq (items : List (ResponseItemEnvelope Value)) :
    removeOrphanOutputs false items = .ok ((pairing withSuffix).prune items) := by
  rw [removeOrphanOutputs, forM_errorOrPanic_false, retainUnlisted_collect]
  simp only [isNone_orphanError_callIds withSuffix]
  rfl

theorem pairOutputs_eq (items : List (ResponseItemEnvelope Value)) :
    pairOutputs withSuffix false items =
      .ok ((pairing withSuffix).prune ((pairing withSuffix).complete items)) := by
  rw [pairOutputs, ensureCallOutputsPresent_eq]
  exact removeOrphanOutputs_eq withSuffix _

theorem orphan_pairing_iff {items : List (ResponseItemEnvelope Value)}
    {envelope : ResponseItemEnvelope Value} :
    (pairing withSuffix).orphan items envelope = true ↔ Orphan items envelope := by
  rw [Pairing.orphan_eq_true, Orphan]
  simp only [Pairing.mem_calls, not_exists, not_and]
  rfl

open Classical in
/-- A prompt is paired: every call has an output of its kind, every output but those of the server
has its call, what is neither inserted nor an orphan is the history in its order, every inserted
output stands directly behind its call, and a second pass changes nothing. -/
theorem pairOutputs_paired (items : List (ResponseItemEnvelope Value)) :
    ∃ (paired : List (ResponseItemEnvelope Value))
      (inserted : ResponseItemEnvelope Value → Option (ResponseItemEnvelope Value)),
      pairOutputs withSuffix false items = .ok paired ∧
      (∀ call ∈ paired, ∀ key, call.item.callKey = some key →
        ∃ output ∈ paired, output.item.outputKey = some key) ∧
      (∀ output ∈ paired, ∀ key, output.item.outputKey = some key →
        output.item.isServerOutput = false → ∃ call ∈ paired, call.item.callKey = some key) ∧
      paired = (items.filter fun envelope ↦ ¬ Orphan items envelope).flatMap
        (fun envelope ↦ envelope :: (inserted envelope).toList) ∧
      (∀ call output, inserted call = some output →
        ∃ key, call.item.callKey = some key ∧ output.item.outputKey = some key) ∧
      pairOutputs withSuffix false paired = .ok paired := by
  refine ⟨_, (pairing withSuffix).missing items, pairOutputs_eq withSuffix items, ?_, ?_, ?_, ?_, ?_⟩
  · intro call hcall key hkey
    exact Pairing.mem_outputs.mp
      (Pairing.mem_outputs_of_mem_calls (Pairing.mem_calls.mpr ⟨call, hcall, hkey⟩))
  · intro output houtput key hkey hserver
    exact Pairing.mem_calls.mp (Pairing.mem_calls_of_output houtput hkey hserver)
  · have hkept : (pairing withSuffix).prune items =
        items.filter fun envelope ↦ ¬ Orphan items envelope := by
      apply List.filter_congr
      intro envelope _
      rw [decide_not, ← Bool.decide_coe ((pairing withSuffix).orphan items envelope)]
      exact congrArg not (decide_eq_decide.mpr (orphan_pairing_iff withSuffix))
    rw [Pairing.prune_complete, hkept]
  · intro call output hinserted
    obtain ⟨key, hcall, -, rfl⟩ := Pairing.missing_eq_some hinserted
    exact ⟨key, hcall, (pairing withSuffix).output_answer hcall⟩
  · rw [pairOutputs_eq, Pairing.prune_complete_idem]

end Prompt

end SpineCodex
