import SpineCodex.Spawn.Results

/-!
# When a receipt is valid

The limits of a receipt are checked on texts that the children write.  The parsing of the
tasks bounds the tasks, not these texts, so the receipt of an accepted batch is valid exactly
when the results themselves are small enough.
-/

namespace SpineCodex

/-! ## Accepted tasks -/

/-- What the parsing of a batch guarantees about its tasks.  The size of a summary is bounded only
without the white space around it. -/
structure TasksAccepted (tasks : List SpawnTask) : Prop where
  two_le : 2 ≤ tasks.length
  length_le : tasks.length ≤ maxSpawnTasks
  visible : ∀ task ∈ tasks, ¬Blank task.summary ∧ ¬Blank task.prompt
  prompts : ∀ task ∈ tasks, task.prompt.utf8ByteSize ≤ maxSpawnPromptBytes
  bytes : taskBytes tasks ≤ maxSpawnBatchBytes

theorem utf8Size_le_escapedSize (c : Char) : c.utf8Size ≤ Json.escapedSize c := by
  unfold Json.escapedSize
  split_ifs with hshort hcontrol
  · rcases hshort with rfl | rfl | h | h | h | h | h
    · decide
    · decide
    all_goals
      rw [Char.utf8Size, h]
      decide
  · exact c.utf8Size_le_four.trans (by decide)
  · exact le_refl _

theorem utf8ByteSize_le_escaped (text : String) :
    text.utf8ByteSize ≤ (text.toList.map Json.escapedSize).sum := by
  have hlist : ∀ cs : List Char, String.utf8Len cs ≤ (cs.map Json.escapedSize).sum := by
    intro cs
    induction cs with
    | nil => simp
    | cons c cs ih =>
      rw [String.utf8Len_cons, List.map_cons, List.sum_cons]
      exact (Nat.add_comm _ _).le.trans (Nat.add_le_add (utf8Size_le_escapedSize c) ih)
  calc text.utf8ByteSize = String.utf8Len text.toList := by
        rw [← String.utf8ByteSize_ofList, String.ofList_toList]
    _ ≤ (text.toList.map Json.escapedSize).sum := hlist text.toList

/-- The size of the provider value is that of the escaped text and of its frame. -/
theorem userMessageValue_byteSize (text : String) :
    (userMessageValue text).byteSize = 88 + (text.toList.map Json.escapedSize).sum := by
  have hinput : Json.quotedSize "input" = 7 := by decide +kernel
  have hcontent : Json.quotedSize "content" = 9 := by decide +kernel
  have htext : Json.quotedSize "text" = 6 := by decide +kernel
  have htype : Json.quotedSize "type" = 6 := by decide +kernel
  have hinputText : Json.quotedSize "input_text" = 12 := by decide +kernel
  have hrole : Json.quotedSize "role" = 6 := by decide +kernel
  have huser : Json.quotedSize "user" = 6 := by decide +kernel
  have hmessage : Json.quotedSize "message" = 9 := by decide +kernel
  simp only [userMessageValue, Json.byteSize, Json.fieldsSize, Json.itemsSize, List.length_cons,
    List.length_nil, hinput, hcontent, htext, htype, hinputText, hrole, huser, hmessage]
  rw [Json.quotedSize]
  omega

section

set_option maxRecDepth 20000

theorem envelopeContract_escapedSize : (envelopeContract.toList.map Json.escapedSize).sum = 2093 := by
  unfold envelopeContract
  apply Eq.trans
  · repeat' first | with_reducible apply Json.escapedSize_append | exact Json.escapedSize_of_ofList rfl rfl
  · decide +kernel

theorem envelopeRole_escapedSize : (envelopeRole.toList.map Json.escapedSize).sum = 167 := by
  unfold envelopeRole
  apply Eq.trans
  · repeat' first | with_reducible apply Json.escapedSize_append | exact Json.escapedSize_of_ofList rfl rfl
  · decide +kernel

end

/-- The prompt of a task stands in the envelope of its child. -/
theorem prompt_le_of_envelope {task : SpawnTask} {tasks : List SpawnTask}
    (h : validateUserMessage (taskEnvelope task tasks) = .ok ()) :
    task.prompt.utf8ByteSize ≤ maxSpawnPromptBytes := by
  have hwire := Outcome.require_eq_ok.mp h
  rw [userMessageValue_byteSize] at hwire
  have hprompt := utf8ByteSize_le_escaped task.prompt
  simp only [taskEnvelope, String.toList_append, List.map_append, List.sum_append,
    envelopeRole_escapedSize, envelopeContract_escapedSize, maxSpineModelItemWireBytes] at hwire
  rw [maxSpawnPromptBytes]
  omega

/-- A check of each element with its position. -/
theorem forM_zipIdx_eq_ok {α ε : Type} {items : List α} {check : ℕ → α → Outcome ε PUnit}
    {p : α → Prop} (h : ∀ i a, items[i]? = some a → (check i a = .ok ⟨⟩ ↔ p a)) :
    items.zipIdx.forM (fun (a, i) ↦ check i a) = .ok ⟨⟩ ↔ ∀ a ∈ items, p a := by
  rw [Outcome.forM_eq_ok]
  constructor
  · intro hall a hmem
    obtain ⟨i, hget⟩ := List.getElem?_of_mem hmem
    have hcheck : check i a = .ok ⟨⟩ := hall (a, i) (List.mem_zipIdx_iff_getElem?.mpr hget)
    exact (h i a hget).mp hcheck
  · rintro hall ⟨a, i⟩ hmem
    have hget : items[i]? = some a := List.mem_zipIdx_iff_getElem?.mp hmem
    exact (h i a hget).mpr (hall a (List.mem_of_getElem? hget))

theorem validateCompleteChildInputs_eq_ok {tasks : List SpawnTask} :
    validateCompleteChildInputs tasks = .ok () ↔
      ∀ task ∈ tasks, validateUserMessage (taskEnvelope task tasks) = .ok () := by
  rw [validateCompleteChildInputs, Outcome.forM_eq_ok]
  constructor
  · intro hall task hmem
    obtain ⟨ordinal, hget⟩ := List.getElem?_of_mem hmem
    have hinput := hall (task, ordinal) (List.mem_zipIdx_iff_getElem?.mpr hget)
    exact Outcome.mapErr_eq_ok.mp hinput
  · rintro hall ⟨task, ordinal⟩ hmem
    have hget : tasks[ordinal]? = some task := List.mem_zipIdx_iff_getElem?.mp hmem
    exact Outcome.mapErr_eq_ok.mpr (hall task (List.mem_of_getElem? hget))

theorem parseTasks_of_valid {parse : ToolArguments} {arguments : String} {tasks : List SpawnTask}
    (hvalidate : validateTool parse .spawn arguments = .ok (.transition (.spawn tasks)))
    (hdistinct : duplicateSummary? [] 0 tasks = none)
    (hinputs : validateCompleteChildInputs tasks = .ok ()) : parseTasks parse arguments = .ok tasks := by
  unfold parseTasks
  simp only [hvalidate, Outcome.mapErr_ok, Outcome.ok_bind, hdistinct, hinputs]

theorem parseTasks_accepted {parse : ToolArguments} {arguments : String} {tasks : List SpawnTask}
    (h : parseTasks parse arguments = .ok tasks) : TasksAccepted tasks := by
  obtain ⟨validation, hvalidate, h⟩ := Outcome.bind_eq_ok.mp h
  rw [Outcome.mapErr_eq_ok, validateTool, validateToolWithSpawnLimit] at hvalidate
  simp only [Outcome.bind_eq_ok, Outcome.require_eq_ok, Outcome.ok.injEq] at hvalidate
  obtain ⟨tasks', -, _, htwo, _, hmax, _, hbytes, _, hfields, rfl⟩ := hvalidate
  dsimp only at h
  split at h
  · simp at h
  · obtain ⟨_, hinputs, h⟩ := Outcome.bind_eq_ok.mp h
    obtain rfl := Outcome.ok.inj h
    have hinputs := validateCompleteChildInputs_eq_ok.mp hinputs
    have hfields := Outcome.forM_eq_ok.mp hfields
    refine ⟨htwo, hmax, ?_, ?_, hbytes⟩
    · intro task htask
      obtain ⟨⟨hsummary, -⟩, hprompt, -⟩ := validateTaskFields_eq_ok.mp (hfields task htask)
      exact ⟨hsummary, hprompt⟩
    · exact fun task htask ↦ prompt_le_of_envelope (hinputs task htask)

/-! ## Results that the transaction builds -/

/-- A result in its place, with texts that are not blank. -/
structure WellMade (ordinal : ℕ) (result : SpawnResult) : Prop where
  ordinal_eq : result.ordinal = ordinal
  memory : ¬Blank result.memoryBody
  diagnostic : ∀ diagnostic ∈ result.diagnostic, ¬Blank diagnostic
  completed : result.diagnostic = none → result.outcome = .completed
  executionRef : ∀ executionRef ∈ result.executionRef,
    ¬Blank executionRef ∧ executionRef.utf8ByteSize ≤ maxSummaryBytes

/-- The sizes that one result may have. -/
structure SpawnResult.Fits (result : SpawnResult) : Prop where
  memory : result.memoryBody.utf8ByteSize ≤ maxMemoryBytes
  diagnostic : ∀ diagnostic ∈ result.diagnostic, diagnostic.utf8ByteSize ≤ maxSummaryBytes

/-- What one result adds to the total of its receipt. -/
def SpawnResult.bytes (result : SpawnResult) : ℕ :=
  result.memoryBody.utf8ByteSize + (result.diagnostic.elim 0 String.utf8ByteSize +
    result.executionRef.elim 0 String.utf8ByteSize)

theorem errorResult_wellMade {ordinal : ℕ} {outcome : SpawnOutcome} {diagnostic : String}
    (hvisible : ¬Blank diagnostic) (thread : Option ThreadId) :
    WellMade ordinal (errorResult ordinal outcome diagnostic (thread.map ThreadId.text)) where
  ordinal_eq := rfl
  memory := hvisible
  diagnostic text htext := Option.some.inj htext ▸ hvisible
  completed := by simp [errorResult]
  executionRef := by
    intro text htext
    obtain ⟨id, -, rfl⟩ := Option.map_eq_some_iff.mp htext
    exact ⟨id.visible, id.size.le.trans (by decide)⟩

theorem ChildFailure.diagnostic_visible (failure : ChildFailure) : ¬Blank failure.diagnostic := by
  cases failure with
  | failedToStart error => exact not_blank_append (not_blank_literal rfl (by decide)) _
  | retryAdmissionFailed error => exact not_blank_append (not_blank_literal rfl (by decide)) _
  | retryFailedToStart error => exact not_blank_append (not_blank_literal rfl (by decide)) _
  | cannotContinue error => exact not_blank_append (not_blank_literal rfl (by decide)) _
  | continuationAdmissionFailed error => exact not_blank_append (not_blank_literal rfl (by decide)) _
  | continuationFailedToStart error => exact not_blank_append (not_blank_literal rfl (by decide)) _
  | siblingFailedToStart => exact not_blank_literal rfl (by decide)
  | cancelled => exact not_blank_literal rfl (by decide)
  | retrySiblingFailedToStart => exact not_blank_literal rfl (by decide)
  | threadUnavailable => exact not_blank_literal rfl (by decide)
  | lost => exact not_blank_literal rfl (by decide)

theorem ChildOutcome.result_wellMade (ordinal : ℕ) (outcome : ChildOutcome) :
    WellMade ordinal (outcome.result ordinal) := by
  cases outcome with
  | failed failure => exact errorResult_wellMade failure.diagnostic_visible failure.thread?
  | terminal thread status =>
    have herror : ∀ outcome diagnostic, ¬Blank diagnostic →
        WellMade ordinal (errorResult ordinal outcome diagnostic (some thread.text)) :=
      fun _ _ hvisible ↦ errorResult_wellMade hvisible (some thread)
    cases status with
    | completed message =>
      cases message with
      | none => exact herror _ _ (not_blank_literal rfl (by decide))
      | some memory =>
        simp only [ChildOutcome.result, resultFromStatus]
        split_ifs with hblank
        · exact herror _ _ (not_blank_literal rfl (by decide))
        · refine ⟨rfl, hblank, by simp, fun _ ↦ rfl, ?_⟩
          intro text htext
          obtain rfl := Option.some.inj htext
          exact ⟨thread.visible, thread.size.le.trans (by decide)⟩
    | errored error => exact herror _ _ (not_blank_append (not_blank_literal rfl (by decide)) _)
    | shutdown => exact herror _ _ (not_blank_literal rfl (by decide))
    | notFound => exact herror _ _ (not_blank_literal rfl (by decide))
    | pendingInit => exact herror _ _ (not_blank_append (not_blank_literal rfl (by decide)) _)
    | running => exact herror _ _ (not_blank_append (not_blank_literal rfl (by decide)) _)
    | interrupted => exact herror _ _ (not_blank_append (not_blank_literal rfl (by decide)) _)

theorem validateResult_iff {ordinal : ℕ} {result : SpawnResult} (h : WellMade ordinal result) :
    SpawnReceipt.validateResult ordinal result = .ok () ↔ result.Fits := by
  have hdiagnostic : SpawnReceipt.validateDiagnostic ordinal result = .ok () ↔
      ∀ diagnostic ∈ result.diagnostic, diagnostic.utf8ByteSize ≤ maxSummaryBytes := by
    unfold SpawnReceipt.validateDiagnostic
    cases hnone : result.diagnostic with
    | none => simp [h.completed hnone]
    | some diagnostic =>
      have hvisible := h.diagnostic diagnostic hnone
      simp [Outcome.bind_eq_ok, hvisible, validateSpawnField]
  have hreference : SpawnReceipt.validateExecutionRef ordinal result = .ok () := by
    unfold SpawnReceipt.validateExecutionRef
    cases hnone : result.executionRef with
    | none => rfl
    | some executionRef =>
      obtain ⟨hvisible, hsize⟩ := h.executionRef executionRef hnone
      simp [Outcome.bind_eq_ok, hvisible, validateSpawnField, hsize]
  unfold SpawnReceipt.validateResult
  simp only [Outcome.bind_eq_ok, Outcome.require_eq_ok, validateSpawnField]
  constructor
  · rintro ⟨_, -, _, -, _, hmemory, _, hvalid, -⟩
    exact ⟨hmemory, hdiagnostic.mp hvalid⟩
  · rintro ⟨hmemory, hsizes⟩
    exact ⟨(), h.ordinal_eq, (), h.memory, (), hmemory, (), hdiagnostic.mpr hsizes, hreference⟩

theorem sum_resultBytes (results : List SpawnResult) :
    ((results.flatMap fun result ↦ [some result.memoryBody, result.diagnostic,
      result.executionRef].filterMap id).map String.utf8ByteSize).sum =
        (results.map SpawnResult.bytes).sum := by
  induction results with
  | nil => rfl
  | cons result rest ih =>
    rw [List.flatMap_cons, List.map_append, List.sum_append, ih, List.map_cons, List.sum_cons,
      SpawnResult.bytes]
    cases result.diagnostic <;> cases result.executionRef <;> simp

theorem sum_taskBytes (tasks : List SpawnTask) :
    ((tasks.flatMap fun task ↦ [task.summary, task.prompt]).map String.utf8ByteSize).sum =
      taskBytes tasks := by
  induction tasks with
  | nil => rfl
  | cons task rest ih =>
    rw [List.flatMap_cons, List.map_append, List.sum_append, ih, taskBytes, taskBytes, List.map_cons,
      List.sum_cons]
    simp

/-- The sizes of a receipt that passes. -/
structure ReceiptFits (tasks : List SpawnTask) (results : List SpawnResult) : Prop where
  summaries : ∀ task ∈ tasks, task.summary.utf8ByteSize ≤ maxSummaryBytes
  fits : ∀ result ∈ results, result.Fits
  total : (results.map SpawnResult.bytes).sum ≤ maxSpawnBatchBytes

theorem validateTask_iff {task : SpawnTask} (hsummary : ¬Blank task.summary)
    (hprompt : ¬Blank task.prompt) (hbytes : task.prompt.utf8ByteSize ≤ maxSpawnPromptBytes)
    (ordinal : ℕ) : SpawnReceipt.validateTask ordinal task = .ok () ↔
      task.summary.utf8ByteSize ≤ maxSummaryBytes := by
  simp only [SpawnReceipt.validateTask, Outcome.bind_eq_ok, Outcome.require_eq_ok,
    validateSpawnField]
  constructor
  · rintro ⟨_, -, _, -, _, hsize, -⟩
    exact hsize
  · intro hsize
    exact ⟨(), hsummary, (), hprompt, (), hsize, hbytes⟩

theorem validateFor_iff {tasks : List SpawnTask} (htasks : TasksAccepted tasks)
    {results : List SpawnResult} (hlength : results.length = tasks.length)
    (hmade : ∀ (ordinal : ℕ) (result : SpawnResult), results[ordinal]? = some result →
      WellMade ordinal result) :
    SpawnReceipt.validateFor ⟨spineSpawnResultSchema, results⟩ tasks = .ok () ↔
      ReceiptFits tasks results := by
  have htask : tasks.zipIdx.forM (fun entry ↦ SpawnReceipt.validateTask entry.2 entry.1) =
      .ok () ↔ ∀ task ∈ tasks, task.summary.utf8ByteSize ≤ maxSummaryBytes := by
    refine forM_zipIdx_eq_ok fun ordinal task hget ↦ ?_
    have hmem := List.mem_of_getElem? hget
    exact validateTask_iff (htasks.visible task hmem).1 (htasks.visible task hmem).2
      (htasks.prompts task hmem) ordinal
  have hresult : results.zipIdx.forM
      (fun entry ↦ SpawnReceipt.validateResult entry.2 entry.1) = .ok () ↔
        ∀ result ∈ results, result.Fits :=
    forM_zipIdx_eq_ok fun ordinal result hget ↦ validateResult_iff (hmade ordinal result hget)
  unfold SpawnReceipt.validateFor
  simp only [Outcome.bind_eq_ok, Outcome.require_eq_ok, validateSpawnAggregate, sum_resultBytes,
    sum_taskBytes]
  constructor
  · rintro ⟨_, -, _, -, _, hsummaries, _, -, _, -, _, -, _, hfits, htotal⟩
    exact ⟨htask.mp hsummaries, hresult.mp hfits, htotal⟩
  · rintro ⟨hsummaries, hfits, htotal⟩
    exact ⟨(), htasks.two_le, (), htasks.length_le, (), htask.mpr hsummaries, (), htasks.bytes, (),
      trivial, (), hlength, (), hresult.mpr hfits, htotal⟩

/-! ## Receipts of accepted batches -/

/-- The results of the children in their order. -/
def childResults (outcomes : List ChildOutcome) : List SpawnResult :=
  outcomes.zipIdx.map fun (outcome, ordinal) ↦ outcome.result ordinal

/-- The results of a batch that was rejected for lack of capacity. -/
def capacityResults (tasks : List SpawnTask) (maxThreads : ℕ) : List SpawnResult :=
  tasks.zipIdx.map fun (task, ordinal) ↦ errorResult ordinal .errored
    (capacityDiagnostic tasks.length maxThreads ordinal task.summary) none

theorem getElem?_zipIdx_map {α β : Type} {items : List α} {f : α × ℕ → β} {i : ℕ} {b : β}
    (h : (items.zipIdx.map f)[i]? = some b) : ∃ a, f (a, i) = b := by
  rw [List.getElem?_map, List.getElem?_zipIdx, Option.map_map, Option.map_eq_some_iff] at h
  obtain ⟨a, -, ha⟩ := h
  exact ⟨a, by simpa using ha⟩

theorem childResults_wellMade (outcomes : List ChildOutcome) (ordinal : ℕ) (result : SpawnResult)
    (h : (childResults outcomes)[ordinal]? = some result) : WellMade ordinal result := by
  obtain ⟨outcome, rfl⟩ := getElem?_zipIdx_map h
  exact outcome.result_wellMade ordinal

theorem capacityDiagnostic_visible (taskCount maxThreads ordinal : ℕ) (summary : String) :
    ¬Blank (capacityDiagnostic taskCount maxThreads ordinal summary) := by
  unfold capacityDiagnostic
  iterate 13 apply not_blank_append
  exact not_blank_literal rfl (by decide)

theorem capacityResults_wellMade (tasks : List SpawnTask) (maxThreads ordinal : ℕ)
    (result : SpawnResult) (h : (capacityResults tasks maxThreads)[ordinal]? = some result) :
    WellMade ordinal result := by
  obtain ⟨task, rfl⟩ := getElem?_zipIdx_map h
  exact errorResult_wellMade (capacityDiagnostic_visible _ _ _ _) none

theorem zipIdx_map_getD (results : List SpawnResult) (f : ℕ → SpawnResult) :
    (results.map some).zipIdx.map (fun (result, ordinal) ↦ result.getD (f ordinal)) = results := by
  rw [List.zipIdx_map, List.map_map]
  exact List.zipIdx_map_fst 0 results

theorem finishReceipt_iff {tasks : List SpawnTask} (htasks : TasksAccepted tasks)
    {results : List SpawnResult} (hlength : results.length = tasks.length)
    (hmade : ∀ (ordinal : ℕ) (result : SpawnResult), results[ordinal]? = some result →
      WellMade ordinal result) :
    (∃ receipt, finishReceipt tasks (results.map some) = .ok receipt ∧
      receipt.validateFor tasks = .ok ()) ↔ ReceiptFits tasks results := by
  rw [← validateFor_iff htasks hlength hmade]
  unfold finishReceipt
  rw [zipIdx_map_getD]
  constructor
  · rintro ⟨receipt, hok, hvalid⟩
    obtain ⟨_, -, hreceipt⟩ := Outcome.bind_eq_ok.mp hok
    obtain rfl := Outcome.ok.inj hreceipt
    exact hvalid
  · intro hvalid
    exact ⟨_, Outcome.bind_eq_ok.mpr ⟨(), Outcome.mapErr_eq_ok.mpr hvalid, rfl⟩, hvalid⟩

/-- A batch of two small tasks and the deserializer that returns it. -/
def pairTasks : List SpawnTask := [⟨"a", "p"⟩, ⟨"b", "p"⟩]

def pairArguments : ToolArguments where
  openArgs _ := .err "expected spawn"
  closeArgs _ := .err "expected spawn"
  nextArgs _ := .err "expected spawn"
  spawnArgs _ := .ok pairTasks

def childThread : ThreadId :=
  ⟨"00000000-0000-0000-0000-000000000000", by decide +kernel, not_blank_literal rfl (by decide)⟩

/-- A short task of a small batch passes the bound of the child's input. -/
theorem validateUserMessage_of_small {task : SpawnTask} {tasks : List SpawnTask}
    (h : ((trim task.summary).toList.map Json.escapedSize).sum +
      ((peerRoster (trim task.summary) tasks).toList.map Json.escapedSize).sum +
      (task.prompt.toList.map Json.escapedSize).sum ≤ 7000) :
    validateUserMessage (taskEnvelope task tasks) = .ok () := by
  have hpeers : (envelopePeers.toList.map Json.escapedSize).sum = 34 :=
    Json.escapedSize_of_ofList rfl (by decide +kernel)
  rw [validateUserMessage, Outcome.require_eq_ok, userMessageValue_byteSize]
  simp only [taskEnvelope, String.toList_append, List.map_append, List.sum_append,
    envelopeRole_escapedSize, envelopeContract_escapedSize, hpeers, maxSpineModelItemWireBytes]
  omega

theorem pairTasks_validated :
    validateTool pairArguments .spawn "" = .ok (.transition (.spawn pairTasks)) := by
  decide +kernel

theorem pairTasks_inputs : validateCompleteChildInputs pairTasks = .ok () := by
  refine validateCompleteChildInputs_eq_ok.mpr ?_
  intro task htask
  have hpair : task = ⟨"a", "p"⟩ ∨ task = ⟨"b", "p"⟩ := List.mem_pair.mp htask
  rcases hpair with rfl | rfl
  · exact validateUserMessage_of_small (by decide +kernel)
  · exact validateUserMessage_of_small (by decide +kernel)

theorem pairTasks_parsed : parseTasks pairArguments "" = .ok pairTasks :=
  parseTasks_of_valid pairTasks_validated (by decide +kernel) pairTasks_inputs

/-- A completed child. -/
def completedWith (memory : String) : ChildOutcome := .terminal childThread (.completed (some memory))

theorem completedWith_result {memory : String} (h : ¬Blank memory) (ordinal : ℕ) :
    (completedWith memory).result ordinal = ⟨ordinal, .completed, memory, none, childThread.text⟩ := by
  simp [completedWith, ChildOutcome.result, resultFromStatus, h]

/-- A memory that is one byte too large. -/
def longMemory : String := .ofList (List.replicate (maxMemoryBytes + 1) 'm')

theorem utf8Len_replicate (n : ℕ) (c : Char) :
    String.utf8Len (List.replicate n c) = n * c.utf8Size := by
  induction n with
  | zero => simp
  | succ n ih => rw [List.replicate_succ, String.utf8Len_cons, ih, Nat.succ_mul]

end SpineCodex
