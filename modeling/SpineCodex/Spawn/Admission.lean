import SpineCodex.Spawn.Receipts

/-!
# Admission of a batch and validation of its receipt

The tool bounds the fields of a task without the white space around them, and the receipt bounds
them as they are.  Prompts stand untrimmed in the input of the children, which is bounded as
well, so that only the summaries of an accepted batch can be refused later.
-/

namespace SpineCodex

/-- The error is about a field of a task. -/
def SpawnValidationError.OfTask : SpawnValidationError → Prop
  | .emptyTaskSummary _ => True
  | .emptyTaskPrompt _ => True
  | .fieldTooLarge _ field _ => field = "summary" ∨ field = "prompt"
  | .aggregateTooLarge phase _ _ => phase = "task"
  | _ => False

namespace SpawnReceipt

/-- The results pass every check that does not look at the tasks. -/
structure ResultsValid (results : List SpawnResult) : Prop where
  each : (results.zipIdx.forM fun (result, expected) ↦ validateResult expected result) = .ok ()
  total : validateSpawnAggregate "result" (results.flatMap fun result ↦
    [some result.memoryBody, result.diagnostic, result.executionRef].filterMap id) = .ok ()

/-- A task is refused only for one of its fields. -/
theorem ofTask_of_validateTask {ordinal : ℕ} {task : SpawnTask} {error : SpawnValidationError}
    (h : validateTask ordinal task = .err error) : error.OfTask := by
  simp only [validateTask, validateSpawnField, Outcome.bind_eq_err, Outcome.require_eq_err] at h
  obtain ⟨-, rfl⟩ | ⟨_, -, ⟨-, rfl⟩ | ⟨_, -, ⟨-, rfl⟩ | ⟨_, -, -, rfl⟩⟩⟩ := h
  · trivial
  · trivial
  · exact .inl rfl
  · exact .inr rfl

theorem validateTask_ne_crash (ordinal : ℕ) (task : SpawnTask) :
    validateTask ordinal task ≠ .crash := by
  simp only [validateTask, validateSpawnField]
  apply Outcome.bind_ne_crash Outcome.require_ne_crash
  intro _
  apply Outcome.bind_ne_crash Outcome.require_ne_crash
  intro _
  exact Outcome.bind_ne_crash Outcome.require_ne_crash fun _ ↦ Outcome.require_ne_crash

/-- The checks of all tasks, each with its place. -/
def validateTasks (tasks : List SpawnTask) : Outcome SpawnValidationError Unit :=
  tasks.zipIdx.forM fun item ↦ validateTask item.2 item.1

theorem validateTasks_ne_crash (tasks : List SpawnTask) : validateTasks tasks ≠ .crash := by
  unfold validateTasks
  apply Outcome.forM_ne_crash
  intro item
  exact validateTask_ne_crash item.2 item.1

theorem ofTask_of_validateTasks {tasks : List SpawnTask} {error : SpawnValidationError}
    (h : validateTasks tasks = .err error) : error.OfTask := by
  obtain ⟨item, -, htask⟩ := Outcome.exists_of_forM_eq_err h
  exact ofTask_of_validateTask htask

/-- The checks of the tasks pass exactly when the summaries of an accepted batch are small as
they are. -/
theorem validateTasks_iff {tasks : List SpawnTask} (htasks : TasksAccepted tasks) :
    validateTasks tasks = .ok () ↔ ∀ task ∈ tasks, task.summary.utf8ByteSize ≤ maxSummaryBytes := by
  refine forM_zipIdx_eq_ok fun ordinal task hget ↦ ?_
  have hmem := List.mem_of_getElem? hget
  exact validateTask_iff (htasks.visible task hmem).1 (htasks.visible task hmem).2
    (htasks.prompts task hmem) ordinal

/-- Behind accepted tasks and valid results only the tasks and the schema are left to check. -/
theorem validateFor_eq {receipt : SpawnReceipt} {tasks : List SpawnTask} (htasks : TasksAccepted tasks)
    (hresults : ResultsValid receipt.results) (hlength : receipt.results.length = tasks.length) :
    receipt.validateFor tasks = (validateTasks tasks >>= fun _ ↦
      .require (receipt.schema = spineSpawnResultSchema) (.invalidSchema receipt.schema)) := by
  have htotal : validateSpawnAggregate "task" (tasks.flatMap fun task ↦ [task.summary, task.prompt]) =
      .ok () := by
    rw [validateSpawnAggregate, Outcome.require_eq_ok, sum_taskBytes]
    exact htasks.bytes
  have htwo : Outcome.require (2 ≤ tasks.length) SpawnValidationError.tooFewTasks = .ok () :=
    Outcome.require_eq_ok.mpr htasks.two_le
  have hmax : Outcome.require (tasks.length ≤ maxSpawnTasks)
      (SpawnValidationError.tooManyTasks maxSpawnTasks tasks.length) = .ok () :=
    Outcome.require_eq_ok.mpr htasks.length_le
  have hcount : Outcome.require (receipt.results.length = tasks.length)
      (SpawnValidationError.resultCount tasks.length receipt.results.length) = .ok () :=
    Outcome.require_eq_ok.mpr hlength
  rw [validateFor, htwo, hmax, htotal, hcount, hresults.each, hresults.total]
  change (validateTasks tasks >>= fun _ ↦ _) = _
  simp only [Outcome.ok_bind]
  congr 1
  funext _
  cases Outcome.require (receipt.schema = spineSpawnResultSchema)
    (SpawnValidationError.invalidSchema receipt.schema) <;> rfl

/-- Short completed results for a batch of `n` tasks. -/
def shortResults (n : ℕ) : List SpawnResult :=
  (List.range n).map fun ordinal ↦ ⟨ordinal, .completed, "ok", none, none⟩

theorem shortResults_valid {n : ℕ} (hn : n ≤ maxSpawnTasks) : ResultsValid (shortResults n) where
  each := by
    refine (forM_zipIdx_eq_ok (p := fun _ ↦ True) fun i result hget ↦ ?_).mpr fun _ _ ↦ trivial
    have hresult : result = ⟨i, .completed, "ok", none, none⟩ := by
      rw [shortResults, List.getElem?_map, Option.map_eq_some_iff] at hget
      obtain ⟨k, hk, rfl⟩ := hget
      rw [(List.getElem?_eq_some_iff.mp hk).2.symm, List.getElem_range]
    have hmade : WellMade i result := by
      rw [hresult]
      exact ⟨rfl, not_blank_literal rfl (by decide), by simp, by simp, by simp⟩
    refine ⟨fun _ ↦ trivial, fun _ ↦ (validateResult_iff hmade).mpr ?_⟩
    have hok : "ok".utf8ByteSize ≤ maxMemoryBytes := by decide +kernel
    rw [hresult]
    exact ⟨hok, by simp⟩
  total := by
    have hbytes : ∀ m, ((shortResults m).map SpawnResult.bytes).sum = 2 * m := by
      intro m
      have hok : "ok".utf8ByteSize = 2 := by decide +kernel
      simp [shortResults, SpawnResult.bytes, Function.comp_def, hok, Nat.mul_comm]
    rw [validateSpawnAggregate, Outcome.require_eq_ok, sum_resultBytes, hbytes]
    simp only [maxSpawnTasks, maxSpawnBatchBytes] at hn ⊢
    omega

end SpawnReceipt

/-- No receipt of an accepted batch is refused for a field of a task exactly when the summaries
are small with the white space around them. -/
theorem admission_agrees_iff {parse : ToolArguments} {arguments : String} {tasks : List SpawnTask}
    (h : parseTasks parse arguments = .ok tasks) :
    (∀ receipt : SpawnReceipt, SpawnReceipt.ResultsValid receipt.results →
      receipt.results.length = tasks.length →
        ∀ error, receipt.validateFor tasks = .err error → ¬error.OfTask) ↔
      ∀ task ∈ tasks, task.summary.utf8ByteSize ≤ maxSummaryBytes := by
  have htasks := parseTasks_accepted h
  rw [← SpawnReceipt.validateTasks_iff htasks]
  constructor
  · intro hnone
    have hvalid := SpawnReceipt.shortResults_valid htasks.length_le
    have hlength : (SpawnReceipt.shortResults tasks.length).length = tasks.length := by
      simp [SpawnReceipt.shortResults]
    let receipt : SpawnReceipt := ⟨spineSpawnResultSchema, SpawnReceipt.shortResults tasks.length⟩
    have hfor : receipt.validateFor tasks = (SpawnReceipt.validateTasks tasks >>= fun _ ↦ _) :=
      SpawnReceipt.validateFor_eq htasks hvalid hlength
    cases hchecks : SpawnReceipt.validateTasks tasks with
    | ok _ => rfl
    | err error =>
      -- the receipt of short results is refused with the error of a task
      rw [hchecks, Outcome.err_bind] at hfor
      exact absurd (SpawnReceipt.ofTask_of_validateTasks hchecks) (hnone receipt hvalid hlength error hfor)
    | crash => exact absurd hchecks (SpawnReceipt.validateTasks_ne_crash tasks)
  · intro hchecks receipt hresults hlength error herror
    rw [SpawnReceipt.validateFor_eq htasks hresults hlength, hchecks, Outcome.ok_bind,
      Outcome.require_eq_err] at herror
    rw [← herror.2]
    exact id

/-- A pair of plain tasks is never refused later. -/
theorem plain_pair_admitted : (∀ task ∈ pairTasks, task.summary.utf8ByteSize ≤ maxSummaryBytes) ∧
    ∀ receipt : SpawnReceipt, SpawnReceipt.ResultsValid receipt.results →
      receipt.results.length = 2 → ∀ error, receipt.validateFor pairTasks = .err error →
        ¬error.OfTask := by
  have hsummaries : ∀ task ∈ pairTasks, task.summary.utf8ByteSize ≤ maxSummaryBytes := by
    decide +kernel
  exact ⟨hsummaries, (admission_agrees_iff pairTasks_parsed).mpr hsummaries⟩

/-! ## A padded summary -/

section Padded

variable {padded : String}

/-- A batch whose first summary is `padded`. -/
def batchWith (padded : String) : List SpawnTask := [⟨padded, "p"⟩, ⟨"b", "p"⟩]

def batchArguments (padded : String) : ToolArguments :=
  { pairArguments with spawnArgs := fun _ ↦ .ok (batchWith padded) }

theorem batchWith_fields (htrim : trim padded = "a") :
    (batchWith padded).forM validateTaskFields = .ok () := by
  have hpadded : validateTaskFields ⟨padded, "p"⟩ = .ok () := by
    rw [validateTaskFields_eq_ok, Blank, htrim]
    dsimp only
    decide +kernel
  have hplain : validateTaskFields ⟨"b", "p"⟩ = .ok () := by decide +kernel
  rw [Outcome.forM_eq_ok]
  intro task htask
  rcases List.mem_pair.mp htask with rfl | rfl
  · exact hpadded
  · exact hplain

theorem batchWith_inputs (htrim : trim padded = "a") :
    validateCompleteChildInputs (batchWith padded) = .ok () := by
  have hpeers : ∀ identity, peerRoster identity (batchWith padded) = peerRoster identity pairTasks := by
    intro identity
    simp only [peerRoster, batchWith, pairTasks, List.map_cons, List.map_nil, htrim]
    rw [show trim "a" = "a" by decide +kernel]
  refine validateCompleteChildInputs_eq_ok.mpr ?_
  intro task htask
  rcases List.mem_pair.mp htask with rfl | rfl
  · refine validateUserMessage_of_small ?_
    rw [hpeers, htrim]
    dsimp only
    decide +kernel
  · refine validateUserMessage_of_small ?_
    rw [hpeers]
    decide +kernel

/-- The tool looks at the summary only without the white space around it. -/
theorem batchWith_parsed (htrim : trim padded = "a") (hbytes : padded.utf8ByteSize ≤ 2 * maxSummaryBytes) :
    parseTasks (batchArguments padded) "" = .ok (batchWith padded) := by
  have hsize : taskBytes (batchWith padded) ≤ maxSpawnBatchBytes := by
    have hp : "p".utf8ByteSize = 1 := by decide +kernel
    have hb : "b".utf8ByteSize = 1 := by decide +kernel
    simp only [taskBytes, batchWith, List.map_cons, List.map_nil, List.sum_cons, List.sum_nil, hp, hb,
      maxSummaryBytes, maxSpawnBatchBytes] at hbytes ⊢
    omega
  refine parseTasks_of_valid ?_ ?_ (batchWith_inputs htrim)
  · have hcount : 2 ≤ (batchWith padded).length ∧ (batchWith padded).length ≤ maxSpawnTasks := by
      simp [batchWith, maxSpawnTasks]
    simp only [validateTool, validateToolWithSpawnLimit, parseControl, batchArguments,
      Outcome.mapErr_ok, Outcome.ok_bind, batchWith_fields htrim]
    simp [Outcome.bind_eq_ok, hsize, hcount]
  · simp only [batchWith, duplicateSummary?, htrim]
    decide +kernel

/-- The receipt looks at the summary as it is. -/
theorem batchWith_refused (htrim : trim padded = "a") (hlong : maxSummaryBytes < padded.utf8ByteSize) :
    SpawnReceipt.validateTasks (batchWith padded) =
      .err (.fieldTooLarge 0 "summary" maxSummaryBytes) := by
  have hvisible : ¬Blank padded := by
    rw [Blank, htrim]
    decide
  have hprompt : ¬Blank "p" := not_blank_literal rfl (by decide)
  have hfirst : SpawnReceipt.validateTask 0 ⟨padded, "p"⟩ =
      .err (.fieldTooLarge 0 "summary" maxSummaryBytes) := by
    simp [SpawnReceipt.validateTask, Outcome.require, validateSpawnField, hvisible, hprompt,
      Nat.not_le_of_lt hlong]
  have hcons : SpawnReceipt.validateTasks (batchWith padded) =
      (SpawnReceipt.validateTask 0 ⟨padded, "p"⟩ >>= fun _ ↦
        List.forM [((⟨"b", "p"⟩ : SpawnTask), 1)] fun item ↦
          SpawnReceipt.validateTask item.2 item.1) := rfl
  rw [hcons, hfirst, Outcome.err_bind]

end Padded

/-- A summary of one letter in front of as much white space as a whole summary may be long. -/
def paddedSummary : String := .ofList ('a' :: List.replicate maxSummaryBytes ' ')

theorem trim_paddedSummary : trim paddedSummary = "a" := by
  have hletter : whiteSpace 'a' = false := by decide
  have hspace : whiteSpace ' ' = true := by decide
  rw [trim, paddedSummary, String.toList_ofList, List.dropWhile_cons_of_neg (by simp [hletter]),
    List.reverse_cons, List.reverse_replicate, List.dropWhile_append]
  simp [hspace, hletter]

theorem paddedSummary_bytes : paddedSummary.utf8ByteSize = maxSummaryBytes + 1 := by
  have hletter : Char.utf8Size 'a' = 1 := by decide
  have hspace : Char.utf8Size ' ' = 1 := by decide
  rw [paddedSummary, String.utf8ByteSize_ofList, String.utf8Len_cons, utf8Len_replicate, hletter,
    hspace, Nat.mul_one]

/-- The batch is accepted and its children run, and then their valid results are refused for
the summary of the first task. -/
theorem padded_summary_refused :
    parseTasks (batchArguments paddedSummary) "" = .ok (batchWith paddedSummary) ∧
      SpawnReceipt.ResultsValid (SpawnReceipt.shortResults 2) ∧
      SpawnReceipt.validateFor ⟨spineSpawnResultSchema, SpawnReceipt.shortResults 2⟩
        (batchWith paddedSummary) = .err (.fieldTooLarge 0 "summary" maxSummaryBytes) := by
  have hbytes : paddedSummary.utf8ByteSize ≤ 2 * maxSummaryBytes := by
    rw [paddedSummary_bytes]
    decide
  have hparsed := batchWith_parsed trim_paddedSummary hbytes
  have hvalid : SpawnReceipt.ResultsValid (SpawnReceipt.shortResults 2) :=
    SpawnReceipt.shortResults_valid (by decide)
  have hrefused := batchWith_refused trim_paddedSummary
    (Nat.lt_of_lt_of_eq (Nat.lt_succ_self _) paddedSummary_bytes.symm)
  refine ⟨hparsed, hvalid, ?_⟩
  rw [SpawnReceipt.validateFor_eq (parseTasks_accepted hparsed) hvalid rfl, hrefused,
    Outcome.err_bind]

end SpineCodex
