import SpineCodex.Spine.Facts

/-!
# Validation of tool arguments

The arguments of a tool call are JSON text.  The deserializer is a parameter: it gives the
fields of the argument record or the text of its error.
-/

namespace SpineCodex

inductive SpineTool where
  | openNode
  | closeNode
  | nextNode
  | spawn
  deriving Repr, DecidableEq

inductive ValidatedTransition where
  | openNode (summary : String)
  | closeNode (memory : String)
  | nextNode (summary memory : String)
  | spawn (tasks : List SpawnTask)
  deriving Repr, DecidableEq

inductive ToolValidation where
  | ordinary
  | transition (transition : ValidatedTransition)
  deriving Repr, DecidableEq

inductive ToolValidationError where
  | invalidJson (error : String)
  | unknownTool (name : String)
  | emptyField (field : String)
  | fieldTooLarge (field : String) (maxBytes : ℕ)
  | invalidSpawn (error : String)
  deriving Repr, DecidableEq

/-- `fmt` of `ToolValidationError`. -/
def ToolValidationError.display : ToolValidationError → String
  | .invalidJson error => "invalid Spine tool arguments: " ++ error
  | .unknownTool name => "unknown Spine tool " ++ name
  | .emptyField name => "Spine tool field " ++ name ++ " is empty"
  | .fieldTooLarge field maxBytes =>
      "Spine tool field " ++ field ++ " exceeds " ++ toString maxBytes ++ " bytes"
  | .invalidSpawn error => "invalid spine.spawn arguments: " ++ error

/-- The deserializers of `OpenArgs`, `CloseArgs`, `NextArgs` and `SpawnArgs`. -/
structure ToolArguments where
  openArgs : String → Outcome String String
  closeArgs : String → Outcome String String
  nextArgs : String → Outcome String (String × String)
  spawnArgs : String → Outcome String (List SpawnTask)

/-- `parse_control`. -/
def parseControl {α : Type} (parse : String → Outcome String α) (arguments : String) :
    Outcome ToolValidationError α :=
  (parse arguments).mapErr .invalidJson

/-- `bounded_non_empty`. -/
def boundedNonEmpty (value field : String) (maxBytes : ℕ) : Outcome ToolValidationError String := do
  .require (trim value ≠ "") (.emptyField field)
  .require ((trim value).utf8ByteSize ≤ maxBytes) (.fieldTooLarge field maxBytes)
  .ok (trim value)

/-- The bytes of the summaries and prompts of a batch. -/
def taskBytes (tasks : List SpawnTask) : ℕ :=
  (tasks.map fun task ↦ task.summary.utf8ByteSize + task.prompt.utf8ByteSize).sum

/-- The checks of the fields of one task; the trimmed values are not used. -/
def validateTaskFields (task : SpawnTask) : Outcome ToolValidationError Unit := do
  let _ ← boundedNonEmpty task.summary "summary" maxSummaryBytes
  let _ ← boundedNonEmpty task.prompt "prompt" maxSpawnPromptBytes
  .ok ()

/-- `validate_tool_with_spawn_limit`. -/
def validateToolWithSpawnLimit (parse : ToolArguments) (tool : SpineTool) (arguments : String)
    (spawnTaskLimit : ℕ) : Outcome ToolValidationError ToolValidation :=
  match tool with
  | .openNode => do
      let goal ← parseControl parse.openArgs arguments
      let summary ← boundedNonEmpty goal "goal" maxSummaryBytes
      .ok (.transition (.openNode summary))
  | .closeNode => do
      let memory ← parseControl parse.closeArgs arguments
      let memory ← boundedNonEmpty memory "memory" maxMemoryBytes
      .ok (.transition (.closeNode memory))
  | .nextNode => do
      let (goal, memory) ← parseControl parse.nextArgs arguments
      let summary ← boundedNonEmpty goal "goal" maxSummaryBytes
      let memory ← boundedNonEmpty memory "memory" maxMemoryBytes
      .ok (.transition (.nextNode summary memory))
  | .spawn => do
      let tasks ← parseControl parse.spawnArgs arguments
      .require (2 ≤ tasks.length) (.invalidSpawn "spine.spawn requires at least two tasks")
      .require (tasks.length ≤ spawnTaskLimit)
        (.invalidSpawn ("spine.spawn accepts at most " ++ toString spawnTaskLimit ++ " tasks"))
      .require (taskBytes tasks ≤ maxSpawnBatchBytes)
        (.invalidSpawn ("spine.spawn task payload exceeds " ++ toString maxSpawnBatchBytes ++ " bytes"))
      tasks.forM validateTaskFields
      .ok (.transition (.spawn tasks))

def validateTool (parse : ToolArguments) (tool : SpineTool) (arguments : String) :
    Outcome ToolValidationError ToolValidation :=
  validateToolWithSpawnLimit parse tool arguments maxSpawnTasks

theorem boundedNonEmpty_eq_ok {value field trimmed : String} {maxBytes : ℕ} :
    boundedNonEmpty value field maxBytes = .ok trimmed ↔
      ¬Blank value ∧ (trim value).utf8ByteSize ≤ maxBytes ∧ trimmed = trim value := by
  unfold boundedNonEmpty
  simp only [Outcome.bind_eq_ok, Outcome.require_eq_ok, Outcome.ok.injEq]
  constructor
  · rintro ⟨_, hblank, _, hsize, rfl⟩
    exact ⟨hblank, hsize, rfl⟩
  · rintro ⟨hblank, hsize, rfl⟩
    exact ⟨(), hblank, (), hsize, rfl⟩

theorem validateTaskFields_eq_ok {task : SpawnTask} :
    validateTaskFields task = .ok () ↔
      (¬Blank task.summary ∧ (trim task.summary).utf8ByteSize ≤ maxSummaryBytes) ∧
        ¬Blank task.prompt ∧ (trim task.prompt).utf8ByteSize ≤ maxSpawnPromptBytes := by
  unfold validateTaskFields
  simp only [Outcome.bind_eq_ok, boundedNonEmpty_eq_ok]
  constructor
  · rintro ⟨_, ⟨hsummary, hbytes, -⟩, _, ⟨hprompt, hbytes', -⟩, -⟩
    exact ⟨⟨hsummary, hbytes⟩, hprompt, hbytes'⟩
  · rintro ⟨⟨hsummary, hbytes⟩, hprompt, hbytes'⟩
    exact ⟨_, ⟨hsummary, hbytes, rfl⟩, _, ⟨hprompt, hbytes', rfl⟩, trivial⟩

end SpineCodex
