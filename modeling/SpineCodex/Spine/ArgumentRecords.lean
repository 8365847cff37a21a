import SpineCodex.Lib.Traversal
import SpineCodex.Spine.Tools

/-!
# Argument records read from JSON

The derived deserializers of the argument records.  Every field is a text and may have an
alias, unknown and repeated fields are refused, and an array is read by position.  The syntax
of JSON stays a parameter: a reader gives the tree of a text, with the fields of an object as
they stand there, or none where the text is malformed.
-/

namespace SpineCodex

/-- Only a JSON string is read as a text. -/
def Json.text? : Json → Option String
  | .string value => some value
  | _ => none

theorem Json.text?_eq_some {value : Json} {text : String} :
    value.text? = some text ↔ value = .string text := by
  cases value <;> simp [Json.text?]

/-! ## Derived records -/

namespace ArgumentRecord

/-- `OpenArgs`: the names of each field, the alias included. -/
def openArgs : List (List String) := [["goal", "summary"]]

/-- `CloseArgs`. -/
def closeArgs : List (List String) := [["memory"]]

/-- `NextArgs`. -/
def nextArgs : List (List String) := [["goal", "summary"], ["memory"]]

/-- The field that a key of the object stands for. -/
def fieldIndex (fields : List (List String)) (key : String) : Option ℕ :=
  fields.findIdx? (·.contains key)

/-- `visit_map` of the derived visitor, with the fields read so far. -/
def visitMap (fields : List (List String)) :
    List (Option String) → List (String × Json) → Option (List (Option String))
  | slots, [] => some slots
  | slots, (key, value) :: rest => do
      let i ← fieldIndex fields key
      let text ← value.text?
      -- a field that already has a value is a duplicate
      if slots[i]? = some none then visitMap fields (slots.set i (some text)) rest else none

/-- `visit_seq`: as many elements as fields. -/
def visitSeq (fields : List (List String)) (items : List Json) : Option (List String) :=
  if items.length = fields.length then items.mapM Json.text? else none

/-- `deserialize_struct` of a record with the given fields. -/
def deserialize (fields : List (List String)) : Json → Option (List String)
  | .object entries => do
      let slots ← visitMap fields (fields.map fun _ ↦ none) entries
      slots.mapM id
  | .array items => visitSeq fields items
  | _ => none

variable {fields : List (List String)} {entries rest : List (String × Json)} {key : String}
  {value : Json} {texts : List String}

theorem visitMap_cons_eq_some {slots filled : List (Option String)} :
    visitMap fields slots ((key, value) :: rest) = some filled ↔
      ∃ i text, fieldIndex fields key = some i ∧ value = .string text ∧ slots[i]? = some none ∧
        visitMap fields (slots.set i (some text)) rest = some filled := by
  simp only [visitMap, Option.bind_eq_bind, Option.bind_eq_some_iff, Option.ite_none_right_eq_some,
    Json.text?_eq_some]
  constructor
  · rintro ⟨i, hi, text, hvalue, hslot, hrest⟩
    exact ⟨i, text, hi, hvalue, hslot, hrest⟩
  · rintro ⟨i, text, hi, hvalue, hslot, hrest⟩
    exact ⟨i, hi, text, hvalue, hslot, hrest⟩

/-- Every entry read fills one more slot. -/
theorem visitMap_count {slots filled : List (Option String)}
    (h : visitMap fields slots entries = some filled) :
    filled.length = slots.length ∧
      filled.countP Option.isSome = slots.countP Option.isSome + entries.length := by
  induction entries generalizing slots with
  | nil =>
      rw [visitMap, Option.some.injEq] at h
      simp [h]
  | cons entry rest ih =>
      obtain ⟨i, text, -, -, hslot, hrest⟩ := visitMap_cons_eq_some.1 h
      obtain ⟨hlt, hnone⟩ := List.getElem?_eq_some_iff.1 hslot
      have hcount : (slots.set i (some text)).countP Option.isSome =
          slots.countP Option.isSome + 1 := by
        rw [List.countP_set hlt, hnone]
        simp
      have := ih hrest
      rw [List.length_set, hcount] at this
      rw [List.length_cons]
      omega

theorem deserialize_object : deserialize fields (.object entries) = some texts ↔
    ∃ slots, visitMap fields (fields.map fun _ ↦ none) entries = some slots ∧
      slots.mapM id = some texts := by
  rw [deserialize, Option.bind_eq_bind, Option.bind_eq_some_iff]

/-- A record is read from as many entries as it has fields. -/
theorem length_of_deserialize (h : deserialize fields (.object entries) = some texts) :
    entries.length = fields.length := by
  obtain ⟨slots, hvisit, hslots⟩ := deserialize_object.1 h
  have hcount := visitMap_count hvisit
  have hfull : slots.countP Option.isSome = slots.length := by
    rw [List.countP_eq_length]
    intro slot hslot
    obtain ⟨text, -, htext⟩ := option_mapM_mem hslots slot hslot
    exact Option.isSome_iff_exists.2 ⟨text, htext⟩
  have hempty : (fields.map fun _ ↦ (none : Option String)).countP Option.isSome = 0 := by
    simp [List.countP_eq_zero]
  rw [hempty, List.length_map] at hcount
  omega

theorem mapM_text?_eq_some {items : List Json} :
    items.mapM Json.text? = some texts ↔ items = texts.map .string := by
  induction items generalizing texts with
  | nil =>
      rw [List.mapM_nil, Option.pure_def, Option.some.injEq]
      cases texts <;> simp
  | cons item items ih =>
      rw [option_mapM_cons_eq_some]
      simp only [Json.text?_eq_some, ih]
      constructor
      · rintro ⟨text, rest, rfl, rfl, rfl⟩
        rfl
      · intro h
        cases texts with
        | nil => cases h
        | cons text rest =>
          rw [List.map_cons, List.cons.injEq] at h
          exact ⟨text, rest, h.1, h.2, rfl⟩

theorem deserialize_array {items : List Json} :
    deserialize fields (.array items) = some texts ↔
      texts.length = fields.length ∧ items = texts.map .string := by
  rw [deserialize, visitSeq, Option.ite_none_right_eq_some, mapM_text?_eq_some]
  constructor
  · rintro ⟨hlength, rfl⟩
    exact ⟨by simpa using hlength, rfl⟩
  · rintro ⟨hlength, rfl⟩
    exact ⟨by simpa using hlength, rfl⟩

theorem length_texts {json : Json} (h : deserialize fields json = some texts) :
    texts.length = fields.length := by
  cases json with
  | object entries =>
      obtain ⟨slots, hvisit, hslots⟩ := deserialize_object.1 h
      rw [option_mapM_length hslots, (visitMap_count hvisit).1, List.length_map]
  | array items => exact (deserialize_array.1 h).1
  | _ => cases h

/-! The two records, read from an object. -/

theorem fieldIndex_openArgs {i : ℕ} :
    fieldIndex openArgs key = some i ↔ (key = "goal" ∨ key = "summary") ∧ 0 = i := by
  simp [fieldIndex, openArgs, List.findIdx?_cons]

theorem fieldIndex_nextArgs {i : ℕ} :
    fieldIndex nextArgs key = some i ↔
      (key = "goal" ∨ key = "summary") ∧ 0 = i ∨ key = "memory" ∧ 1 = i := by
  simp only [fieldIndex, nextArgs, List.findIdx?_cons, List.findIdx?_nil]
  by_cases hgoal : key = "goal" ∨ key = "summary"
  · have hmemory : key ≠ "memory" := by
      rcases hgoal with rfl | rfl <;> decide
    simp [hgoal, hmemory]
  · simp [hgoal]

theorem openArgs_object : deserialize openArgs (.object entries) = some texts ↔
    ∃ key goal, (key = "goal" ∨ key = "summary") ∧ entries = [(key, .string goal)] ∧
      texts = [goal] := by
  constructor
  · intro h
    obtain ⟨⟨key, value⟩, rfl⟩ := List.length_eq_one_iff.1 (length_of_deserialize h)
    obtain ⟨slots, hvisit, hslots⟩ := deserialize_object.1 h
    obtain ⟨i, goal, hi, rfl, -, hrest⟩ := visitMap_cons_eq_some.1 hvisit
    obtain ⟨hkey, rfl⟩ := fieldIndex_openArgs.1 hi
    cases hrest
    cases hslots
    exact ⟨key, goal, hkey, rfl, rfl⟩
  · rintro ⟨key, goal, rfl | rfl, rfl, rfl⟩ <;> rfl

theorem nextArgs_object : deserialize nextArgs (.object entries) = some texts ↔
    ∃ key goal memory, (key = "goal" ∨ key = "summary") ∧
      (entries = [(key, .string goal), ("memory", .string memory)] ∨
        entries = [("memory", .string memory), (key, .string goal)]) ∧
      texts = [goal, memory] := by
  constructor
  · intro h
    obtain ⟨⟨key, value⟩, ⟨key', value'⟩, rfl⟩ := List.length_eq_two.1 (length_of_deserialize h)
    obtain ⟨slots, hvisit, hslots⟩ := deserialize_object.1 h
    obtain ⟨i, first, hi, rfl, -, hrest⟩ := visitMap_cons_eq_some.1 hvisit
    obtain ⟨j, second, hj, rfl, hslot, hrest⟩ := visitMap_cons_eq_some.1 hrest
    cases hrest
    obtain ⟨hkey, rfl⟩ | ⟨rfl, rfl⟩ := fieldIndex_nextArgs.1 hi <;>
      obtain ⟨hkey', rfl⟩ | ⟨rfl, rfl⟩ := fieldIndex_nextArgs.1 hj
    · cases hslot
    · cases hslots
      exact ⟨key, first, second, hkey, .inl rfl, rfl⟩
    · cases hslots
      exact ⟨key', second, first, hkey', .inr rfl, rfl⟩
    · cases hslot
  · rintro ⟨key, goal, memory, rfl | rfl, rfl | rfl, rfl⟩ <;> rfl

end ArgumentRecord

/-! ## Texts within the limits of the tool -/

/-- The largest text, in bytes, that the tool takes under a name. -/
def textLimit (name : String) : ℕ := if name = "memory" then maxMemoryBytes else maxSummaryBytes

/-- A text that `bounded_non_empty` passes. -/
def TextFits (name text : String) : Prop :=
  ¬Blank text ∧ (trim text).utf8ByteSize ≤ textLimit name

/-- The calls whose arguments are a goal, with or without a memory. -/
inductive ControlCall where
  | openNode
  | nextNode
  deriving Repr, DecidableEq

namespace ControlCall

def tool : ControlCall → SpineTool
  | openNode => .openNode
  | nextNode => .nextNode

def record : ControlCall → List (List String)
  | openNode => ArgumentRecord.openArgs
  | nextNode => ArgumentRecord.nextArgs

/-- The names of the record's fields. -/
def names : ControlCall → List String
  | openNode => ["goal"]
  | nextNode => ["goal", "memory"]

/-- The names with the goal under its alias. -/
def aliases : ControlCall → List String
  | openNode => ["summary"]
  | nextNode => ["summary", "memory"]

/-- The tree is a record whose texts all fit. -/
def Accepts (call : ControlCall) (json : Json) : Prop :=
  ∃ texts, ArgumentRecord.deserialize call.record json = some texts ∧
    List.Forall₂ TextFits call.names texts

end ControlCall

/-- Reading of JSON texts: the tree of a text, the text of a deserializer's error and the
deserializer of `SpawnArgs`. -/
structure JsonReader where
  value : String → Option Json
  error : String → String
  spawnArgs : String → Outcome String (List SpawnTask)

namespace JsonReader

/-- `from_str` at a record, with its texts then put in place by `project`. -/
def fromStr {α : Type} (reader : JsonReader) (fields : List (List String))
    (project : List String → Option α) (text : String) : Outcome String α :=
  .okOr (reader.error text)
    ((reader.value text >>= ArgumentRecord.deserialize fields) >>= project)

def toolArguments (reader : JsonReader) : ToolArguments where
  openArgs := reader.fromStr ArgumentRecord.openArgs fun texts ↦ texts[0]?
  closeArgs := reader.fromStr ArgumentRecord.closeArgs fun texts ↦ texts[0]?
  nextArgs := reader.fromStr ArgumentRecord.nextArgs fun texts ↦
    texts[0]? >>= fun goal ↦ texts[1]?.map fun memory ↦ (goal, memory)
  spawnArgs := reader.spawnArgs

theorem fromStr_eq_ok {α : Type} {reader : JsonReader} {fields : List (List String)}
    {project : List String → Option α} {text : String} {result : α} :
    reader.fromStr fields project text = .ok result ↔
      ∃ json, reader.value text = some json ∧
        ∃ texts, ArgumentRecord.deserialize fields json = some texts ∧
          project texts = some result := by
  unfold fromStr
  rw [Outcome.okOr_eq_ok]
  simp only [Option.bind_eq_bind, Option.bind_assoc, Option.bind_eq_some_iff]

end JsonReader

namespace ControlCall

/-- Every entry of an object is a text that fits its key. -/
def EntriesFit (entries : List (String × Json)) : Prop :=
  ∀ entry ∈ entries, ∃ text, entry.2 = .string text ∧ TextFits entry.1 text

/-- Both names of the goal have the same limit. -/
theorem textFits_goal {key text : String} (hkey : key = "goal" ∨ key = "summary") :
    TextFits key text ↔ TextFits "goal" text := by
  rcases hkey with rfl | rfl
  · rfl
  · rfl

theorem eq_of_keys_perm_pair {entries : List (String × Json)} {first second : String}
    (h : (entries.map Prod.fst).Perm [first, second]) :
    ∃ value value', entries = [(first, value), (second, value')] ∨
      entries = [(second, value'), (first, value)] := by
  rw [List.perm_pair] at h
  have hlength : entries.length = 2 := by
    rcases h with h | h <;> simpa using congrArg List.length h
  obtain ⟨⟨key, value⟩, ⟨key', value'⟩, rfl⟩ := List.length_eq_two.1 hlength
  simp only [List.map_cons, List.map_nil, List.cons.injEq, and_true] at h
  obtain ⟨rfl, rfl⟩ | ⟨rfl, rfl⟩ := h
  · exact ⟨value, value', .inl rfl⟩
  · exact ⟨value', value, .inr rfl⟩

theorem keys_perm_iff {call : ControlCall} {keys : List String} :
    keys.Perm call.names ∨ keys.Perm call.aliases ↔
      ∃ key, (key = "goal" ∨ key = "summary") ∧ keys.Perm (key :: call.names.tail) := by
  cases call <;> simp [names, aliases]

/-- An object is accepted if it has the record's fields, with the goal under one of its names,
and every text fits. -/
theorem accepts_object {call : ControlCall} {entries : List (String × Json)} :
    call.Accepts (.object entries) ↔
      ((entries.map Prod.fst).Perm call.names ∨ (entries.map Prod.fst).Perm call.aliases) ∧
        EntriesFit entries := by
  rw [keys_perm_iff]
  constructor
  · rintro ⟨texts, htexts, hfits⟩
    cases call with
    | openNode =>
      obtain ⟨key, goal, hkey, rfl, rfl⟩ := ArgumentRecord.openArgs_object.1 htexts
      refine ⟨⟨key, hkey, .refl _⟩, ?_⟩
      simpa [EntriesFit, names, textFits_goal hkey] using hfits
    | nextNode =>
      obtain ⟨key, goal, memory, hkey, hentries, rfl⟩ := ArgumentRecord.nextArgs_object.1 htexts
      obtain ⟨hgoal, hmemory⟩ : TextFits "goal" goal ∧ TextFits "memory" memory := by
        simpa [names] using hfits
      rcases hentries with rfl | rfl
      · refine ⟨⟨key, hkey, .refl _⟩, ?_⟩
        simp [EntriesFit, textFits_goal hkey, hgoal, hmemory]
      · refine ⟨⟨key, hkey, .swap _ _ _⟩, ?_⟩
        simp [EntriesFit, textFits_goal hkey, hgoal, hmemory]
  · rintro ⟨⟨key, hkey, hkeys⟩, hfits⟩
    cases call with
    | openNode =>
      obtain ⟨⟨_, value⟩, rfl, rfl⟩ := List.map_eq_singleton_iff.1 (List.perm_singleton.1 hkeys)
      obtain ⟨goal, rfl, hgoal⟩ := hfits _ List.mem_cons_self
      refine ⟨[goal], ArgumentRecord.openArgs_object.2 ⟨_, goal, hkey, rfl, rfl⟩, ?_⟩
      exact .cons ((textFits_goal hkey).1 hgoal) .nil
    | nextNode =>
      obtain ⟨value, value', hentries⟩ := eq_of_keys_perm_pair hkeys
      obtain ⟨goal, hvalue, hgoal⟩ := hfits (key, value) (by rcases hentries with rfl | rfl <;> simp)
      obtain ⟨memory, hvalue', hmemory⟩ :=
        hfits ("memory", value') (by rcases hentries with rfl | rfl <;> simp)
      cases hvalue
      cases hvalue'
      refine ⟨[goal, memory],
        ArgumentRecord.nextArgs_object.2 ⟨key, goal, memory, hkey, hentries, rfl⟩, ?_⟩
      exact .cons ((textFits_goal hkey).1 hgoal) (.cons hmemory .nil)

theorem accepts_array {call : ControlCall} {items : List Json} :
    call.Accepts (.array items) ↔
      ∃ texts, List.Forall₂ TextFits call.names texts ∧ items = texts.map .string := by
  have hlength : call.names.length = call.record.length := by
    cases call <;> rfl
  unfold Accepts
  simp only [ArgumentRecord.deserialize_array]
  constructor
  · rintro ⟨texts, ⟨-, rfl⟩, hfits⟩
    exact ⟨texts, hfits, rfl⟩
  · rintro ⟨texts, hfits, rfl⟩
    exact ⟨texts, ⟨by rw [← hfits.length_eq, hlength], rfl⟩, hfits⟩

/-- The tool accepts a text if it is read as a record whose texts fit. -/
theorem validateTool_eq_ok {reader : JsonReader} {call : ControlCall} {text : String} :
    (∃ validation, validateTool reader.toolArguments call.tool text = .ok validation) ↔
      ∃ json, reader.value text = some json ∧ call.Accepts json := by
  cases call with
  | openNode =>
    simp only [validateTool, validateToolWithSpawnLimit, parseControl, Accepts, tool, names, record,
      Outcome.bind_eq_ok, Outcome.mapErr_eq_ok, boundedNonEmpty_eq_ok,
      JsonReader.toolArguments, JsonReader.fromStr_eq_ok]
    constructor
    · rintro ⟨validation, goal, ⟨json, hjson, texts, htexts, hgoal⟩, summary, ⟨hblank, hsize, -⟩, -⟩
      obtain ⟨first, rfl⟩ := List.length_eq_one_iff.1 (ArgumentRecord.length_texts htexts)
      cases hgoal
      exact ⟨json, hjson, [goal], htexts, .cons ⟨hblank, hsize⟩ .nil⟩
    · rintro ⟨json, hjson, texts, htexts, hfits⟩
      cases hfits with
      | @cons _ goal _ _ hgoal hrest =>
        cases hrest
        exact ⟨_, goal, ⟨json, hjson, [goal], htexts, rfl⟩, trim goal, ⟨hgoal.1, hgoal.2, rfl⟩, rfl⟩
  | nextNode =>
    simp only [validateTool, validateToolWithSpawnLimit, parseControl, Accepts, tool, names, record,
      Outcome.bind_eq_ok, Outcome.mapErr_eq_ok, boundedNonEmpty_eq_ok,
      JsonReader.toolArguments, JsonReader.fromStr_eq_ok]
    constructor
    · rintro ⟨validation, ⟨goal, memory⟩, ⟨json, hjson, texts, htexts, hproject⟩, _,
        ⟨hgoal, hgoalSize, -⟩, _, ⟨hmemory, hmemorySize, -⟩, -⟩
      obtain ⟨first, second, rfl⟩ := List.length_eq_two.1 (ArgumentRecord.length_texts htexts)
      cases hproject
      exact ⟨json, hjson, [goal, memory], htexts,
        .cons ⟨hgoal, hgoalSize⟩ (.cons ⟨hmemory, hmemorySize⟩ .nil)⟩
    · rintro ⟨json, hjson, texts, htexts, hfits⟩
      cases hfits with
      | @cons _ goal _ _ hgoal hrest =>
        cases hrest with
        | @cons _ memory _ _ hmemory hrest =>
          cases hrest
          exact ⟨_, (goal, memory), ⟨json, hjson, [goal, memory], htexts, rfl⟩, trim goal,
            ⟨hgoal.1, hgoal.2, rfl⟩, trim memory, ⟨hmemory.1, hmemory.2, rfl⟩, rfl⟩

end ControlCall

end SpineCodex
