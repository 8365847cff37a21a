import SpineCodex.Patch.FileUpdate

/-!
# The lines of a chunk

A chunk keeps its context, removed and added lines as two lists and the indices that the
context lines have in them.  Here the lines are read as the patch spells them, and the edits
that they name are compared with the replacements that the chunk is split into.
-/

namespace SpineCodex

inductive PatchLine where
  | context (text : String)
  | removed (text : String)
  | added (text : String)
  deriving Repr, DecidableEq

namespace PatchLine

def old? : PatchLine → Option String
  | .context text | .removed text => some text
  | .added _ => none

def new? : PatchLine → Option String
  | .context text | .added text => some text
  | .removed _ => none

end PatchLine

def oldTexts (lines : List PatchLine) : List String := lines.filterMap PatchLine.old?

def newTexts (lines : List PatchLine) : List String := lines.filterMap PatchLine.new?

/-- The indices of the context lines, after `o` old and `n` new lines. -/
def contextIndices (o n : ℕ) : List PatchLine → List (ℕ × ℕ)
  | [] => []
  | .context _ :: rest => (o, n) :: contextIndices (o + 1) (n + 1) rest
  | .removed _ :: rest => contextIndices (o + 1) n rest
  | .added _ :: rest => contextIndices o (n + 1) rest

/-- The chunk holds these lines. -/
structure UpdateFileChunk.Spells (chunk : UpdateFileChunk) (lines : List PatchLine) : Prop where
  old : chunk.oldLines = oldTexts lines
  new : chunk.newLines = newTexts lines
  context : chunk.contextLineIndices = contextIndices 0 0 lines

/-- What the lines of a patch ask for from line `cursor` of the file on: context lines are
kept, removed lines are deleted, and added lines follow the last line that was kept. -/
def namedEdits (anchor cursor : ℕ) : List PatchLine → Edits String
  | [] => ⟨[], []⟩
  | .context _ :: rest => namedEdits (cursor + 1) (cursor + 1) rest
  | .removed _ :: rest => ⟨[cursor], []⟩ ++ namedEdits anchor (cursor + 1) rest
  | .added text :: rest => ⟨[], [(anchor, text)]⟩ ++ namedEdits anchor cursor rest

section Simp

variable (text : String) (rest : List PatchLine)

@[simp] theorem oldTexts_context : oldTexts (.context text :: rest) = text :: oldTexts rest := rfl

@[simp] theorem oldTexts_removed : oldTexts (.removed text :: rest) = text :: oldTexts rest := rfl

@[simp] theorem oldTexts_cons_added : oldTexts (.added text :: rest) = oldTexts rest := rfl

@[simp] theorem newTexts_context : newTexts (.context text :: rest) = text :: newTexts rest := rfl

@[simp] theorem newTexts_removed : newTexts (.removed text :: rest) = newTexts rest := rfl

@[simp] theorem newTexts_cons_added : newTexts (.added text :: rest) = text :: newTexts rest := rfl

@[simp] theorem oldTexts_nil : oldTexts [] = [] := rfl

@[simp] theorem newTexts_nil : newTexts [] = [] := rfl

end Simp

section Append

variable (first second : List PatchLine)

theorem oldTexts_append : oldTexts (first ++ second) = oldTexts first ++ oldTexts second :=
  List.filterMap_append

theorem newTexts_append : newTexts (first ++ second) = newTexts first ++ newTexts second :=
  List.filterMap_append

theorem contextIndices_append (o n : ℕ) : contextIndices o n (first ++ second) =
    contextIndices o n first ++
      contextIndices (o + (oldTexts first).length) (n + (newTexts first).length) second := by
  induction first generalizing o n with
  | nil => rfl
  | cons line rest ih => cases line <;> simp [contextIndices, ih, Nat.add_assoc, Nat.add_comm 1]

theorem oldTexts_added (texts : List String) : oldTexts (texts.map PatchLine.added) = [] := by
  simp [oldTexts, PatchLine.old?]

theorem newTexts_added (texts : List String) : newTexts (texts.map PatchLine.added) = texts := by
  simp [newTexts, List.filterMap_map, Function.comp_def, PatchLine.new?]

theorem contextIndices_added (o n : ℕ) (texts : List String) :
    contextIndices o n (texts.map PatchLine.added) = [] := by
  induction texts generalizing n with
  | nil => rfl
  | cons text rest ih => exact ih (n + 1)

end Append

namespace UpdateFileChunk.Spells

variable {chunk : UpdateFileChunk} {lines : List PatchLine}

theorem pushContextLine (h : chunk.Spells lines) (text : String) :
    (chunk.pushContextLine text).Spells (lines ++ [PatchLine.context text]) where
  old := by simp [UpdateFileChunk.pushContextLine, oldTexts_append, h.old]
  new := by simp [UpdateFileChunk.pushContextLine, newTexts_append, h.new]
  context := by
    simp [UpdateFileChunk.pushContextLine, contextIndices_append, h.context, h.old, h.new,
      contextIndices]

theorem pushAdded (h : chunk.Spells lines) (text : String) :
    { chunk with newLines := chunk.newLines ++ [text] }.Spells (lines ++ [PatchLine.added text]) where
  old := by simp [oldTexts_append, h.old]
  new := by simp [newTexts_append, h.new]
  context := by simp [contextIndices_append, h.context, contextIndices]

theorem pushRemoved (h : chunk.Spells lines) (text : String) :
    { chunk with oldLines := chunk.oldLines ++ [text] }.Spells (lines ++ [PatchLine.removed text]) where
  old := by simp [oldTexts_append, h.old]
  new := by simp [newTexts_append, h.new]
  context := by simp [contextIndices_append, h.context, contextIndices]

end UpdateFileChunk.Spells

/-! ## Parsed chunks -/

/-- Each chunk holds the lines of a patch. -/
def Hunk.Spelled : Hunk → Prop
  | .updateFile _ _ chunks => ∀ chunk ∈ chunks, ∃ lines, chunk.Spells lines
  | _ => True

namespace StreamingPatchParser

def Spelled (parser : StreamingPatchParser) : Prop := ∀ hunk ∈ parser.hunks, hunk.Spelled

theorem spells_empty (changeContext : Option String) :
    UpdateFileChunk.Spells { changeContext := changeContext } [] :=
  ⟨rfl, rfl, rfl⟩

theorem extendChunk_spelled {chunks : List UpdateFileChunk}
    (h : ∀ chunk ∈ chunks, ∃ lines, chunk.Spells lines)
    {extend : UpdateFileChunk → UpdateFileChunk}
    (hextend : ∀ chunk lines, chunk.Spells lines → ∃ lines, (extend chunk).Spells lines) :
    ∀ chunk ∈ extendChunk chunks extend, ∃ lines, chunk.Spells lines := by
  intro chunk hchunk
  unfold extendChunk at hchunk
  split at hchunk
  · obtain rfl := List.mem_singleton.mp hchunk
    exact hextend _ [] (spells_empty none)
  next last hlast =>
    rcases List.mem_append.mp hchunk with hold | hnew
    · exact h chunk (List.dropLast_subset _ hold)
    · obtain rfl := List.mem_singleton.mp hnew
      obtain ⟨lines, hlines⟩ := h last (List.mem_of_getLast? hlast)
      exact hextend last lines hlines

theorem processUpdateLine_spelled {lineNumber : ℕ} {line updateLine : String}
    {movePath movePath' : Option String} {chunks chunks' : List UpdateFileChunk}
    (h : ∀ chunk ∈ chunks, ∃ lines, chunk.Spells lines)
    (hline : processUpdateLine lineNumber line updateLine movePath chunks =
      .ok (movePath', chunks')) :
    ∀ chunk ∈ chunks', ∃ lines, chunk.Spells lines := by
  have hpush : ∀ changeContext : Option String,
      ∀ chunk ∈ chunks ++ [{ changeContext := changeContext : UpdateFileChunk }],
        ∃ lines, chunk.Spells lines := by
    intro changeContext chunk hchunk
    rcases List.mem_append.mp hchunk with hold | hnew
    · exact h chunk hold
    · obtain rfl := List.mem_singleton.mp hnew
      exact ⟨[], spells_empty changeContext⟩
  unfold processUpdateLine at hline
  dsimp only at hline
  split at hline
  · cases hline; exact h
  split at hline
  · cases hline
  split at hline
  · cases hline; exact h
  split at hline
  · cases hline
  split at hline
  · cases hline; exact hpush none
  split at hline
  next changeContext _ => cases hline; exact hpush (some changeContext)
  split at hline
  · split at hline
    · cases hline
    · cases hline
      split
      · exact fun chunk hchunk ↦ absurd hchunk List.not_mem_nil
      · exact extendChunk_spelled h fun chunk lines hlines ↦
          ⟨lines, hlines.old, hlines.new, hlines.context⟩
  split at hline
  · cases hline
    exact extendChunk_spelled h fun chunk lines hlines ↦ ⟨_, hlines.pushContextLine ""⟩
  next rest _ =>
    cases hline
    exact extendChunk_spelled h fun chunk lines hlines ↦ ⟨_, hlines.pushContextLine _⟩
  next rest _ =>
    cases hline
    exact extendChunk_spelled h fun chunk lines hlines ↦ ⟨_, hlines.pushAdded _⟩
  next rest _ =>
    cases hline
    exact extendChunk_spelled h fun chunk lines hlines ↦ ⟨_, hlines.pushRemoved _⟩
  · split at hline <;> cases hline

variable {parser parser' : StreamingPatchParser}

theorem Spelled.push (h : parser.Spelled) {hunk : Hunk} (hhunk : hunk.Spelled) :
    ∀ other ∈ parser.hunks ++ [hunk], other.Spelled := by
  intro other hother
  rcases List.mem_append.mp hother with hold | hnew
  · exact h other hold
  · obtain rfl := List.mem_singleton.mp hnew
    exact hhunk

theorem Spelled.replaceLast (h : parser.Spelled) {hunk : Hunk} (hhunk : hunk.Spelled) :
    ∀ other ∈ parser.hunks.dropLast ++ [hunk], other.Spelled := by
  intro other hother
  rcases List.mem_append.mp hother with hold | hnew
  · exact h other (List.dropLast_subset _ hold)
  · obtain rfl := List.mem_singleton.mp hnew
    exact hhunk

theorem Spelled.pushHunk (h : parser.Spelled) {trimmed : String} {hunk : Hunk}
    (hhunk : hunk.Spelled) {mode : StreamingParserMode}
    (hok : parser.pushHunk trimmed hunk mode = .ok (some parser')) : parser'.Spelled := by
  obtain ⟨_, -, hnext⟩ := Outcome.bind_eq_ok.mp hok
  obtain rfl := Option.some.inj (Outcome.ok.inj hnext)
  exact h.push hhunk

theorem Spelled.handleHunkHeadersAndEndPatch (h : parser.Spelled) {trimmed : String}
    (hok : parser.handleHunkHeadersAndEndPatch trimmed = .ok (some parser')) :
    parser'.Spelled := by
  unfold StreamingPatchParser.handleHunkHeadersAndEndPatch at hok
  split at hok
  · obtain ⟨_, -, hok⟩ := Outcome.bind_eq_ok.mp hok
    obtain ⟨_, -, hok⟩ := Outcome.bind_eq_ok.mp hok
    obtain rfl := Option.some.inj (Outcome.ok.inj hok)
    exact h
  split at hok
  · obtain ⟨_, -, hok⟩ := Outcome.bind_eq_ok.mp hok
    obtain rfl := Option.some.inj (Outcome.ok.inj hok)
    exact h
  split at hok
  · refine h.pushHunk ?_ hok
    trivial
  split at hok
  · refine h.pushHunk ?_ hok
    trivial
  split at hok
  · refine h.pushHunk ?_ hok
    exact fun chunk hchunk ↦ absurd hchunk List.not_mem_nil
  · cases hok

theorem Spelled.processLine (h : parser.Spelled) {line : String}
    (hok : parser.processLine line = .ok parser') : parser'.Spelled := by
  unfold StreamingPatchParser.processLine at hok
  dsimp only at hok
  split at hok
  · split at hok
    · cases hok; exact h
    · cases hok
  iterate 2
    obtain ⟨handled, hhandled, hok⟩ := Outcome.bind_eq_ok.mp hok
    split at hok
    · cases hok; exact h.handleHunkHeadersAndEndPatch hhandled
    · cases hok
  · obtain ⟨handled, hhandled, hok⟩ := Outcome.bind_eq_ok.mp hok
    split at hok
    · cases hok; exact h.handleHunkHeadersAndEndPatch hhandled
    split at hok
    · cases hok; exact h.replaceLast trivial
    · cases hok
  · obtain ⟨handled, hhandled, hok⟩ := Outcome.bind_eq_ok.mp hok
    split at hok
    · cases hok; exact h.handleHunkHeadersAndEndPatch hhandled
    split at hok
    next path movePath chunks hlast =>
      obtain ⟨⟨movePath', chunks'⟩, hline, hok⟩ := Outcome.bind_eq_ok.mp hok
      cases hok
      have hchunks : ∀ chunk ∈ chunks, ∃ lines, chunk.Spells lines :=
        h _ (List.mem_of_getLast? hlast)
      exact h.replaceLast (processUpdateLine_spelled hchunks hline)
    · cases hok
  · split at hok
    · cases hok; exact h
    · cases hok

theorem Spelled.pushDelta (h : parser.Spelled) {delta : String}
    (hok : parser.pushDelta delta = .ok parser') : parser'.Spelled := by
  unfold StreamingPatchParser.pushDelta at hok
  generalize delta.toList = chars at hok
  induction chars generalizing parser with
  | nil => cases hok; exact h
  | cons ch rest ih =>
    rw [List.foldlM_cons] at hok
    obtain ⟨next, hnext, hok⟩ := Outcome.bind_eq_ok.mp hok
    refine ih ?_ hok
    unfold pushChar at hnext
    split at hnext
    · exact Spelled.processLine (by exact h) hnext
    · cases hnext; exact h

theorem Spelled.finish (h : parser.Spelled) (hok : parser.finish = .ok parser') :
    parser'.Spelled := by
  obtain ⟨last, hlast, hok⟩ := Outcome.bind_eq_ok.mp hok
  obtain ⟨_, -, hok⟩ := Outcome.bind_eq_ok.mp hok
  obtain rfl := Outcome.ok.inj hok
  unfold processLastLine at hlast
  split at hlast
  · cases hlast; exact h
  dsimp only at hlast
  split at hlast
  · obtain ⟨_, -, hlast⟩ := Outcome.bind_eq_ok.mp hlast
    cases hlast; exact h
  · exact Spelled.processLine (by exact h) hlast

end StreamingPatchParser

theorem parsePatch_spelled {patch : String} {hunks : List Hunk} {environmentId : Option String}
    (h : parsePatch patch = .ok (hunks, environmentId)) : ∀ hunk ∈ hunks, hunk.Spelled := by
  obtain ⟨lines, -, h⟩ := Outcome.bind_eq_ok.mp h
  obtain ⟨parser, hpush, h⟩ := Outcome.bind_eq_ok.mp h
  obtain ⟨last, hfinish, h⟩ := Outcome.bind_eq_ok.mp h
  cases h
  have hstart : StreamingPatchParser.Spelled {} := fun hunk hhunk ↦ absurd hhunk List.not_mem_nil
  exact (hstart.pushDelta hpush).finish hfinish

end SpineCodex
