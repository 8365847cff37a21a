import SpineCodex.Patch.Parser

/-!
# What a line of a patch can do

Every line that is accepted leaves the hunks as they are, opens a hunk, or adds something to the
last one; in an update hunk it opens a chunk or adds something to the last one.
-/

namespace SpineCodex

/-- What a line does to the chunk that it extends. -/
inductive ChunkStep : UpdateFileChunk → UpdateFileChunk → Prop
  | context (chunk : UpdateFileChunk) (line : String) : ChunkStep chunk (chunk.pushContextLine line)
  | added (chunk : UpdateFileChunk) (line : String) :
      ChunkStep chunk { chunk with newLines := chunk.newLines ++ [line] }
  | removed (chunk : UpdateFileChunk) (line : String) :
      ChunkStep chunk { chunk with oldLines := chunk.oldLines ++ [line] }
  | endOfFile (chunk : UpdateFileChunk) : ChunkStep chunk { chunk with isEndOfFile := true }

/-- What a line does to the move path and the chunks of an update hunk. -/
inductive UpdateStep : Option String → List UpdateFileChunk → Option String →
    List UpdateFileChunk → Prop
  | same (movePath : Option String) (chunks : List UpdateFileChunk) :
      UpdateStep movePath chunks movePath chunks
  | move (path : String) : UpdateStep none [] (some path) []
  | opens (movePath : Option String) (chunks : List UpdateFileChunk)
      (changeContext : Option String) :
      UpdateStep movePath chunks movePath (chunks ++ [{ changeContext := changeContext }])
  | first (movePath : Option String) {chunk : UpdateFileChunk} (h : ChunkStep {} chunk) :
      UpdateStep movePath [] movePath [chunk]
  | last (movePath : Option String) (front : List UpdateFileChunk) {chunk chunk' : UpdateFileChunk}
      (h : ChunkStep chunk chunk') :
      UpdateStep movePath (front ++ [chunk]) movePath (front ++ [chunk'])

/-- What a line does to the hunks. -/
inductive HunkStep : List Hunk → List Hunk → Prop
  | same (hunks : List Hunk) : HunkStep hunks hunks
  | addFile (hunks : List Hunk) (path : String) : HunkStep hunks (hunks ++ [.addFile path ""])
  | deleteFile (hunks : List Hunk) (path : String) : HunkStep hunks (hunks ++ [.deleteFile path])
  | updateFile (hunks : List Hunk) (path : String) :
      HunkStep hunks (hunks ++ [.updateFile path none []])
  | content (front : List Hunk) (path contents line : String) :
      HunkStep (front ++ [.addFile path contents])
        (front ++ [.addFile path (contents ++ line ++ "\n")])
  | update (front : List Hunk) (path : String) {movePath movePath' : Option String}
      {chunks chunks' : List UpdateFileChunk} (h : UpdateStep movePath chunks movePath' chunks') :
      HunkStep (front ++ [.updateFile path movePath chunks])
        (front ++ [.updateFile path movePath' chunks'])

namespace StreamingPatchParser

/-! ## Lines of an update hunk -/

/-- What is done with a line of an update hunk. -/
inductive UpdateAction where
  | pass
  | refuse
  | move (path : String)
  | opens (changeContext : Option String)
  | endOfFile
  | text
  deriving Repr, DecidableEq

/-- The last chunk is at the end of the file. -/
def endsFile (chunks : List UpdateFileChunk) : Bool := chunks.getLast?.any (·.isEndOfFile)

/-- The last chunk has no lines. -/
def endsEmpty (chunks : List UpdateFileChunk) : Bool := chunks.getLast?.any fun chunk ↦ chunk.IsEmpty

/-- The action for a line, by its text without trailing white space. -/
def updateAction (updateLine : String) (movePath : Option String) (chunks : List UpdateFileChunk) :
    UpdateAction :=
  if endsFile chunks ∧ updateLine = "" then .pass
  else if endsFile chunks ∧ ¬IsContextMarker updateLine then .refuse
  else match if chunks = [] ∧ movePath = none then stripStart? moveToMarker updateLine else none with
    | some path => .move path
    | none =>
      if IsContextMarker updateLine ∧ endsEmpty chunks then .refuse
      else if updateLine = emptyChangeContextMarker then .opens none
      else match stripStart? changeContextMarker updateLine with
        | some changeContext => .opens (some changeContext)
        | none =>
          if updateLine = eofMarker then if endsEmpty chunks then .refuse else .endOfFile
          else .text

/-- What the first character of a line says about the rest. -/
def textStep? (line : String) : Option (UpdateFileChunk → UpdateFileChunk) :=
  match line.toList with
  | [] => some (·.pushContextLine "")
  | ' ' :: rest => some (·.pushContextLine (.ofList rest))
  | '+' :: rest => some fun chunk ↦ { chunk with newLines := chunk.newLines ++ [.ofList rest] }
  | '-' :: rest => some fun chunk ↦ { chunk with oldLines := chunk.oldLines ++ [.ofList rest] }
  | _ => none

/-- The move path and the chunks after an action. -/
def UpdateAction.perform (line : String) (movePath : Option String)
    (chunks : List UpdateFileChunk) :
    UpdateAction → Option (Option String × List UpdateFileChunk)
  | .pass => some (movePath, chunks)
  | .refuse => none
  | .move path => some (some path, chunks)
  | .opens changeContext => some (movePath, chunks ++ [{ changeContext := changeContext }])
  | .endOfFile => some (movePath, if chunks = [] then [] else
      extendChunk chunks fun chunk ↦ { chunk with isEndOfFile := true })
  | .text => (textStep? line).map fun extend ↦ (movePath, extendChunk chunks extend)

theorem processUpdateLine_eq_ok {lineNumber : ℕ} {line updateLine : String}
    {movePath : Option String} {chunks : List UpdateFileChunk}
    {result : Option String × List UpdateFileChunk} :
    processUpdateLine lineNumber line updateLine movePath chunks = .ok result ↔
      (updateAction updateLine movePath chunks).perform line movePath chunks = some result := by
  unfold processUpdateLine updateAction endsFile endsEmpty
  dsimp only
  split
  · simp [UpdateAction.perform]
  split
  · simp [UpdateAction.perform]
  cases (if chunks = [] ∧ movePath = none then stripStart? moveToMarker updateLine else none) with
  | some path => simp [UpdateAction.perform]
  | none =>
    dsimp only
    split
    · simp [UpdateAction.perform]
    split
    · simp [UpdateAction.perform]
    cases stripStart? changeContextMarker updateLine with
    | some changeContext => simp [UpdateAction.perform]
    | none =>
      dsimp only
      split
      · split
        · simp [UpdateAction.perform]
        · simp [UpdateAction.perform]
      split
      next hline => simp [UpdateAction.perform, textStep?, hline]
      next hline => simp [UpdateAction.perform, textStep?, hline]
      next hline => simp [UpdateAction.perform, textStep?, hline]
      next hline => simp [UpdateAction.perform, textStep?, hline]
      next hnil hcontext hadded hremoved =>
        have hnone : textStep? line = none := by
          unfold textStep?
          split <;> simp_all
        rw [UpdateAction.perform, hnone]
        split <;> simp

theorem updateStep_extendChunk (movePath : Option String) (chunks : List UpdateFileChunk)
    {extend : UpdateFileChunk → UpdateFileChunk} (h : ∀ chunk, ChunkStep chunk (extend chunk)) :
    UpdateStep movePath chunks movePath (extendChunk chunks extend) := by
  unfold extendChunk
  rcases List.eq_nil_or_concat chunks with rfl | ⟨front, chunk, rfl⟩
  · exact .first movePath (h {})
  · simpa using UpdateStep.last movePath front (h chunk)

theorem chunkStep_of_textStep? {line : String} {extend : UpdateFileChunk → UpdateFileChunk}
    (h : textStep? line = some extend) (chunk : UpdateFileChunk) : ChunkStep chunk (extend chunk) := by
  unfold textStep? at h
  split at h
  · obtain rfl := Option.some.inj h
    exact .context chunk ""
  · obtain rfl := Option.some.inj h
    exact .context chunk _
  · obtain rfl := Option.some.inj h
    exact .added chunk _
  · obtain rfl := Option.some.inj h
    exact .removed chunk _
  · cases h

theorem move_of_updateAction {updateLine path : String} {movePath : Option String}
    {chunks : List UpdateFileChunk} (h : updateAction updateLine movePath chunks = .move path) :
    chunks = [] ∧ movePath = none := by
  by_contra hlater
  unfold updateAction at h
  rw [if_neg hlater] at h
  cases hcontext : stripStart? changeContextMarker updateLine with
  | some changeContext =>
    rw [hcontext] at h
    dsimp only at h
    split_ifs at h
  | none =>
    rw [hcontext] at h
    dsimp only at h
    split_ifs at h

theorem updateStep_of_perform {line updateLine : String} {movePath movePath' : Option String}
    {chunks chunks' : List UpdateFileChunk}
    (h : (updateAction updateLine movePath chunks).perform line movePath chunks =
      some (movePath', chunks')) :
    UpdateStep movePath chunks movePath' chunks' := by
  cases haction : updateAction updateLine movePath chunks with
  | pass =>
    rw [haction] at h
    obtain ⟨rfl, rfl⟩ := Prod.mk.inj (Option.some.inj h)
    exact .same movePath chunks
  | refuse =>
    rw [haction] at h
    cases h
  | move path =>
    obtain ⟨rfl, rfl⟩ := move_of_updateAction haction
    rw [haction] at h
    obtain ⟨rfl, rfl⟩ := Prod.mk.inj (Option.some.inj h)
    exact .move path
  | opens changeContext =>
    rw [haction] at h
    obtain ⟨rfl, rfl⟩ := Prod.mk.inj (Option.some.inj h)
    exact .opens movePath chunks changeContext
  | endOfFile =>
    rw [haction] at h
    obtain ⟨rfl, rfl⟩ := Prod.mk.inj (Option.some.inj h)
    split_ifs with hnil
    · rw [hnil]
      exact .same movePath []
    · exact updateStep_extendChunk movePath chunks .endOfFile
  | text =>
    rw [haction] at h
    obtain ⟨extend, hextend, hresult⟩ := Option.map_eq_some_iff.mp h
    obtain ⟨rfl, rfl⟩ := Prod.mk.inj hresult
    exact updateStep_extendChunk movePath chunks (chunkStep_of_textStep? hextend)

/-! ## Lines -/

variable {parser parser' : StreamingPatchParser}

/-- A line changes the hunks, the mode and the environment only. -/
structure LineStep (parser parser' : StreamingPatchParser) : Prop where
  hunks : HunkStep parser.hunks parser'.hunks
  lineBuffer : parser'.lineBuffer = parser.lineBuffer
  lineNumber : parser'.lineNumber = parser.lineNumber

theorem lineStep_of_pushHunk {trimmed : String} {hunk : Hunk} {mode : StreamingParserMode}
    (hstep : HunkStep parser.hunks (parser.hunks ++ [hunk]))
    (h : parser.pushHunk trimmed hunk mode = .ok (some parser')) : LineStep parser parser' := by
  obtain ⟨_, -, hnext⟩ := Outcome.bind_eq_ok.mp h
  obtain rfl := Option.some.inj (Outcome.ok.inj hnext)
  exact ⟨hstep, rfl, rfl⟩

theorem lineStep_of_header {trimmed : String}
    (h : parser.handleHunkHeadersAndEndPatch trimmed = .ok (some parser')) :
    LineStep parser parser' := by
  unfold handleHunkHeadersAndEndPatch at h
  split at h
  · obtain ⟨_, -, h⟩ := Outcome.bind_eq_ok.mp h
    obtain ⟨_, -, h⟩ := Outcome.bind_eq_ok.mp h
    obtain rfl := Option.some.inj (Outcome.ok.inj h)
    exact ⟨.same parser.hunks, rfl, rfl⟩
  split at h
  · obtain ⟨_, -, h⟩ := Outcome.bind_eq_ok.mp h
    obtain rfl := Option.some.inj (Outcome.ok.inj h)
    exact ⟨.same parser.hunks, rfl, rfl⟩
  split at h
  · exact lineStep_of_pushHunk (.addFile parser.hunks _) h
  split at h
  · exact lineStep_of_pushHunk (.deleteFile parser.hunks _) h
  split at h
  · exact lineStep_of_pushHunk (.updateFile parser.hunks _) h
  · cases h

/-- A line of an add hunk that is no header. -/
def addLine (parser : StreamingPatchParser) (line : String) :
    Outcome ParseError StreamingPatchParser :=
  match line.toList, parser.hunks.getLast? with
  | '+' :: rest, some (.addFile path contents) =>
      .ok { parser with
        hunks := parser.hunks.dropLast ++ [.addFile path (contents ++ .ofList rest ++ "\n")] }
  | _, _ => .err (.invalidHunk (headerMessage (trim line)) parser.lineNumber)

/-- A line of an update hunk that is no header. -/
def updateLine (parser : StreamingPatchParser) (line : String) :
    Outcome ParseError StreamingPatchParser :=
  match parser.hunks.getLast? with
  | some (.updateFile path movePath chunks) => do
      let (movePath, chunks) ←
        processUpdateLine parser.lineNumber line (trimEnd line) movePath chunks
      .ok { parser with hunks := parser.hunks.dropLast ++ [.updateFile path movePath chunks] }
  | _ => .err (.invalidHunk (unexpectedLineMessage line) parser.lineNumber)

theorem processLine_of_addFile (h : parser.mode = .addFile) (line : String) :
    parser.processLine line = (parser.handleHunkHeadersAndEndPatch (trim line) >>= fun header ↦
      header.elim (parser.addLine line) .ok) := by
  obtain ⟨lineBuffer, mode, hunks, environmentId, lineNumber⟩ := parser
  obtain rfl := h
  unfold processLine
  dsimp only
  congr 1
  funext header
  cases header <;> rfl

theorem processLine_of_updateFile {hunkLineNumber : ℕ} (h : parser.mode = .updateFile hunkLineNumber)
    (line : String) :
    parser.processLine line = (parser.handleHunkHeadersAndEndPatch (trimEnd line) >>= fun header ↦
      header.elim (parser.updateLine line) .ok) := by
  obtain ⟨lineBuffer, mode, hunks, environmentId, lineNumber⟩ := parser
  obtain rfl := h
  unfold processLine
  dsimp only
  congr 1
  funext header
  cases header <;> rfl

theorem processLine_of_header (h : parser.mode = .startedPatch ∨ parser.mode = .deleteFile)
    (line : String) :
    parser.processLine line = (parser.handleHunkHeadersAndEndPatch (trim line) >>= fun header ↦
      header.elim (.err (.invalidHunk (headerMessage (trim line)) parser.lineNumber)) .ok) := by
  unfold processLine
  rcases h with h | h
  · rw [h]
    dsimp only
    congr 1
    funext header
    cases header <;> rfl
  · rw [h]
    dsimp only
    congr 1
    funext header
    cases header <;> rfl

theorem addLine_eq_ok {line : String} : parser.addLine line = .ok parser' ↔
    ∃ rest path contents, line.toList = '+' :: rest ∧
      parser.hunks.getLast? = some (.addFile path contents) ∧
      parser' = { parser with
        hunks := parser.hunks.dropLast ++ [.addFile path (contents ++ .ofList rest ++ "\n")] } := by
  unfold addLine
  split
  next rest path contents hline hlast =>
    constructor
    · intro h
      exact ⟨rest, path, contents, hline, hlast, (Outcome.ok.inj h).symm⟩
    · rintro ⟨rest', path', contents', hline', hlast', rfl⟩
      rw [hline] at hline'
      rw [hlast] at hlast'
      cases hline'
      cases hlast'
      rfl
  next hother =>
    constructor
    · intro h
      cases h
    · rintro ⟨rest, path, contents, hline, hlast, -⟩
      exact absurd hlast (hother rest path contents hline)

theorem updateLine_eq_ok {line : String} : parser.updateLine line = .ok parser' ↔
    ∃ path movePath chunks movePath' chunks',
      parser.hunks.getLast? = some (.updateFile path movePath chunks) ∧
      (updateAction (trimEnd line) movePath chunks).perform line movePath chunks =
        some (movePath', chunks') ∧
      parser' = { parser with
        hunks := parser.hunks.dropLast ++ [.updateFile path movePath' chunks'] } := by
  unfold updateLine
  split
  next path movePath chunks hlast =>
    constructor
    · intro h
      obtain ⟨⟨movePath', chunks'⟩, hline, h⟩ := Outcome.bind_eq_ok.mp h
      exact ⟨path, movePath, chunks, movePath', chunks', hlast, processUpdateLine_eq_ok.mp hline,
        (Outcome.ok.inj h).symm⟩
    · rintro ⟨path', movePath', chunks', movePath'', chunks'', hlast', hline, rfl⟩
      rw [hlast] at hlast'
      cases hlast'
      exact Outcome.bind_eq_ok.mpr ⟨_, processUpdateLine_eq_ok.mpr hline, rfl⟩
  next hother =>
    constructor
    · intro h
      cases h
    · rintro ⟨path, movePath, chunks, _, _, hlast, -, -⟩
      exact absurd hlast (hother path movePath chunks)

theorem lineStep_of_addLine {line : String} (h : parser.addLine line = .ok parser') :
    LineStep parser parser' := by
  obtain ⟨rest, path, contents, -, hlast, rfl⟩ := addLine_eq_ok.mp h
  have hhunks := List.dropLast_append_getLast? _ hlast
  have hstep := HunkStep.content parser.hunks.dropLast path contents (.ofList rest)
  rw [hhunks] at hstep
  exact ⟨hstep, rfl, rfl⟩

theorem lineStep_of_updateLine {line : String} (h : parser.updateLine line = .ok parser') :
    LineStep parser parser' := by
  obtain ⟨path, movePath, chunks, movePath', chunks', hlast, hline, rfl⟩ := updateLine_eq_ok.mp h
  have hhunks := List.dropLast_append_getLast? _ hlast
  have hstep := HunkStep.update parser.hunks.dropLast path (updateStep_of_perform hline)
  rw [hhunks] at hstep
  exact ⟨hstep, rfl, rfl⟩

/-- Headers come first; what is no header goes to the text of the hunk. -/
theorem lineStep_of_header_or {trimmed : String} {text : Outcome ParseError StreamingPatchParser}
    (htext : text = .ok parser' → LineStep parser parser')
    (h : (parser.handleHunkHeadersAndEndPatch trimmed >>= fun header ↦ header.elim text .ok) =
      .ok parser') : LineStep parser parser' := by
  obtain ⟨header, hheader, h⟩ := Outcome.bind_eq_ok.mp h
  cases header with
  | none => exact htext h
  | some next =>
    obtain rfl := Outcome.ok.inj h
    exact lineStep_of_header hheader

theorem lineStep_of_processLine {line : String} (h : parser.processLine line = .ok parser') :
    LineStep parser parser' := by
  cases hmode : parser.mode with
  | addFile =>
    rw [processLine_of_addFile hmode] at h
    exact lineStep_of_header_or lineStep_of_addLine h
  | updateFile hunkLineNumber =>
    rw [processLine_of_updateFile hmode] at h
    exact lineStep_of_header_or lineStep_of_updateLine h
  | notStarted =>
    unfold processLine at h
    rw [hmode] at h
    dsimp only at h
    split_ifs at h
    obtain rfl := Outcome.ok.inj h
    exact ⟨.same parser.hunks, rfl, rfl⟩
  | endedPatch =>
    unfold processLine at h
    rw [hmode] at h
    dsimp only at h
    split_ifs at h
    obtain rfl := Outcome.ok.inj h
    exact ⟨.same parser.hunks, rfl, rfl⟩
  | startedPatch =>
    rw [processLine_of_header (.inl hmode)] at h
    refine lineStep_of_header_or ?_ h
    intro herr
    cases herr
  | deleteFile =>
    rw [processLine_of_header (.inr hmode)] at h
    refine lineStep_of_header_or ?_ h
    intro herr
    cases herr

theorem hunkStep_of_pushChar {ch : Char} (h : parser.pushChar ch = .ok parser') :
    HunkStep parser.hunks parser'.hunks := by
  unfold pushChar at h
  split at h
  · have hstep := (lineStep_of_processLine h).hunks
    exact hstep
  · cases h
    exact .same parser.hunks

theorem hunkStep_of_finish (h : parser.finish = .ok parser') :
    HunkStep parser.hunks parser'.hunks := by
  obtain ⟨last, hlast, h⟩ := Outcome.bind_eq_ok.mp h
  obtain ⟨_, -, h⟩ := Outcome.bind_eq_ok.mp h
  obtain rfl := Outcome.ok.inj h
  unfold processLastLine at hlast
  split at hlast
  · cases hlast
    exact .same parser.hunks
  dsimp only at hlast
  split at hlast
  · obtain ⟨_, -, hlast⟩ := Outcome.bind_eq_ok.mp hlast
    cases hlast
    exact .same parser.hunks
  · have hstep := (lineStep_of_processLine hlast).hunks
    exact hstep

end StreamingPatchParser

end SpineCodex
