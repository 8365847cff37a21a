import SpineCodex.Lib.Outcome
import SpineCodex.Lib.Text

/-!
# The patch parser

A patch is read line by line.  The parser keeps the hunks read so far and a mode that says
which hunk the next line may extend; an update hunk is a list of chunks, each a run of
context, removed and added lines.
-/

namespace SpineCodex

inductive ParseError where
  | invalidPatch (message : String)
  | invalidHunk (message : String) (lineNumber : ℕ)
  deriving Repr, DecidableEq

structure UpdateFileChunk where
  changeContext : Option String := none
  oldLines : List String := []
  newLines : List String := []
  contextLineIndices : List (ℕ × ℕ) := []
  isEndOfFile : Bool := false
  deriving Repr, DecidableEq

namespace UpdateFileChunk

def pushContextLine (chunk : UpdateFileChunk) (line : String) : UpdateFileChunk :=
  { chunk with
    contextLineIndices :=
      chunk.contextLineIndices ++ [(chunk.oldLines.length, chunk.newLines.length)]
    oldLines := chunk.oldLines ++ [line]
    newLines := chunk.newLines ++ [line] }

/-- The chunk has no line yet. -/
def IsEmpty (chunk : UpdateFileChunk) : Prop := chunk.oldLines = [] ∧ chunk.newLines = []

instance (chunk : UpdateFileChunk) : Decidable chunk.IsEmpty := inferInstanceAs (Decidable (_ ∧ _))

end UpdateFileChunk

inductive Hunk where
  | addFile (path : String) (contents : String)
  | deleteFile (path : String)
  | updateFile (path : String) (movePath : Option String) (chunks : List UpdateFileChunk)
  deriving Repr, DecidableEq

inductive StreamingParserMode where
  | notStarted
  | startedPatch
  | addFile
  | deleteFile
  | updateFile (hunkLineNumber : ℕ)
  | endedPatch
  deriving Repr, DecidableEq

structure StreamingPatchParser where
  lineBuffer : List Char := []
  mode : StreamingParserMode := .notStarted
  hunks : List Hunk := []
  environmentId : Option String := none
  lineNumber : ℕ := 0
  deriving Repr, DecidableEq

/-! ## Markers and messages -/

def beginPatchMarker : String := "*** Begin Patch"
def endPatchMarker : String := "*** End Patch"
def addFileMarker : String := "*** Add File: "
def deleteFileMarker : String := "*** Delete File: "
def updateFileMarker : String := "*** Update File: "
def moveToMarker : String := "*** Move to: "
def eofMarker : String := "*** End of File"
def changeContextMarker : String := "@@ "
def emptyChangeContextMarker : String := "@@"
def environmentIdMarker : String := "*** Environment ID:"

def firstLineMessage : String := "The first line of the patch must be '*** Begin Patch'"
def lastLineMessage : String := "The last line of the patch must be '*** End Patch'"

def headerMessage (trimmed : String) : String :=
  "'" ++ trimmed ++ "' is not a valid hunk header. Valid hunk headers: '*** Add File: \x7bpath\x7d', " ++
    "'*** Delete File: \x7bpath\x7d', '*** Update File: \x7bpath\x7d'"

def unexpectedLineMessage (line : String) : String :=
  "Unexpected line found in update hunk: '" ++ line ++ "'. Every line should start with ' ' " ++
    "(context line), '+' (added line), or '-' (removed line)"

def contextMarkerMessage (line : String) : String :=
  "Expected update hunk to start with a @@ context marker, got: '" ++ line ++ "'"

def noLinesMessage : String := "Update hunk does not contain any lines"

namespace StreamingPatchParser

/-! ## Headers -/

/-- `ensure_update_hunk_is_not_empty`. -/
def ensureUpdateHunkIsNotEmpty (parser : StreamingPatchParser) (line : String) :
    Outcome ParseError Unit :=
  match parser.hunks.getLast? with
  | some (.updateFile path _ chunks) =>
      match chunks.getLast?, parser.mode with
      | none, .updateFile hunkLineNumber =>
          .err (.invalidHunk ("Update file hunk for path '" ++ path ++ "' is empty") hunkLineNumber)
      | none, _ => .ok ()
      | some chunk, _ =>
          if chunk.IsEmpty then
            .err (.invalidHunk
              (if line = endPatchMarker then noLinesMessage else unexpectedLineMessage line)
              parser.lineNumber)
          else .ok ()
  | _ => .ok ()

/-- A new hunk, once the one before it is known to be complete. -/
def pushHunk (parser : StreamingPatchParser) (trimmed : String) (hunk : Hunk)
    (mode : StreamingParserMode) : Outcome ParseError (Option StreamingPatchParser) := do
  parser.ensureUpdateHunkIsNotEmpty trimmed
  .ok (some { parser with hunks := parser.hunks ++ [hunk], mode })

/-- `handle_hunk_headers_and_end_patch`; `none` if the line is none of them. -/
def handleHunkHeadersAndEndPatch (parser : StreamingPatchParser) (trimmed : String) :
    Outcome ParseError (Option StreamingPatchParser) :=
  match if parser.mode = .startedPatch then stripStart? environmentIdMarker trimmed else none with
  | some environmentId => do
      .require (parser.environmentId = none)
        (.invalidPatch "apply_patch environment_id cannot be specified more than once")
      .require (¬Blank environmentId) (.invalidPatch "apply_patch environment_id cannot be empty")
      .ok (some { parser with environmentId := some (trim environmentId) })
  | none =>
      if trimmed = endPatchMarker then do
        parser.ensureUpdateHunkIsNotEmpty trimmed
        .ok (some { parser with mode := .endedPatch })
      else match stripStart? addFileMarker trimmed with
        | some path => parser.pushHunk trimmed (.addFile path "") .addFile
        | none => match stripStart? deleteFileMarker trimmed with
          | some path => parser.pushHunk trimmed (.deleteFile path) .deleteFile
          | none => match stripStart? updateFileMarker trimmed with
            | some path =>
                parser.pushHunk trimmed (.updateFile path none []) (.updateFile parser.lineNumber)
            | none => .ok none

/-! ## Lines of an update hunk -/

/-- A line that extends the last chunk, which is created if there is none. -/
def extendChunk (chunks : List UpdateFileChunk) (extend : UpdateFileChunk → UpdateFileChunk) :
    List UpdateFileChunk :=
  match chunks.getLast? with
  | none => [extend {}]
  | some chunk => chunks.dropLast ++ [extend chunk]

/-- The line opens a chunk. -/
def IsContextMarker (updateLine : String) : Prop :=
  updateLine = emptyChangeContextMarker ∨ (stripStart? changeContextMarker updateLine).isSome

instance (updateLine : String) : Decidable (IsContextMarker updateLine) :=
  inferInstanceAs (Decidable (_ ∨ _))

/-- How a line changes the move path and the chunks of the update hunk it belongs to. -/
def processUpdateLine (lineNumber : ℕ) (line updateLine : String) (movePath : Option String)
    (chunks : List UpdateFileChunk) : Outcome ParseError (Option String × List UpdateFileChunk) :=
  let lastIsEmpty := chunks.getLast?.any fun chunk ↦ chunk.IsEmpty
  if chunks.getLast?.any (·.isEndOfFile) ∧ updateLine = "" then .ok (movePath, chunks)
  else if chunks.getLast?.any (·.isEndOfFile) ∧ ¬IsContextMarker updateLine then
    .err (.invalidHunk (contextMarkerMessage line) lineNumber)
  else match if chunks = [] ∧ movePath = none then stripStart? moveToMarker updateLine else none with
    | some moveToPath => .ok (some moveToPath, chunks)
    | none =>
      if IsContextMarker updateLine ∧ lastIsEmpty then
        .err (.invalidHunk (unexpectedLineMessage line) lineNumber)
      else if updateLine = emptyChangeContextMarker then .ok (movePath, chunks ++ [{}])
      else match stripStart? changeContextMarker updateLine with
        | some changeContext =>
            .ok (movePath, chunks ++ [{ changeContext := some changeContext }])
        | none =>
          if updateLine = eofMarker then
            if lastIsEmpty then .err (.invalidHunk noLinesMessage lineNumber)
            else .ok (movePath, if chunks = [] then [] else
              extendChunk chunks fun chunk ↦ { chunk with isEndOfFile := true })
          else match line.toList with
            | [] => .ok (movePath, extendChunk chunks (·.pushContextLine ""))
            | ' ' :: rest => .ok (movePath, extendChunk chunks (·.pushContextLine (.ofList rest)))
            | '+' :: rest => .ok (movePath, extendChunk chunks fun chunk ↦
                { chunk with newLines := chunk.newLines ++ [.ofList rest] })
            | '-' :: rest => .ok (movePath, extendChunk chunks fun chunk ↦
                { chunk with oldLines := chunk.oldLines ++ [.ofList rest] })
            | _ =>
                if chunks.getLast?.any fun chunk ↦ ¬chunk.IsEmpty then
                  .err (.invalidHunk (contextMarkerMessage line) lineNumber)
                else .err (.invalidHunk (unexpectedLineMessage line) lineNumber)

/-! ## Lines -/

/-- `process_line`. -/
def processLine (parser : StreamingPatchParser) (line : String) :
    Outcome ParseError StreamingPatchParser := do
  let trimmed := trim line
  let badHeader : Outcome ParseError StreamingPatchParser :=
    .err (.invalidHunk (headerMessage trimmed) parser.lineNumber)
  match parser.mode with
  | .notStarted =>
      if trimmed = beginPatchMarker then .ok { parser with mode := .startedPatch }
      else .err (.invalidPatch firstLineMessage)
  | .startedPatch | .deleteFile =>
      match ← parser.handleHunkHeadersAndEndPatch trimmed with
      | some parser => .ok parser
      | none => badHeader
  | .addFile =>
      match ← parser.handleHunkHeadersAndEndPatch trimmed with
      | some parser => .ok parser
      | none => match line.toList, parser.hunks.getLast? with
        | '+' :: rest, some (.addFile path contents) =>
            .ok { parser with
              hunks := parser.hunks.dropLast ++ [.addFile path (contents ++ .ofList rest ++ "\n")] }
        | _, _ => badHeader
  | .updateFile _ =>
      let updateLine := trimEnd line
      match ← parser.handleHunkHeadersAndEndPatch updateLine with
      | some parser => .ok parser
      | none => match parser.hunks.getLast? with
        | some (.updateFile path movePath chunks) => do
            let (movePath, chunks) ←
              processUpdateLine parser.lineNumber line updateLine movePath chunks
            .ok { parser with
              hunks := parser.hunks.dropLast ++ [.updateFile path movePath chunks] }
        | _ => .err (.invalidHunk (unexpectedLineMessage line) parser.lineNumber)
  | .endedPatch =>
      if trimmed = "" then .ok parser else .err (.invalidPatch lastLineMessage)

/-- One character of `push_delta`. -/
def pushChar (parser : StreamingPatchParser) (ch : Char) :
    Outcome ParseError StreamingPatchParser :=
  if ch = '\n' then
    let line := if parser.lineBuffer.getLast? = some '\r' then parser.lineBuffer.dropLast
      else parser.lineBuffer
    processLine { parser with lineBuffer := [], lineNumber := parser.lineNumber + 1 } (.ofList line)
  else .ok { parser with lineBuffer := parser.lineBuffer ++ [ch] }

/-- `push_delta`. -/
def pushDelta (parser : StreamingPatchParser) (delta : String) :
    Outcome ParseError StreamingPatchParser :=
  delta.toList.foldlM pushChar parser

/-- The last line, which no line feed ends. -/
def processLastLine (parser : StreamingPatchParser) : Outcome ParseError StreamingPatchParser :=
  if parser.lineBuffer = [] then .ok parser
  else
    let line : String := .ofList parser.lineBuffer
    let parser := { parser with lineBuffer := [], lineNumber := parser.lineNumber + 1 }
    if trim line = endPatchMarker then do
      parser.ensureUpdateHunkIsNotEmpty (trim line)
      .ok { parser with mode := .endedPatch }
    else parser.processLine line

/-- `finish`. -/
def finish (parser : StreamingPatchParser) : Outcome ParseError StreamingPatchParser := do
  let parser ← parser.processLastLine
  .require (parser.mode = .endedPatch) (.invalidPatch lastLineMessage)
  .ok parser

end StreamingPatchParser

/-! ## Patches -/

/-- `str::lines`: the text cut at each line feed, without a carriage return before it. -/
def textLines (text : String) : List String :=
  let pieces := text.toList.splitOn '\n'
  let pieces := if pieces.getLast? = some [] then pieces.dropLast else pieces
  pieces.map fun piece ↦ .ofList (if piece.getLast? = some '\r' then piece.dropLast else piece)

/-- `check_start_and_end_lines_strict` on the first and last line. -/
def checkPatchBoundariesStrict (lines : List String) : Outcome ParseError (List String) :=
  match lines.head?.map trim, lines.getLast?.map trim with
  | some first, some last =>
      if first = beginPatchMarker ∧ last = endPatchMarker then .ok lines
      else if first ≠ beginPatchMarker then .err (.invalidPatch firstLineMessage)
      else .err (.invalidPatch lastLineMessage)
  | _, _ => .err (.invalidPatch lastLineMessage)

/-- `check_patch_boundaries_lenient`: the patch may be wrapped in a here-document. -/
def checkPatchBoundariesLenient (lines : List String) : Outcome ParseError (List String) :=
  match checkPatchBoundariesStrict lines with
  | .err error =>
      match lines.head?, lines.getLast? with
      | some first, some last =>
          if first ∈ ["<<EOF", "<<'EOF'", "<<\"EOF\""] ∧ "EOF".toList.isSuffixOf last.toList ∧
              4 ≤ lines.length then
            checkPatchBoundariesStrict lines.tail.dropLast
          else .err error
      | _, _ => .err error
  | outcome => outcome

/-- `parse_patch`: the hunks of a patch and its environment. -/
def parsePatch (patch : String) : Outcome ParseError (List Hunk × Option String) := do
  let lines ← checkPatchBoundariesLenient (textLines (trim patch))
  let parser ← StreamingPatchParser.pushDelta {} ("\n".intercalate lines)
  let parser ← parser.finish
  .ok (parser.hunks, parser.environmentId)

end SpineCodex
