import SpineCodex.Lib.Splices
import SpineCodex.Patch.Parser

/-!
# Updates of one file

A file is a list of lines that keep their endings.  The chunks of an update are located one
after the other, each is split at its context lines into replacements, and the replacements
are carried out in one pass over the lines.
-/

namespace SpineCodex

/-! ## Lines and their endings -/

inductive LineEnding where
  | lf
  | crLf
  | cr
  deriving Repr, DecidableEq

def LineEnding.chars : LineEnding → List Char
  | .lf => ['\n']
  | .crLf => ['\r', '\n']
  | .cr => ['\r']

structure SourceLine where
  text : String
  ending : Option LineEnding
  deriving Repr, DecidableEq

structure SourceFile where
  lines : List SourceLine
  preferredEnding : LineEnding
  deriving Repr, DecidableEq

/-- The first line, the number of lines, and the texts that replace them. -/
abbrev Replacement := Splice String

namespace SourceFile

/-- The lines of the rest of a file, of which `start` was read since the last line ending. -/
def parseLines (start : List Char) : List Char → List SourceLine
  | [] => if start = [] then [] else [⟨.ofList start, none⟩]
  | '\r' :: '\n' :: rest => ⟨.ofList start, some .crLf⟩ :: parseLines [] rest
  | '\r' :: rest => ⟨.ofList start, some .cr⟩ :: parseLines [] rest
  | '\n' :: rest => ⟨.ofList start, some .lf⟩ :: parseLines [] rest
  | c :: rest => parseLines (start ++ [c]) rest

/-- `parse`: the first line ending is the preferred one. -/
def parse (contents : String) : SourceFile :=
  let lines := parseLines [] contents.toList
  ⟨lines, (lines.findSome? SourceLine.ending).getD .lf⟩

def lineTexts (file : SourceFile) : List String := file.lines.map SourceLine.text

/-- The pass of `apply_replacements` over the lines from `sourceIndex` on. -/
def replaceLines (preferred : LineEnding) (sourceIndex : ℕ) (lines : List SourceLine) :
    List Replacement → List SourceLine
  | [] => lines
  | (start, oldLen, segment) :: rest =>
      lines.take (start - sourceIndex) ++ segment.map (⟨·, some preferred⟩) ++
        replaceLines preferred (start + oldLen) ((lines.drop (start - sourceIndex)).drop oldLen) rest

/-- A line without ending gets the preferred one. -/
def terminate (preferred : LineEnding) (line : SourceLine) : SourceLine :=
  { line with ending := some (line.ending.getD preferred) }

/-- `apply_replacements`. -/
def applyReplacements (file : SourceFile) (replacements : List Replacement) : SourceFile :=
  { file with
    lines := (replaceLines file.preferredEnding 0 file.lines replacements).map
      (terminate file.preferredEnding) }

def lineChars (line : SourceLine) : List Char :=
  line.text.toList ++ (line.ending.map LineEnding.chars).getD []

/-- `into_contents`. -/
def intoContents (file : SourceFile) : String := .ofList (file.lines.flatMap lineChars)

end SourceFile

/-! ## Finding a sequence of lines -/

/-- The typographic characters that are read as their ASCII counterparts. -/
def normaliseChar (c : Char) : Char :=
  let n := c.toNat
  if (0x2010 ≤ n ∧ n ≤ 0x2015) ∨ n = 0x2212 then '-'
  else if 0x2018 ≤ n ∧ n ≤ 0x201b then '\x27'
  else if 0x201c ≤ n ∧ n ≤ 0x201f then '"'
  else if n = 0xa0 ∨ (0x2002 ≤ n ∧ n ≤ 0x200a) ∨ n = 0x202f ∨ n = 0x205f ∨ n = 0x3000 then ' '
  else c

def normalise (text : String) : String := .ofList ((trim text).toList.map normaliseChar)

/-- The readings of a line under which lines are compared, from strict to lenient. -/
def lineReadings : List (String → String) := [id, trimEnd, trim, normalise]

/-- `pattern` stands in `lines` at `start`, as far as `read` can tell. -/
def MatchesAt (read : String → String) (lines pattern : List String) (start : ℕ) : Prop :=
  ((lines.drop start).take pattern.length).map read = pattern.map read

instance (read : String → String) (lines pattern : List String) (start : ℕ) :
    Decidable (MatchesAt read lines pattern start) := inferInstanceAs (Decidable (_ = _))

/-- `seek_sequence`. -/
def seekSequence (lines pattern : List String) (start : ℕ) (eof : Bool) : Option ℕ :=
  if pattern = [] then some start
  else if lines.length < pattern.length then none
  else
    let last := lines.length - pattern.length
    let searchStart := if eof then max last start else start
    lineReadings.findSome? fun read ↦
      (List.range' searchStart (last + 1 - searchStart)).find? fun i ↦
        MatchesAt read lines pattern i

/-! ## Replacements -/

inductive UpdateError where
  | contextNotFound (context path : String)
  | linesNotFound (path : String) (oldLines : List String)
  deriving Repr, DecidableEq

/-- The text of a `ComputeReplacements` error. -/
def UpdateError.display : UpdateError → String
  | .contextNotFound context path => "Failed to find context '" ++ context ++ "' in " ++ path
  | .linesNotFound path oldLines =>
      "Failed to find expected lines in " ++ path ++ ":\n" ++ "\n".intercalate oldLines

/-- Where the old lines of a chunk were found: without the last of them and without the
last new line if both are empty and the lines were not found as they are. -/
structure Located where
  start : ℕ
  pattern : List String
  newSlice : List String
  retried : Bool
  deriving Repr, DecidableEq

/-- The text without a last line that is empty. -/
def dropEmptyLast (lines : List String) : List String :=
  if lines.getLast? = some "" then lines.dropLast else lines

def locateLines (originalLines : List String) (lineIndex : ℕ) (chunk : UpdateFileChunk) :
    Option Located :=
  match seekSequence originalLines chunk.oldLines lineIndex chunk.isEndOfFile with
  | some start => some ⟨start, chunk.oldLines, chunk.newLines, false⟩
  | none =>
      if chunk.oldLines.getLast? = some "" then
        (seekSequence originalLines chunk.oldLines.dropLast lineIndex chunk.isEndOfFile).map
          fun start ↦ ⟨start, chunk.oldLines.dropLast, dropEmptyLast chunk.newLines, true⟩
      else none

/-- The replacement of the lines that follow the last context line. -/
def lastReplacement (at_ : Located) (oldStart newStart : ℕ) : List Replacement :=
  if oldStart ≠ at_.pattern.length ∨ newStart ≠ at_.newSlice.length then
    [(at_.start + oldStart, at_.pattern.length - oldStart, at_.newSlice.drop newStart)]
  else []

/-- The replacements of the lines between the context lines.  The indices of the context
lines of a parsed chunk increase, so that no subtraction is cut off. -/
def splitReplacements (at_ : Located) (oldStart newStart : ℕ) : List (ℕ × ℕ) → List Replacement
  | [] => lastReplacement at_ oldStart newStart
  | (oldContext, newContext) :: rest =>
      if at_.pattern.length ≤ oldContext ∨ at_.newSlice.length ≤ newContext then
        lastReplacement at_ oldStart newStart
      else
        (if oldStart ≠ oldContext ∨ newStart ≠ newContext then
          [(at_.start + oldStart, oldContext - oldStart,
            (at_.newSlice.take newContext).drop newStart)] else []) ++
        splitReplacements at_ (oldContext + 1) (newContext + 1) rest

/-- The line from which the old lines of a chunk are searched. -/
def seekContext (originalLines : List String) (path : String) (lineIndex : ℕ)
    (chunk : UpdateFileChunk) : Outcome UpdateError ℕ :=
  match chunk.changeContext with
  | none => .ok lineIndex
  | some context =>
      match seekSequence originalLines [context] lineIndex false with
      | some index => .ok (index + 1)
      | none => .err (.contextNotFound context path)

/-- The location of one chunk, and the line from which the next one is searched. -/
def locateChunk (originalLines : List String) (path : String) (lineIndex : ℕ)
    (chunk : UpdateFileChunk) : Outcome UpdateError (Located × ℕ) := do
  let lineIndex ← seekContext originalLines path lineIndex chunk
  if chunk.oldLines = [] then
    .ok (⟨originalLines.length, [], chunk.newLines, false⟩, lineIndex)
  else match locateLines originalLines lineIndex chunk with
    | some found => .ok (found, found.start + found.pattern.length)
    | none => .err (.linesNotFound path chunk.oldLines)

def locateChunks (originalLines : List String) (path : String) (lineIndex : ℕ) :
    List UpdateFileChunk → Outcome UpdateError (List (UpdateFileChunk × Located))
  | [] => .ok []
  | chunk :: rest => do
      let (found, lineIndex) ← locateChunk originalLines path lineIndex chunk
      let located ← locateChunks originalLines path lineIndex rest
      .ok ((chunk, found) :: located)

/-- The replacements of one located chunk. -/
def chunkReplacements (located : UpdateFileChunk × Located) : List Replacement :=
  if located.1.oldLines = [] then [(located.2.start, 0, located.1.newLines)]
  else splitReplacements located.2 0 0 located.1.contextLineIndices

/-- `compute_replacements`; `sort_by_key` is a stable sort by the first line. -/
def computeReplacements (originalLines : List String) (path : String)
    (chunks : List UpdateFileChunk) : Outcome UpdateError (List Replacement) := do
  let located ← locateChunks originalLines path 0 chunks
  .ok (sortSplices (located.flatMap chunkReplacements))

/-- `derive_new_contents_from_chunks` on the contents it read. -/
def deriveNewContents (path contents : String) (chunks : List UpdateFileChunk) :
    Outcome UpdateError String := do
  let file := SourceFile.parse contents
  let replacements ← computeReplacements file.lineTexts path chunks
  .ok (file.applyReplacements replacements).intoContents

end SpineCodex
