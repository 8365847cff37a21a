import SpineCodex.Lib.CommonEnds
import SpineCodex.Lib.KeyedList
import SpineCodex.Spine.CharParser
import SpineCodex.Spine.Compiler

/-!
# Context events

A host keeps the context of the model and changes it by events: a label put on one cell, or a
run of cells replaced by others.  The runtime describes the way from one parse stack to
another by a batch of events.
-/

namespace SpineCodex

inductive ContextInsert where
  | existing (cellId sourceIndex : ℕ)
  | synthetic (cellId : ℕ) (item : ContextItem)
  deriving Repr, DecidableEq

inductive ContextEvent where
  | tag (index : ℕ) (label : ContextLabel)
  | splice (start delete : ℕ) (insert : List ContextInsert)
  deriving Repr, DecidableEq

inductive ContextEventError where
  | indexOutOfBounds (index size : ℕ)
  | rangeOutOfBounds (start delete size : ℕ)
  deriving Repr, DecidableEq

inductive ContextSizePhase where
  | beforePrepare
  | beforeCommit
  deriving Repr, DecidableEq

/-- `SpineContextRuntimeError`, over the errors of the host's handler. -/
inductive SpineContextRuntimeError (E : Type) where
  | parse (error : CharParseError)
  | spine (error : SpineError)
  | contextEvent (error : ContextEventError)
  | handler (error : E)
  | contextSizeMismatch (phase : ContextSizePhase) (expected actual : ℕ)
  | missingCell (boundary : RawBoundary)
  | archivedSourceInLiveContext
  | archivedTraceHasLiveTail
  deriving Repr, DecidableEq

namespace ContextEvent

/-- The size of a context after one event. -/
def sizeAfter (size : ℕ) : ContextEvent → Outcome ContextEventError ℕ
  | .tag index _ => do
      .require (index < size) (.indexOutOfBounds index size)
      .ok size
  | .splice start delete insert => do
      .require (start + delete ≤ size) (.rangeOutOfBounds start delete size)
      .ok (size - delete + insert.length)

/-- `resulting_size`. -/
def resultingSize (initialSize : ℕ) (events : List ContextEvent) : Outcome ContextEventError ℕ :=
  events.foldlM sizeAfter initialSize

end ContextEvent

/-! ## The difference of two stacks -/

/-- `same_cell_source`. -/
def sameCellSource (left right : ParseCell) : Bool :=
  left.id = right.id ∧ left.character = right.character

/-- `position` of the cell with the given id. -/
def sourceIndex (before : List ParseCell) (id : ℕ) : Option ℕ :=
  KeyedList.index ParseCell.id before id

section Between

variable {E : Type} (before after : List ParseCell)

def commonPrefixLength : ℕ := CommonEnds.agreeing sameCellSource before.length before after

def maxSuffix : ℕ :=
  min (before.length - commonPrefixLength before after)
    (after.length - commonPrefixLength before after)

def commonSuffixLength : ℕ :=
  CommonEnds.agreeing sameCellSource (maxSuffix before after) before.reverse after.reverse

def beforeMiddleEnd : ℕ := before.length - commonSuffixLength before after

def afterMiddleEnd : ℕ := after.length - commonSuffixLength before after

/-- The insert that stands for a cell of the new stack. -/
def insertOf (cell : ParseCell) : Outcome (SpineContextRuntimeError E) ContextInsert :=
  match sourceIndex before cell.id, cell.character with
  | some index, _ => .ok (.existing cell.id index)
  | none, .synthetic _ item => .ok (.synthetic cell.id item)
  | none, character => .err (.missingCell character.boundary)

def insertsOf : List ParseCell → Outcome (SpineContextRuntimeError E) (List ContextInsert)
  | [] => .ok []
  | cell :: rest => do
      let insert ← insertOf before cell
      let inserts ← insertsOf rest
      .ok (insert :: inserts)

/-- The cells of the new stack between the common ends. -/
def afterMiddle : List ParseCell :=
  (after.take (afterMiddleEnd before after)).drop (commonPrefixLength before after)

/-- The splice of the cells between the common ends, if there are any. -/
def structuralEvents : Outcome (SpineContextRuntimeError E) (List ContextEvent) :=
  if commonPrefixLength before after ≠ beforeMiddleEnd before after ∨
      commonPrefixLength before after ≠ afterMiddleEnd before after then do
    let insert ← insertsOf before (afterMiddle before after)
    .ok [.splice (commonPrefixLength before after)
      (beforeMiddleEnd before after - commonPrefixLength before after) insert]
  else .ok []

/-- The labels that the cell at `index` has after the splice. -/
def currentLabels (index : ℕ) (target : ParseCell) : List ContextLabel :=
  if index < commonPrefixLength before after ∨ afterMiddleEnd before after ≤ index then
    (((sourceIndex before target.id).bind (before[·]?)).map ParseCell.labels).getD []
  else []

/-- Labels are only ever added, so that a cell with other labels is first replaced by its
unlabelled source. -/
def resetEvents (index : ℕ) (target : ParseCell) : List ContextEvent :=
  match sourceIndex before target.id with
  | some source =>
      if currentLabels before after index target ≠ [] then
        [.splice index 1 [.existing target.id source]]
      else []
  | none => []

/-- The events that give one cell its labels. -/
def labelEvents (index : ℕ) (target : ParseCell) : List ContextEvent :=
  if currentLabels before after index target = target.labels then []
  else resetEvents before after index target ++ target.labels.map (.tag index)

/-- `context_events_between`. -/
def contextEventsBetween : Outcome (SpineContextRuntimeError E) (List ContextEvent) := do
  let events ← structuralEvents before after
  .ok (events ++ after.zipIdx.flatMap fun cell ↦ labelEvents before after cell.2 cell.1)

end Between

end SpineCodex
