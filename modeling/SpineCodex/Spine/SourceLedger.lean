import SpineCodex.Spine.CharParser

/-!
# The source ledger

The append-only list of source cells of one epoch, each with a stable identity in
the namespace that was current when it was appended or last renumbered.
-/

namespace SpineCodex

/-- `SourceCellPayload`; `opaqueItem` is the source's `Opaque`. -/
inductive SourceCellPayload where
  | message (message : Message)
  | opaqueItem
  | synthetic (item : ContextItem)
  deriving Repr, DecidableEq

structure SourceCell where
  id : SourceCellId
  boundary : BoundaryId
  payload : SourceCellPayload
  item : ContextItem
  deriving DecidableEq

structure SourceLedger where
  thread : ThreadNamespace
  epoch : ContextEpoch
  cells : List SourceCell
  lastRawBoundary : Option RawBoundary
  nextOrdinal : ℕ
  deriving DecidableEq

structure SourceSnapshot where
  thread : ThreadNamespace
  epoch : ContextEpoch
  cells : List SourceCell
  deriving DecidableEq

inductive SourceLedgerError where
  | nonMonotonicBoundary (previous next : RawBoundary)
  | epochNotNext (current next : ContextEpoch)
  | epochExhausted
  | invalidContinuationPrefix (committed actual : ℕ)
  deriving Repr, DecidableEq

def sourceParts : SpineChar → SourceCellPayload × ContextItem
  | .message m => (.message m, .message m none)
  | .opaqueItem boundary => (.opaqueItem, .native (.rollout boundary))
  | .synthetic _ item => (.synthetic item, item)

/-- `SourceCell::character`: the character that a cell stands for. -/
def SourceCell.character (cell : SourceCell) : SpineChar :=
  match cell.payload with
  | .message m => .message m
  | .opaqueItem => .opaqueItem cell.boundary.ordinal
  | .synthetic item => .synthetic cell.boundary.ordinal item

/-- The cell under a new namespace and ordinal; the raw boundary stays. -/
def SourceCell.renumber (cell : SourceCell) (thread : ThreadNamespace) (epoch : ContextEpoch)
    (ordinal : ℕ) : SourceCell :=
  { cell with
    id := ⟨thread, epoch, ordinal⟩
    boundary := ⟨thread, epoch, cell.boundary.ordinal⟩ }

namespace SourceLedger

def new (thread : ThreadNamespace) (epoch : ContextEpoch) : SourceLedger where
  thread := thread
  epoch := epoch
  cells := []
  lastRawBoundary := none
  nextOrdinal := 0

def snapshot (l : SourceLedger) : SourceSnapshot := ⟨l.thread, l.epoch, l.cells⟩

/-- The cell that `append_one` makes of a character. -/
def cellOf (l : SourceLedger) (character : SpineChar) : SourceCell where
  id := ⟨l.thread, l.epoch, l.nextOrdinal⟩
  boundary := ⟨l.thread, l.epoch, character.boundary⟩
  payload := (sourceParts character).1
  item := (sourceParts character).2

/-- `append_one`.  A source boundary must be strictly above the last one. -/
def appendOne (l : SourceLedger) (character : SpineChar) : Outcome SourceLedgerError SourceLedger :=
  match l.lastRawBoundary.filter (character.boundary ≤ ·) with
  | some previous => .err (.nonMonotonicBoundary previous character.boundary)
  | none => .ok { l with
      cells := l.cells ++ [l.cellOf character]
      lastRawBoundary := some character.boundary
      nextOrdinal := l.nextOrdinal + 1 }

/-- `append`.  Characters before a rejected one stay in the ledger. -/
def append (l : SourceLedger) : List SpineChar →
    SourceLedger × Outcome SourceLedgerError (List SourceCellId)
  | [] => (l, .ok [])
  | character :: rest =>
      match l.appendOne character with
      | .ok l' =>
          let (final, result) := l'.append rest
          (final, result >>= fun ids ↦ .ok ((l.cellOf character).id :: ids))
      | .err e => (l, .err e)
      | .crash => (l, .crash)

/-- `append` for a caller that drops the ledger when it fails. -/
def appendAll (l : SourceLedger) (characters : List SpineChar) :
    Outcome SourceLedgerError SourceLedger := do
  let _ ← (l.append characters).2
  pure (l.append characters).1

def advanceEpoch (l : SourceLedger) (next : ContextEpoch) :
    Outcome SourceLedgerError SourceLedger := do
  let expected ← .okOr .epochExhausted (checkedNext l.epoch)
  .require (next = expected) (.epochNotNext l.epoch next)
  pure (new l.thread next)

/-- `continue_in_namespace`: the cells behind the committed ones move to the new namespace. -/
def continueInNamespace (l : SourceLedger) (thread : ThreadNamespace) (committedPrefix : ℕ) :
    Outcome SourceLedgerError SourceLedger :=
  if l.cells.length < committedPrefix then
    .err (.invalidContinuationPrefix committedPrefix l.cells.length)
  else if thread = l.thread then .ok l
  else
    let moved := (l.cells.drop committedPrefix).mapIdx fun k cell ↦
      cell.renumber thread l.epoch k
    .ok { l with
      thread := thread
      cells := l.cells.take committedPrefix ++ moved
      nextOrdinal := moved.length }

def currentBoundary (l : SourceLedger) : BoundaryId :=
  ⟨l.thread, l.epoch, l.lastRawBoundary.getD 0⟩

end SourceLedger

namespace SourceSnapshot

def lastBoundary (s : SourceSnapshot) : Option BoundaryId := s.cells.getLast?.map (·.boundary)

def sourceAtRawBoundary (s : SourceSnapshot) (boundary : RawBoundary) : Option SourceCell :=
  s.cells.find? (·.boundary.ordinal == boundary)

/-- `ContextPlanSource::resolve`. -/
def resolve (s : SourceSnapshot) (id : SourceCellId) : Option ContextItem :=
  (s.cells.find? (·.id == id)).map (·.item)

end SourceSnapshot

end SpineCodex
