import SpineCodex.Spine.Compiler
import SpineCodex.Spine.Serialize

/-!
# Compact barriers

A compaction ends one epoch at a boundary and names the boundaries of the opaque items
that start the next one.
-/

namespace SpineCodex

open Json (array number)

def compactBarrierSchemaV1 : String := "spine.compact.barrier.v1"
def maxCompactReplacementBytes : ℕ := maxRawEventBytes

/-- `SpineCompactBarrierV1`, without the replacement digest, which nothing reads. -/
structure SpineCompactBarrierV1 where
  schema : String
  thread : ThreadNamespace
  previousEpoch : ContextEpoch
  nextEpoch : ContextEpoch
  boundary : RawBoundary
  replacementBoundaries : List RawBoundary
  deriving DecidableEq

/-- `ReplayError::InvalidCompactBarrier` with its reason. -/
inductive CompactBarrierError where
  | invalid (reason : String)
  deriving Repr, DecidableEq

/-- The `Display` text of the error. -/
def CompactBarrierError.text : CompactBarrierError → String
  | .invalid reason => "invalid compact barrier: " ++ reason

namespace SpineCompactBarrierV1

/-- The replacement boundaries are strictly ordered and all behind the compact boundary. -/
def Ordered (barrier : SpineCompactBarrierV1) : Prop :=
  barrier.replacementBoundaries.IsChain (· < ·) ∧
    ∀ first ∈ barrier.replacementBoundaries.head?, barrier.boundary < first

instance (barrier : SpineCompactBarrierV1) : Decidable barrier.Ordered :=
  inferInstanceAs (Decidable (_ ∧ _))

def validate (barrier : SpineCompactBarrierV1) : Outcome CompactBarrierError Unit := do
  .require (barrier.schema = compactBarrierSchemaV1) (.invalid "unsupported schema")
  .require (checkedNext barrier.previousEpoch = some barrier.nextEpoch)
    (.invalid "compact epoch must advance exactly once")
  .require barrier.Ordered (.invalid "replacement boundaries must be ordered after compact")
  .require ((array (barrier.replacementBoundaries.map number)).byteSize ≤
    maxCompactReplacementBytes) (.invalid "replacement history exceeds the bounded payload")

/-- `new`. -/
def new (thread : ThreadNamespace) (previousEpoch nextEpoch : ContextEpoch) (boundary : RawBoundary)
    (replacementBoundaries : List RawBoundary) :
    Outcome CompactBarrierError SpineCompactBarrierV1 := do
  let barrier := ⟨compactBarrierSchemaV1, thread, previousEpoch, nextEpoch, boundary,
    replacementBoundaries⟩
  barrier.validate
  pure barrier

end SpineCompactBarrierV1

end SpineCodex
