import SpineCodex.Lib.Outcome

/-!
# Identities

Thread namespaces and the identities allocated inside them.  A namespace and a
namespaced identity carry the proof that their text passed validation, so an
identity that the code would reject cannot be built.  Counters of `u64` width
that count elements held in memory are natural numbers; the epoch, which is
advanced by a checked addition, keeps its bound.
-/

namespace SpineCodex

/-- `MAX_ID_BYTES`. -/
def maxIdBytes : ℕ := 128

inductive IdentityError where
  | emptyNamespace
  | namespaceTooLarge
  | invalidNamespace
  | unchangedForkNamespace
  | emptyId
  | idTooLarge
  | invalidId
  deriving Repr, DecidableEq

/-- The characters that an identity may contain. -/
def identityChar (c : Char) : Bool :=
  c.isAlphanum || c == '-' || c == '_' || c == '.' || c == ':'

/-- What `validate_component` accepts. -/
def ValidComponent (value : String) : Prop :=
  value ≠ "" ∧ value.utf8ByteSize ≤ maxIdBytes ∧ value.toList.all identityChar = true

instance (value : String) : Decidable (ValidComponent value) :=
  inferInstanceAs (Decidable (_ ∧ _ ∧ _))

/-- `validate_component`, with the caller's three errors. -/
def validateComponent (value : String) (empty tooLarge invalid : IdentityError) :
    Except IdentityError (PLift (ValidComponent value)) :=
  if hempty : value = "" then .error empty
  else if hlarge : value.utf8ByteSize ≤ maxIdBytes then
    if hchars : value.toList.all identityChar = true then .ok ⟨hempty, hlarge, hchars⟩
    else .error invalid
  else .error tooLarge

/-- `ThreadNamespace`. -/
structure ThreadNamespace where
  value : String
  valid : ValidComponent value
  deriving DecidableEq

def ThreadNamespace.parse (value : String) : Except IdentityError ThreadNamespace := do
  let valid ← validateComponent value .emptyNamespace .namespaceTooLarge .invalidNamespace
  pure ⟨value, valid.down⟩

def ThreadNamespace.forFork (parent : ThreadNamespace) (value : String) :
    Except IdentityError ThreadNamespace := do
  let fork ← ThreadNamespace.parse value
  if fork = parent then .error .unchangedForkNamespace else pure fork

/-- `ContextEpoch`. -/
abbrev ContextEpoch := ℕ

/-- `ContextEpoch::checked_next`: the addition is checked at 64 bits. -/
def checkedNext (epoch : ContextEpoch) : Option ContextEpoch :=
  if epoch + 1 < 2 ^ 64 then some (epoch + 1) else none

/-- The shape that `epoch_ordinal_id!` gives to three identity types. -/
structure EpochOrdinalId where
  thread : ThreadNamespace
  epoch : ContextEpoch
  ordinal : ℕ
  deriving DecidableEq

abbrev SourceCellId := EpochOrdinalId
abbrev ProjectionCellId := EpochOrdinalId
abbrev BoundaryId := EpochOrdinalId

/-- The shape that `namespaced_id!` gives to three identity types. -/
structure NamespacedId where
  thread : ThreadNamespace
  value : String
  valid : ValidComponent value
  deriving DecidableEq

def NamespacedId.parse (thread : ThreadNamespace) (value : String) :
    Except IdentityError NamespacedId := do
  let valid ← validateComponent value .emptyId .idTooLarge .invalidId
  pure ⟨thread, value, valid.down⟩

abbrev SamplingAttemptId := NamespacedId
abbrev SamplingCommitId := NamespacedId
abbrev ExecutionId := NamespacedId

/-- `AdmissionOrdinal`. -/
abbrev AdmissionOrdinal := ℕ

@[ext]
theorem NamespacedId.ext_value {a b : NamespacedId} (hthread : a.thread = b.thread)
    (hvalue : a.value = b.value) : a = b := by
  cases a
  cases b
  subst hthread
  subst hvalue
  rfl

/-- Parsing succeeds exactly on valid text, and keeps the text. -/
theorem NamespacedId.parse_eq_ok {thread : ThreadNamespace} {value : String} {id : NamespacedId} :
    NamespacedId.parse thread value = .ok id ↔
      ValidComponent value ∧ id.thread = thread ∧ id.value = value := by
  unfold NamespacedId.parse validateComponent
  split_ifs with hempty hlarge hchars
  · simp [ValidComponent, hempty, bind, Except.bind]
  · constructor
    · intro h
      cases h
      exact ⟨⟨hempty, hlarge, hchars⟩, rfl, rfl⟩
    · rintro ⟨_, hthread, hvalue⟩
      exact congrArg Except.ok (NamespacedId.ext_value hthread.symm hvalue.symm)
  · simp [ValidComponent, hchars, bind, Except.bind]
  · simp [ValidComponent, hlarge, bind, Except.bind]

end SpineCodex
