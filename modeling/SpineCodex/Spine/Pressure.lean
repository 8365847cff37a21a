import SpineCodex.Spine.Model

/-!
# Input pressure

The input tokens that the provider reported last, with one checkpoint for every open task.
-/

namespace SpineCodex

/-- `InputPressureState`. -/
structure InputPressureState where
  current : Option ℕ
  openCheckpoints : List (Option ℕ)
  deriving Repr, DecidableEq

namespace InputPressureState

def default : InputPressureState := ⟨none, []⟩

/-- The effect of one operation; the last checkpoint is at the end of the list. -/
def applyOperation (s : InputPressureState) : SpineOperationFact → InputPressureState
  | .openNode _ => { s with openCheckpoints := s.openCheckpoints ++ [s.current] }
  | .closeNode _ =>
      match s.openCheckpoints.getLast? with
      | some checkpoint => ⟨checkpoint, s.openCheckpoints.dropLast⟩
      | none => s
  | .nextNode _ _ =>
      let checkpoint := s.openCheckpoints.getLast?.getD s.current
      ⟨checkpoint, s.openCheckpoints.dropLast ++ [checkpoint]⟩
  | .spawn _ _ => s

def applySampling (s : InputPressureState) (inputTokens : Option ℕ)
    (operations : List SpineOperationFact) : InputPressureState :=
  operations.foldl applyOperation { s with current := inputTokens }

def compact (_ : InputPressureState) : InputPressureState := ⟨none, []⟩

end InputPressureState

end SpineCodex
