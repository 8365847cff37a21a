import SpineCodex.Spine.Replay

/-!
# Replay, one input at a time

The replay collects source characters and appends them to the ledger before the next
record.  Appending each of them at once gives the same result.
-/

namespace SpineCodex

namespace SourceLedger

/-- Appending a list is appending its characters one by one. -/
theorem appendAll_eq_foldlM (l : SourceLedger) (characters : List SpineChar) :
    l.appendAll characters = characters.foldlM appendOne l := by
  induction characters generalizing l with
  | nil => rfl
  | cons character rest ih =>
    rw [List.foldlM_cons, appendAll, append]
    cases h : l.appendOne character with
    | ok l' =>
      rw [Outcome.ok_bind, ← ih l', appendAll]
      cases hrest : (l'.append rest).2 <;> simp [hrest]
    | err e => rfl
    | crash => rfl

theorem appendAll_append (l : SourceLedger) (xs ys : List SpineChar) :
    l.appendAll (xs ++ ys) = l.appendAll xs >>= fun l ↦ l.appendAll ys := by
  rw [appendAll_eq_foldlM, appendAll_eq_foldlM, List.foldlM_append]
  congr 1
  funext l'
  rw [appendAll_eq_foldlM]

end SourceLedger

namespace ReplayState

/-- The effect of one input. -/
def applyInput (s : ReplayState) : ReplayInput → Outcome ReplayError ReplayState
  | .source character => s.flushSource [character]
  | .archive record => s.applyArchive record
  | .compact barrier => s.applyCompact barrier
  | .usage sample => .ok { s with usageSamples := s.usageSamples ++ [sample] }

theorem flushSource_nil (s : ReplayState) : s.flushSource [] = .ok s := rfl

theorem flushSource_append (s : ReplayState) (xs ys : List SpineChar) :
    s.flushSource (xs ++ ys) = s.flushSource xs >>= fun s ↦ s.flushSource ys := by
  unfold flushSource
  rw [SourceLedger.appendAll_append]
  cases h : s.source.appendAll xs with
  | ok l => simp
  | err e => rfl
  | crash => rfl

theorem applyInputs_eq (s : ReplayState) (pendingSource : List SpineChar)
    (input : List ReplayInput) :
    s.applyInputs pendingSource input =
      s.flushSource pendingSource >>= fun s ↦ input.foldlM applyInput s := by
  induction input generalizing s pendingSource with
  | nil =>
    simp only [applyInputs, List.foldlM_nil]
    cases s.flushSource pendingSource <;> rfl
  | cons item rest ih =>
    cases item with
    | source character =>
      rw [applyInputs, ih, flushSource_append, bind_assoc]
      rfl
    | archive record =>
      simp only [applyInputs, ih, flushSource_nil, Outcome.ok_bind, List.foldlM_cons, applyInput]
    | compact barrier =>
      simp only [applyInputs, ih, flushSource_nil, Outcome.ok_bind, List.foldlM_cons, applyInput]
    | usage sample =>
      simp only [applyInputs, ih, flushSource_nil, Outcome.ok_bind, List.foldlM_cons, applyInput]

end ReplayState

/-- Replay folds the inputs over the initial state. -/
theorem CanonicalReplay.prepare_eq (r : CanonicalReplay) (input : List ReplayInput) :
    r.prepare input =
      input.foldlM ReplayState.applyInput (.initial r.thread) >>= fun s ↦
        s.finish r.runtimeConfig := by
  rw [prepare, ReplayState.applyInputs_eq, ReplayState.flushSource_nil, Outcome.ok_bind]

end SpineCodex
