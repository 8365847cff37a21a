import SpineCodex.Replay.Eager

/-!
# Replay in chunks

A host may hand the log to `CanonicalReplayBuilder` in consecutive chunks.  The builder flushes
the source characters it waits with at the end of every chunk, so a cut inside a run of source
characters changes when they enter the ledger.  Inputs carry their position in the log here, to
say which of them an error is about.
-/

namespace SpineCodex

/-- `append`, for characters that carry their position in the log. -/
def SourceLedger.appendAt (l : SourceLedger) :
    List (ℕ × SpineChar) → Outcome (ℕ × SourceLedgerError) SourceLedger
  | [] => .ok l
  | (position, character) :: rest => do
      let l ← (l.appendOne character).mapErr (position, ·)
      l.appendAt rest

theorem SourceLedger.appendAt_eq_foldlM (l : SourceLedger) (characters : List (ℕ × SpineChar)) :
    l.appendAt characters =
      characters.foldlM (fun l c ↦ (l.appendOne c.2).mapErr (c.1, ·)) l := by
  induction characters generalizing l with
  | nil => rfl
  | cons c rest ih =>
    rw [appendAt, List.foldlM_cons]
    congr 1
    funext l'
    exact ih l'

/-- `CanonicalReplayBuilder`. -/
structure CanonicalReplayBuilder where
  config : SpineConfig
  state : ReplayState
  deriving DecidableEq

namespace ReplayState

/-- `flushSource`, for characters that carry their position in the log. -/
def flushSourceAt (s : ReplayState) (characters : List (ℕ × SpineChar)) :
    Outcome (ℕ × ReplayError) ReplayState := do
  let source ← (s.source.appendAt characters).mapErr fun e ↦ (e.1, .source e.2)
  pure { s with source := source }

/-- `CanonicalReplayBuilder::apply` from the input at `position` on.  An error names the input it
is about: the rejected character of a flushed run, or the record that was applied. -/
def applyInputsAt (s : ReplayState) (pendingSource : List (ℕ × SpineChar)) (position : ℕ) :
    List ReplayInput → Outcome (ℕ × ReplayError) ReplayState
  | [] => s.flushSourceAt pendingSource
  | .source character :: rest =>
      applyInputsAt s (pendingSource ++ [(position, character)]) (position + 1) rest
  | .archive record :: rest => do
      let s ← s.flushSourceAt pendingSource
      let s ← (s.applyArchive record).mapErr (position, ·)
      applyInputsAt s [] (position + 1) rest
  | .compact barrier :: rest => do
      let s ← s.flushSourceAt pendingSource
      let s ← (s.applyCompact barrier).mapErr (position, ·)
      applyInputsAt s [] (position + 1) rest
  | .usage sample :: rest => do
      let s ← s.flushSourceAt pendingSource
      applyInputsAt { s with usageSamples := s.usageSamples ++ [sample] } [] (position + 1) rest

/-- The inputs one at a time, each with its position. -/
def applyEachAt (s : ReplayState) (position : ℕ) :
    List ReplayInput → Outcome (ℕ × ReplayError) ReplayState
  | [] => .ok s
  | item :: rest => do
      let s ← (s.applyInput item).mapErr (position, ·)
      applyEachAt s (position + 1) rest

end ReplayState

/-! ## Positions are only a record -/

theorem SourceLedger.appendAt_forget (l : SourceLedger) (characters : List (ℕ × SpineChar)) :
    (l.appendAt characters).mapErr Prod.snd = l.appendAll (characters.map Prod.snd) := by
  rw [appendAll_eq_foldlM]
  induction characters generalizing l with
  | nil => rfl
  | cons c rest ih =>
    rw [appendAt, List.map_cons, List.foldlM_cons, Outcome.mapErr_bind, Outcome.mapErr_mapErr]
    calc
      (l.appendOne c.2).mapErr (Prod.snd ∘ fun e ↦ (c.1, e)) >>=
            (fun l' ↦ (l'.appendAt rest).mapErr Prod.snd) =
          l.appendOne c.2 >>= fun l' ↦ (l'.appendAt rest).mapErr Prod.snd := by
        rw [show (Prod.snd ∘ fun e : SourceLedgerError ↦ (c.1, e)) = id from rfl, Outcome.mapErr_id]
      _ = l.appendOne c.2 >>= fun l' ↦ (rest.map Prod.snd).foldlM appendOne l' := by
        simp only [ih]

namespace ReplayState

theorem flushSourceAt_forget (s : ReplayState) (characters : List (ℕ × SpineChar)) :
    (s.flushSourceAt characters).mapErr Prod.snd = s.flushSource (characters.map Prod.snd) := by
  rw [flushSource, ← SourceLedger.appendAt_forget, flushSourceAt]
  cases s.source.appendAt characters <;> rfl

/-- A call that is applied at a position fails with its own error. -/
theorem mapErr_at_forget (position : ℕ) (x : Outcome ReplayError ReplayState) :
    (x.mapErr (position, ·)).mapErr Prod.snd = x := by
  cases x <;> rfl

/-- Without the positions, this is the model of `apply`. -/
theorem applyInputsAt_forget (s : ReplayState) (pendingSource : List (ℕ × SpineChar))
    (position : ℕ) (input : List ReplayInput) :
    (s.applyInputsAt pendingSource position input).mapErr Prod.snd =
      s.applyInputs (pendingSource.map Prod.snd) input := by
  induction input generalizing s pendingSource position with
  | nil => exact flushSourceAt_forget s pendingSource
  | cons item rest ih =>
    cases item with
    | source character =>
      rw [applyInputsAt, ih, List.map_append]
      rfl
    | archive record =>
      simp only [applyInputsAt, applyInputs, Outcome.mapErr_bind, flushSourceAt_forget,
        mapErr_at_forget, ih, List.map_nil]
    | compact barrier =>
      simp only [applyInputsAt, applyInputs, Outcome.mapErr_bind, flushSourceAt_forget,
        mapErr_at_forget, ih, List.map_nil]
    | usage sample =>
      simp only [applyInputsAt, applyInputs, Outcome.mapErr_bind, flushSourceAt_forget, ih,
        List.map_nil]

/-! ## The pending characters may enter the ledger early -/

theorem flushSourceAt_nil (s : ReplayState) : s.flushSourceAt [] = .ok s := rfl

theorem flushSourceAt_append (s : ReplayState) (xs ys : List (ℕ × SpineChar)) :
    s.flushSourceAt (xs ++ ys) = s.flushSourceAt xs >>= fun s ↦ s.flushSourceAt ys := by
  simp only [flushSourceAt, SourceLedger.appendAt_eq_foldlM, List.foldlM_append]
  cases List.foldlM (fun l (c : ℕ × SpineChar) ↦ (l.appendOne c.2).mapErr (c.1, ·))
    s.source xs <;> rfl

/-- Flushing one character is applying it as an input. -/
theorem flushSourceAt_singleton (s : ReplayState) (position : ℕ) (character : SpineChar) :
    s.flushSourceAt [(position, character)] =
      (s.applyInput (.source character)).mapErr (position, ·) := by
  rw [applyInput, flushSource, flushSourceAt, SourceLedger.appendAll_eq_foldlM,
    SourceLedger.appendAt]
  simp only [List.foldlM_cons, List.foldlM_nil]
  cases s.source.appendOne character <;> rfl

theorem applyInputsAt_eq (s : ReplayState) (pendingSource : List (ℕ × SpineChar)) (position : ℕ)
    (input : List ReplayInput) :
    s.applyInputsAt pendingSource position input =
      s.flushSourceAt pendingSource >>= fun s ↦ s.applyEachAt position input := by
  induction input generalizing s pendingSource position with
  | nil =>
    simp only [applyInputsAt, applyEachAt]
    cases s.flushSourceAt pendingSource <;> rfl
  | cons item rest ih =>
    cases item with
    | source character =>
      simp only [applyInputsAt, ih, flushSourceAt_append, bind_assoc, flushSourceAt_singleton,
        applyEachAt]
    | archive record =>
      simp only [applyInputsAt, ih, flushSourceAt_nil, Outcome.ok_bind, applyEachAt, applyInput]
    | compact barrier =>
      simp only [applyInputsAt, ih, flushSourceAt_nil, Outcome.ok_bind, applyEachAt, applyInput]
    | usage sample =>
      simp only [applyInputsAt, ih, flushSourceAt_nil, Outcome.ok_bind, applyEachAt, applyInput,
        Outcome.mapErr_ok]

theorem applyEachAt_append (s : ReplayState) (position : ℕ) (xs ys : List ReplayInput) :
    s.applyEachAt position (xs ++ ys) =
      s.applyEachAt position xs >>= fun s ↦ s.applyEachAt (position + xs.length) ys := by
  induction xs generalizing s position with
  | nil => rfl
  | cons item rest ih =>
    have hlength : position + 1 + rest.length = position + (item :: rest).length := by
      rw [List.length_cons]
      omega
    simp only [List.cons_append, applyEachAt, ih, bind_assoc, hlength]

end ReplayState

namespace CanonicalReplayBuilder

/-- `apply`, for inputs that start at a position of the log. -/
def apply (b : CanonicalReplayBuilder) (position : ℕ) (input : List ReplayInput) :
    Outcome (ℕ × ReplayError) CanonicalReplayBuilder := do
  let state ← b.state.applyInputsAt [] position input
  pure { b with state := state }

/-- A host that recovers from consecutive chunks and stops at the first error. -/
def applyChunks (b : CanonicalReplayBuilder) (position : ℕ) :
    List (List ReplayInput) → Outcome (ℕ × ReplayError) CanonicalReplayBuilder
  | [] => .ok b
  | chunk :: chunks => do
      let b ← b.apply position chunk
      b.applyChunks (position + chunk.length) chunks

/-- `finish`. -/
def finish (b : CanonicalReplayBuilder) : Outcome ReplayError PreparedReplay :=
  b.state.finish b.config

theorem apply_eq (b : CanonicalReplayBuilder) (position : ℕ) (input : List ReplayInput) :
    b.apply position input =
      b.state.applyEachAt position input >>= fun state ↦ .ok { b with state := state } := by
  rw [apply, ReplayState.applyInputsAt_eq, ReplayState.flushSourceAt_nil, Outcome.ok_bind]
  rfl

theorem apply_append (b : CanonicalReplayBuilder) (position : ℕ) (xs ys : List ReplayInput) :
    b.apply position (xs ++ ys) =
      b.apply position xs >>= fun b ↦ b.apply (position + xs.length) ys := by
  simp only [apply_eq, ReplayState.applyEachAt_append, bind_assoc, Outcome.ok_bind]

theorem applyChunks_eq_apply (b : CanonicalReplayBuilder) (position : ℕ)
    (chunks : List (List ReplayInput)) :
    b.applyChunks position chunks = b.apply position chunks.flatten := by
  induction chunks generalizing b position with
  | nil => rfl
  | cons chunk chunks ih =>
    calc
      b.applyChunks position (chunk :: chunks) =
          b.apply position chunk >>= fun b ↦ b.applyChunks (position + chunk.length) chunks := rfl
      _ = b.apply position chunk >>= fun b ↦ b.apply (position + chunk.length) chunks.flatten := by
        simp only [ih]
      _ = b.apply position (chunk :: chunks).flatten := by
        rw [List.flatten_cons, apply_append]

end CanonicalReplayBuilder

namespace CanonicalReplay

/-- `builder`. -/
def builder (r : CanonicalReplay) : CanonicalReplayBuilder := ⟨r.runtimeConfig, .initial r.thread⟩

/-- `prepare` is one call of `apply` and then `finish`. -/
theorem prepare_eq_builder (r : CanonicalReplay) (input : List ReplayInput) :
    r.prepare input =
      (r.builder.apply 0 input).mapErr Prod.snd >>= CanonicalReplayBuilder.finish := by
  have hforget := ReplayState.applyInputsAt_forget (.initial r.thread) [] 0 input
  rw [prepare, CanonicalReplayBuilder.apply, builder]
  rw [List.map_nil] at hforget
  rw [← hforget]
  cases ReplayState.applyInputsAt (.initial r.thread) [] 0 input <;> rfl

end CanonicalReplay

/-- However a log is cut into consecutive chunks, a builder that applies them one after the other
ends in the same state, or with the same error about the same input, as a builder that applies the
whole log; and recovery from the chunks is `prepare`. -/
theorem replay_chunk_invariant (chunks : List (List ReplayInput)) :
    (∀ b : CanonicalReplayBuilder, b.applyChunks 0 chunks = b.apply 0 chunks.flatten) ∧
      ∀ r : CanonicalReplay,
        ((r.builder.applyChunks 0 chunks).mapErr Prod.snd >>= CanonicalReplayBuilder.finish) =
          r.prepare chunks.flatten := by
  refine ⟨fun b ↦ b.applyChunks_eq_apply 0 chunks, fun r ↦ ?_⟩
  rw [CanonicalReplayBuilder.applyChunks_eq_apply, CanonicalReplay.prepare_eq_builder]

end SpineCodex
