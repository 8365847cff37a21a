import SpineCodex.Kernel.Ledger
import SpineCodex.Runtime.Atomicity

/-!
# What a call of the runtime can do

Every call by a host in one namespace has one of nine effects on the planner, the counters
and the log; a tenth one moves the runtime to another namespace.  Invariants of runs are
proved effect by effect.
-/

namespace SpineCodex

namespace Host

open SamplingRuntime

/-- The effects of a call. -/
inductive Effect (host : Host) : Host → Prop
  | silent {rt' : SamplingRuntime} {handles : List SamplingHandle}
      {prepared : List PreparedSamplingCommit} (hplanner : rt'.planner = host.runtime.planner)
      (hstate : BatchKept host.runtime.state rt'.state)
      (hattempt : host.runtime.nextAttempt ≤ rt'.nextAttempt)
      (hcommit : rt'.nextCommit = host.runtime.nextCommit) (hhandles : handles ⊆ host.handles)
      (hprepared : prepared.Sublist host.prepared) : Effect host ⟨rt', handles, prepared, host.log⟩
  | observed {accepted : List SpineChar} {source : SourceLedger}
      (hstate : ∀ attemptId commitId, host.runtime.state ≠ .prepared attemptId commitId)
      (happend : host.runtime.planner.source.appendAll accepted = .ok source) :
      Effect host { host with
        runtime := { host.runtime with planner := { host.runtime.planner with source := source } }
        log := host.log ++ accepted.map .source }
  | began (attemptId : SamplingAttemptId) (hbegin : CanBegin host.runtime attemptId) :
      Effect host { host with
        runtime := host.runtime.begun attemptId
        handles := host.handles ++ [⟨⟨attemptId, host.runtime.planner.source.epoch,
          host.runtime.planner.source.currentBoundary⟩, host.runtime.sinks.length⟩] }
  | started {handle : SamplingHandle} {batch : SamplingExecutionBatch}
      (hmem : handle ∈ host.handles) (hstate : host.runtime.state = .active batch)
      (hattempt : batch.attemptId = handle.attempt.attemptId) (hstarted : batch.started = false)
      (hvalid : (SamplingArchiveRecord.samplingStarted
        (host.runtime.startedRecord handle.attempt)).validate = .ok ()) :
      Effect host { host with
        runtime := { host.runtime with state := .active { batch with started := true } }
        log := host.log ++
          [.archive (.samplingStarted (host.runtime.startedRecord handle.attempt))] }
  | released {rt' : SamplingRuntime} {handles : List SamplingHandle} {handle : SamplingHandle}
      (hactive : ActiveHandle host.runtime handle) (h : Released host.runtime rt' handle.sink)
      (hhandles : handles ⊆ host.handles) : Effect host ⟨rt', handles, host.prepared, host.log⟩
  | prepared {rt' : SamplingRuntime} {handles : List SamplingHandle} {handle : SamplingHandle}
      {batch : SamplingExecutionBatch} {facts : List ExecutedSpineFact}
      {commitId : SamplingCommitId} {q : SamplingPlanner} {commit : PreparedSamplingCommit}
      {inputTokens : Option ℕ} (hmem : handle ∈ host.handles)
      (hstate : host.runtime.state = .active batch)
      (hattempt : batch.attemptId = handle.attempt.attemptId) (hstarted : batch.started = true)
      (hthread : commitId.thread = host.runtime.planner.source.thread)
      (hvalue : commitId.value =
        commitIdText host.runtime.planner.source.thread host.runtime.nextCommit)
      (hprepare : host.runtime.planner.prepareSampling ⟨handle.attempt, facts⟩
        (host.runtime.postBoundary handle) commitId inputTokens = .ok (q, commit))
      (hframe : rt' = { host.runtime with
        planner := { host.runtime.planner with activeAttempt := none }
        nextCommit := host.runtime.nextCommit + 1
        state := .prepared handle.attempt.attemptId commitId
        sinks := rt'.sinks })
      (hhandles : handles ⊆ host.handles) :
      Effect host ⟨rt', handles, host.prepared ++ [commit], host.log⟩
  | installed {commit : PreparedSamplingCommit} {q : SamplingPlanner}
      (hmem : commit ∈ host.prepared) (hmatch : host.runtime.MatchesPending commit)
      (hinstall : host.runtime.planner.installPrepared commit = .ok q) :
      Effect host { host with
        runtime := { host.runtime with planner := q, state := .idle }
        prepared := host.prepared.erase commit
        log := host.log ++ [.archive (.samplingCommit commit.record)] }
  | discarded {attemptId : SamplingAttemptId} {commitId : SamplingCommitId}
      (hstate : host.runtime.state = .prepared attemptId commitId) :
      Effect host { host with runtime := { host.runtime with state := .idle } }
  | compacted {barrier : SpineCompactBarrierV1} {q : SamplingPlanner} {projection : SpineProjection}
      (hstate : host.runtime.state = .idle)
      (hcompact : host.runtime.planner.compact barrier = .ok (q, projection)) :
      Effect host { host with
        runtime := { host.runtime with planner := q }
        log := host.log ++ [.compact barrier] }

/-- The host after the runtime went on in another namespace. -/
structure Moved (host : Host) (thread : ThreadNamespace) (q : SamplingPlanner) (host' : Host) :
    Prop where
  idle : host.runtime.state = .idle
  thread_ne : host.runtime.planner.source.thread ≠ thread
  continue_eq : host.runtime.planner.continueInNamespace thread = .ok q
  frame : host' = { host with
    runtime := { host.runtime with planner := q, nextAttempt := 0, nextCommit := 0 } }

/-- A call that changes nothing but the lists of the host. -/
theorem Effect.same (host : Host) {handles : List SamplingHandle}
    {prepared : List PreparedSamplingCommit} (hhandles : handles ⊆ host.handles)
    (hprepared : prepared.Sublist host.prepared) :
    Effect host ⟨host.runtime, handles, prepared, host.log⟩ :=
  .silent rfl (.refl _) (le_refl _) rfl hhandles hprepared

theorem Effect.observe (host : Host) (characters : List SpineChar) :
    Effect host (host.perform (.observe characters)) := by
  unfold perform
  dsimp only
  by_cases hstate : ∃ attemptId commitId, host.runtime.state = .prepared attemptId commitId
  · obtain ⟨attemptId, commitId, hstate⟩ := hstate
    simp only [SamplingRuntime.observeSource, hstate, Nat.sub_self, List.take_zero, List.map_nil,
      List.append_nil]
    exact .same host (List.Subset.refl _) (List.Sublist.refl _)
  · obtain ⟨accepted, rest, hsplit, hall, hlength⟩ :=
      host.runtime.planner.source.append_spec characters
    have hrun : (host.runtime.observeSource characters).1 = { host.runtime with
        planner := (host.runtime.planner.observeSource characters).1 } := by
      unfold SamplingRuntime.observeSource
      split
      · rename_i attemptId commitId h
        exact absurd ⟨attemptId, commitId, h⟩ hstate
      · rfl
      · rfl
    have htake : characters.take ((host.runtime.planner.source.append characters).1.cells.length -
        host.runtime.planner.source.cells.length) = accepted := by
      rw [hlength, Nat.add_sub_cancel_left, hsplit, List.take_left]
    rw [hrun]
    simp only [SamplingPlanner.observeSource, htake]
    exact .observed (fun attemptId commitId h ↦ hstate ⟨attemptId, commitId, h⟩) hall

theorem Effect.begin (host : Host) : Effect host (host.perform .begin) := by
  unfold perform
  dsimp only
  rcases beginSampling_cases host.runtime with ⟨attemptId, hbegin⟩ | ⟨n, hframe, hle, hfail⟩
  · rw [beginSampling_of_canBegin hbegin]
    exact .began attemptId hbegin
  · split
    · rename_i runtime handle heq
      exact absurd (congrArg Prod.snd heq) (hfail handle)
    · rename_i heq
      rw [heq] at hframe
      dsimp only at hframe
      rw [hframe]
      exact .silent rfl (.refl _) hle rfl (List.Subset.refl _) (List.Sublist.refl _)

theorem Effect.start (host : Host) {handle : SamplingHandle} (hmem : handle ∈ host.handles) :
    Effect host (host.perform (.started handle)) := by
  unfold perform
  dsimp only
  rcases samplingStartedRecord_cases host.runtime handle with
    ⟨batch, hstate, hid, hstarted, hvalid, hresult⟩ | ⟨hframe, hfail⟩
  · rw [hresult]
    exact .started hmem hstate hid hstarted hvalid
  · split
    · rename_i runtime record heq
      exact absurd (congrArg Prod.snd heq) (hfail record)
    · rename_i runtime _ _ heq
      have hruntime : runtime = host.runtime := by rw [← hframe, heq]
      rw [hruntime]
      exact .same host (List.Subset.refl _) (List.Sublist.refl _)

theorem Effect.of_quiet {host : Host} {rt' : SamplingRuntime} (h : Quiet host.runtime rt') :
    Effect host { host with runtime := rt' } :=
  .silent h.planner_eq h.state_kept (le_of_eq h.nextAttempt_eq.symm) h.nextCommit_eq
    (List.Subset.refl _) (List.Sublist.refl _)

/-- A finished sampling that crashed or could not name its commit changed only sinks. -/
theorem Effect.of_sinksOnly {host : Host} {rt' : SamplingRuntime} {index : ℕ}
    {handles : List SamplingHandle} (h : SinksOnly host.runtime rt' index)
    (hhandles : handles ⊆ host.handles) : Effect host ⟨rt', handles, host.prepared, host.log⟩ := by
  rw [h.frame]
  exact .silent rfl (.refl _) (le_refl _) rfl hhandles (List.Sublist.refl _)

theorem Effect.finish {host : Host} (hinv : Inv host) {handle : SamplingHandle}
    (hmem : handle ∈ host.handles) (terminal : SamplingTerminal) (inputTokens : Option ℕ) :
    Effect host (host.perform (.finish handle terminal inputTokens)) := by
  have hcase := finishSampling_cases hinv.coherent (hinv.unsealed handle hmem) terminal inputTokens
  have hsub : host.handles.erase handle ⊆ host.handles := List.erase_subset
  unfold perform
  dsimp only
  generalize host.runtime.finishSampling handle terminal inputTokens = result at hcase
  cases hcase with
  | inactive e _ => exact .same host hsub (List.Sublist.refl _)
  | released hactive h hresult =>
    rcases hresult with rfl | ⟨e, rfl⟩
    · exact .released hactive h hsub
    · exact .released hactive h hsub
  | unnamed e _ h _ => exact .of_sinksOnly h hsub
  | crashed h => exact .of_sinksOnly h hsub
  | prepared hstate hattempt hstarted hthread hvalue hprepare hframe _ _ =>
    exact .prepared hmem hstate hattempt hstarted hthread hvalue hprepare hframe hsub

theorem Effect.abort {host : Host} (hinv : Inv host) {handle : SamplingHandle}
    (hmem : handle ∈ host.handles) : Effect host (host.perform (.abort handle)) := by
  by_cases hactive : ActiveHandle host.runtime handle
  · obtain ⟨hreleased, -, -⟩ := abortSampling_of_active hinv.coherent hactive
      (hinv.unsealed handle hmem)
    exact .released hactive hreleased (List.Subset.refl _)
  · obtain ⟨e, he⟩ := abortSampling_of_not_active hactive
    simp only [perform, he]
    exact .same host (List.Subset.refl _) (List.Sublist.refl _)

theorem Effect.install (host : Host) {commit : PreparedSamplingCommit} (hmem : commit ∈ host.prepared) :
    Effect host (host.perform (.install commit)) := by
  unfold perform SamplingRuntime.installPrepared
  dsimp only
  split
  · rename_i runtime heq
    split at heq
    · rename_i q hq
      obtain ⟨_, hmatch, hinstall⟩ := Outcome.bind_eq_ok.mp hq
      obtain ⟨rfl, -⟩ := Prod.mk.inj heq
      exact .installed hmem (Outcome.require_eq_ok.mp hmatch) hinstall
    · simp at heq
    · simp at heq
  · rename_i runtime _ hnot heq
    split at heq
    · exact absurd (Prod.mk.inj heq).2.symm hnot
    · obtain ⟨rfl, -⟩ := Prod.mk.inj heq
      exact .same host (List.Subset.refl _) List.erase_sublist
    · obtain ⟨rfl, -⟩ := Prod.mk.inj heq
      exact .same host (List.Subset.refl _) List.erase_sublist

theorem Effect.discard (host : Host) (commit : PreparedSamplingCommit) :
    Effect host (host.perform (.discard commit)) := by
  simp only [perform, discardUnpersistedPrepared]
  split_ifs with hmatch
  · exact .discarded hmatch
  · exact .same host (List.Subset.refl _) (List.Sublist.refl _)

theorem Effect.compact (host : Host) (barrier : SpineCompactBarrierV1) :
    Effect host (host.perform (.compact barrier)) := by
  unfold perform SamplingRuntime.compact
  dsimp only
  split
  · rename_i runtime projection heq
    split at heq
    · rename_i q projection' hq
      obtain ⟨_, hidle, hcompact⟩ := Outcome.bind_eq_ok.mp hq
      obtain ⟨rfl, -⟩ := Prod.mk.inj heq
      exact .compacted (requireIdle_eq_ok hidle) hcompact
    · simp at heq
    · simp at heq
  · rename_i runtime _ hnot heq
    split at heq
    · exact absurd (Prod.mk.inj heq).2.symm (hnot _)
    · obtain ⟨rfl, -⟩ := Prod.mk.inj heq
      exact .same host (List.Subset.refl _) (List.Sublist.refl _)
    · obtain ⟨rfl, -⟩ := Prod.mk.inj heq
      exact .same host (List.Subset.refl _) (List.Sublist.refl _)

theorem continueIn_effect (host : Host) (thread : ThreadNamespace) :
    Effect host (host.perform (.continueIn thread)) ∨
      ∃ q, Moved host thread q (host.perform (.continueIn thread)) := by
  have hsame : Effect host host := .same host (List.Subset.refl _) (List.Sublist.refl _)
  simp only [perform, SamplingRuntime.continueInNamespace]
  split
  · rename_i hidle
    split_ifs with hthread
    · exact .inl hsame
    · split
      · rename_i q hcontinue
        exact .inr ⟨q, requireIdle_eq_ok hidle, hthread, hcontinue, rfl⟩
      · exact .inl hsame
      · exact .inl hsame
  · exact .inl hsame
  · exact .inl hsame

/-- Every other call has one of the effects. -/
theorem perform_effect {host : Host} (hinv : Inv host) {op : HostOp} (hallowed : host.Allowed op)
    (hlocal : ∀ thread, op ≠ .continueIn thread) : Effect host (host.perform op) := by
  cases op with
  | observe characters => exact .observe host characters
  | begin => exact .begin host
  | started handle => exact .start host hallowed
  | register key => exact .of_quiet (registerExecution_quiet host.runtime key)
  | stage key origin operation => exact .of_quiet (stageExecution_quiet host.runtime key origin operation)
  | finishExecution key succeeded => exact .of_quiet (finishExecution_quiet host.runtime key succeeded)
  | finish handle terminal inputTokens => exact .finish hinv hallowed terminal inputTokens
  | abort handle => exact .abort hinv hallowed
  | install commit => exact .install host hallowed
  | discard commit => exact .discard host commit
  | compact barrier => exact .compact host barrier
  | continueIn thread => exact absurd rfl (hlocal thread)

/-- The log of a host only grows. -/
theorem Effect.log_extends {host host' : Host} (h : Effect host host') : host.log <+: host'.log := by
  cases h with
  | silent => exact List.prefix_refl _
  | observed => exact List.prefix_append _ _
  | began => exact List.prefix_refl _
  | started => exact List.prefix_append _ _
  | released => exact List.prefix_refl _
  | prepared => exact List.prefix_refl _
  | installed => exact List.prefix_append _ _
  | discarded => exact List.prefix_refl _
  | compacted => exact List.prefix_append _ _

/-- A step of a host has an effect or moves it to another namespace. -/
theorem Step.effect {host host' : Host} (hinv : Inv host) (h : Step host host') :
    Effect host host' ∨ ∃ thread q, Moved host thread q host' := by
  cases h with
  | perform op hallowed =>
    by_cases hlocal : ∀ thread, op ≠ .continueIn thread
    · exact .inl (perform_effect hinv hallowed hlocal)
    · push Not at hlocal
      obtain ⟨thread, rfl⟩ := hlocal
      rcases continueIn_effect host thread with heffect | ⟨q, hmoved⟩
      · exact .inl heffect
      · exact .inr ⟨thread, q, hmoved⟩

end Host

end SpineCodex
