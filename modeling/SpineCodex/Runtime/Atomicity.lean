import SpineCodex.Runtime.Specs

/-!
# Failure atomicity

The runtime and the planner always agree on the active attempt, and a sampling that ends
without a commit leaves no trace but its source, as long as the next commit can be named.
-/

namespace SpineCodex

namespace SamplingRuntime

/-- A quiet operation keeps the agreement. -/
theorem Quiet.coherent {rt rt' : SamplingRuntime} (h : Quiet rt rt') (hcoherent : Coherent rt) :
    Coherent rt' := by
  have hstate := h.state_kept
  unfold Coherent at hcoherent ⊢
  rw [h.planner_eq]
  generalize rt.state = state at hstate hcoherent
  generalize rt'.state = state' at hstate
  cases hstate with
  | idle => exact hcoherent
  | active hattempt _ _ _ => exact ⟨hattempt ▸ hcoherent.1, hcoherent.2⟩
  | prepared => exact hcoherent

theorem Coherent.of_planner {rt rt' : SamplingRuntime} (hcoherent : Coherent rt)
    (hstate : rt'.state = rt.state)
    (hactive : rt'.planner.activeAttempt = rt.planner.activeAttempt)
    (hjit : rt'.planner.jitEnabled = rt.planner.jitEnabled) : Coherent rt' := by
  unfold Coherent
  rw [hstate, hactive, hjit]
  exact hcoherent

theorem Coherent.inactive {rt : SamplingRuntime} (hcoherent : Coherent rt)
    (hstate : ∀ batch, rt.state ≠ .active batch) : rt.planner.activeAttempt = none := by
  unfold Coherent at hcoherent
  split at hcoherent
  · rename_i batch h
    exact absurd h (hstate batch)
  · exact hcoherent
  · exact hcoherent

theorem Unsealed.append {rt rt' : SamplingRuntime} {i : ℕ} {more : List SamplingFactSink}
    (h : rt.Unsealed i) (hsinks : rt'.sinks = rt.sinks ++ more) : rt'.Unsealed i := by
  obtain ⟨sink, hget, hunsealed⟩ := h
  have hlt := (List.getElem?_eq_some_iff.mp hget).1
  exact ⟨sink, by rw [hsinks, List.getElem?_append_left hlt]; exact hget, hunsealed⟩

theorem requireIdle_eq_ok {rt : SamplingRuntime} {u : Unit} (h : rt.requireIdle = .ok u) :
    rt.state = .idle := by
  unfold requireIdle at h
  split at h <;> simp_all

/-- The sink of a new attempt is open. -/
theorem begun_unsealed (rt : SamplingRuntime) (attemptId : SamplingAttemptId) :
    (rt.begun attemptId).Unsealed rt.sinks.length := by
  refine ⟨.new ⟨attemptId, rt.planner.source.epoch, rt.planner.source.currentBoundary⟩, ?_, ?_⟩
  · simp [begun]
  · simp [SamplingFactSink.new]

end SamplingRuntime

namespace Host

open SamplingRuntime

/-- What every host keeps: the agreement, and handles with their own unsealed sinks. -/
structure Inv (host : Host) : Prop where
  coherent : Coherent host.runtime
  unsealed : ∀ handle ∈ host.handles, host.runtime.Unsealed handle.sink
  sinks_nodup : (host.handles.map (·.sink)).Nodup

/-- An operation that keeps the handles and the unsealed sinks. -/
theorem Inv.of_unsealed {host host' : Host} (hinv : Inv host)
    (hhandles : host'.handles = host.handles) (hcoherent : Coherent host'.runtime)
    (hunsealed : ∀ i, host.runtime.Unsealed i → host'.runtime.Unsealed i) : Inv host' := by
  refine ⟨hcoherent, ?_, ?_⟩
  · rw [hhandles]
    exact fun handle hmem ↦ hunsealed _ (hinv.unsealed handle hmem)
  · rw [hhandles]
    exact hinv.sinks_nodup

/-- The handles that remain have other sinks than the consumed one. -/
theorem Inv.erase {host host' : Host} (hinv : Inv host) {handle : SamplingHandle}
    (hmem : handle ∈ host.handles) (hhandles : host'.handles = host.handles.erase handle)
    (hcoherent : Coherent host'.runtime)
    (hunsealed : ∀ i, i ≠ handle.sink → host.runtime.Unsealed i → host'.runtime.Unsealed i) :
    Inv host' := by
  have hperm := List.perm_cons_erase hmem
  have hnodup : (handle.sink :: (host.handles.erase handle).map (·.sink)).Nodup :=
    (hperm.map SamplingHandle.sink).nodup_iff.mp hinv.sinks_nodup
  refine ⟨hcoherent, ?_, ?_⟩
  · rw [hhandles]
    intro other hother
    refine hunsealed _ (fun heq ↦ ?_) (hinv.unsealed other (List.mem_of_mem_erase hother))
    exact (List.nodup_cons.mp hnodup).1 (heq ▸ List.mem_map_of_mem hother)
  · rw [hhandles]
    exact (List.nodup_cons.mp hnodup).2

theorem Inv.begin {host : Host} (hinv : Inv host) : Inv (host.perform .begin) := by
  rcases beginSampling_cases host.runtime with ⟨attemptId, hbegin⟩ | ⟨n, hframe, -, hfail⟩
  · have hperform : host.perform .begin = { host with
        runtime := host.runtime.begun attemptId
        handles := host.handles ++ [⟨⟨attemptId, host.runtime.planner.source.epoch,
          host.runtime.planner.source.currentBoundary⟩, host.runtime.sinks.length⟩] } := by
      simp [perform, beginSampling_of_canBegin hbegin]
    rw [hperform]
    refine ⟨⟨rfl, hbegin.jit⟩, ?_, ?_⟩
    · intro handle hmem
      rcases List.mem_append.mp hmem with h | h
      · exact (hinv.unsealed handle h).append rfl
      · rw [List.mem_singleton.mp h]
        exact begun_unsealed host.runtime attemptId
    · rw [List.map_append, List.map_singleton, List.nodup_append]
      refine ⟨hinv.sinks_nodup, by simp, ?_⟩
      intro i hi j hj
      obtain ⟨handle, hmem, rfl⟩ := List.mem_map.mp hi
      rw [List.mem_singleton.mp hj]
      exact ne_of_lt (hinv.unsealed handle hmem).lt
  · have hperform : host.perform .begin =
        { host with runtime := { host.runtime with nextAttempt := n } } := by
      rw [← hframe, perform]
      split
      · rename_i runtime handle heq
        exact absurd (congrArg Prod.snd heq) (hfail handle)
      · rename_i heq
        rw [heq]
    rw [hperform]
    exact hinv.of_unsealed rfl hinv.coherent fun i h ↦ h.congr rfl

theorem Inv.started {host : Host} (hinv : Inv host) (handle : SamplingHandle) :
    Inv (host.perform (.started handle)) := by
  unfold perform
  dsimp only
  rcases samplingStartedRecord_cases host.runtime handle with
    ⟨batch, hstate, -, -, -, hresult⟩ | ⟨hframe, hfail⟩
  · rw [hresult]
    refine hinv.of_unsealed rfl ?_ fun i h ↦ h.congr rfl
    have hcoherent := hinv.coherent
    rw [Coherent, hstate] at hcoherent
    exact hcoherent
  · split
    · rename_i runtime record heq
      exact absurd (congrArg Prod.snd heq) (hfail record)
    · rename_i runtime _ _ heq
      have hruntime : runtime = host.runtime := by rw [← hframe, heq]
      rw [hruntime]
      exact hinv

theorem Inv.observe {host : Host} (hinv : Inv host) (characters : List SpineChar) :
    Inv (host.perform (.observe characters)) := by
  refine hinv.of_unsealed rfl ?_ ?_
  · show Coherent (host.runtime.observeSource characters).1
    unfold SamplingRuntime.observeSource
    split
    · exact hinv.coherent
    · exact hinv.coherent.of_planner rfl rfl rfl
    · exact hinv.coherent.of_planner rfl rfl rfl
  · intro i h
    refine h.congr ?_
    show (host.runtime.observeSource characters).1.sinks = host.runtime.sinks
    unfold SamplingRuntime.observeSource
    split <;> rfl

theorem Inv.finish {host : Host} (hinv : Inv host) {handle : SamplingHandle}
    (hallowed : handle ∈ host.handles) (terminal : SamplingTerminal) (inputTokens : Option ℕ) :
    Inv (host.perform (.finish handle terminal inputTokens)) := by
  have hcase := finishSampling_cases hinv.coherent (hinv.unsealed handle hallowed) terminal
    inputTokens
  unfold perform
  dsimp only
  generalize host.runtime.finishSampling handle terminal inputTokens = result at hcase
  cases hcase with
  | inactive e _ => exact hinv.erase hallowed rfl hinv.coherent fun i _ h ↦ h
  | released _ h hresult =>
    rcases hresult with rfl | ⟨e, rfl⟩
    · exact hinv.erase hallowed rfl h.coherent h.unsealed
    · exact hinv.erase hallowed rfl h.coherent h.unsealed
  | unnamed e _ h _ => exact hinv.erase hallowed rfl (h.coherent hinv.coherent) h.unsealed
  | crashed h => exact hinv.erase hallowed rfl (h.coherent hinv.coherent) h.unsealed
  | prepared _ _ _ _ _ _ hframe _ hunsealed =>
    refine hinv.erase hallowed rfl ?_ hunsealed
    rw [hframe]
    rfl

theorem Inv.abort {host : Host} (hinv : Inv host) {handle : SamplingHandle}
    (hallowed : handle ∈ host.handles) : Inv (host.perform (.abort handle)) := by
  by_cases hactive : ActiveHandle host.runtime handle
  · obtain ⟨hreleased, hself, -⟩ := abortSampling_of_active hinv.coherent hactive
      (hinv.unsealed handle hallowed)
    refine hinv.of_unsealed rfl hreleased.coherent fun i h ↦ ?_
    by_cases hi : i = handle.sink
    · exact hi ▸ hself
    · exact hreleased.unsealed i hi h
  · obtain ⟨e, he⟩ := abortSampling_of_not_active hactive
    simp only [perform, he]
    exact hinv

theorem Inv.install {host : Host} (hinv : Inv host) (commit : PreparedSamplingCommit) :
    Inv (host.perform (.install commit)) := by
  have hinstall : ∀ runtime result, host.runtime.installPrepared commit = (runtime, result) →
      Coherent runtime ∧ runtime.sinks = host.runtime.sinks := by
    intro runtime result heq
    unfold SamplingRuntime.installPrepared at heq
    split at heq
    · rename_i planner hplanner
      obtain ⟨_, hmatch, hplanner⟩ := Outcome.bind_eq_ok.mp hplanner
      have hstate : host.runtime.state = _ := Outcome.require_eq_ok.mp hmatch
      obtain ⟨-, -, rfl⟩ := SamplingPlanner.installPrepared_eq_ok hplanner
      obtain ⟨rfl, -⟩ := Prod.mk.inj heq
      exact ⟨hinv.coherent.inactive (by simp [hstate]), rfl⟩
    · obtain ⟨rfl, -⟩ := Prod.mk.inj heq
      exact ⟨hinv.coherent, rfl⟩
    · obtain ⟨rfl, -⟩ := Prod.mk.inj heq
      exact ⟨hinv.coherent, rfl⟩
  unfold perform
  dsimp only
  split
  · rename_i runtime heq
    obtain ⟨hcoherent, hsinks⟩ := hinstall _ _ heq
    exact hinv.of_unsealed rfl hcoherent fun i h ↦ h.congr hsinks
  · rename_i runtime _ heq
    obtain ⟨hcoherent, hsinks⟩ := hinstall _ _ heq
    exact hinv.of_unsealed rfl hcoherent fun i h ↦ h.congr hsinks

theorem Inv.discard {host : Host} (hinv : Inv host) (commit : PreparedSamplingCommit) :
    Inv (host.perform (.discard commit)) := by
  simp only [perform, discardUnpersistedPrepared]
  split_ifs with hmatch
  · refine hinv.of_unsealed rfl ?_ fun i h ↦ h.congr rfl
    have hstate : host.runtime.state = _ := hmatch
    exact hinv.coherent.inactive (by simp [hstate])
  · exact hinv

theorem Inv.compact {host : Host} (hinv : Inv host) (barrier : SpineCompactBarrierV1) :
    Inv (host.perform (.compact barrier)) := by
  have hcompact : ∀ runtime result, host.runtime.compact barrier = (runtime, result) →
      Coherent runtime ∧ runtime.sinks = host.runtime.sinks := by
    intro runtime result heq
    unfold SamplingRuntime.compact at heq
    split at heq
    · rename_i planner projection hplanner
      obtain ⟨_, hidle, hplanner⟩ := Outcome.bind_eq_ok.mp hplanner
      have hstate := requireIdle_eq_ok hidle
      obtain ⟨rfl, -⟩ := Prod.mk.inj heq
      obtain ⟨_, _, _, _, _, hactive, -, -, -, -, -, -, rfl⟩ := SamplingPlanner.compact_eq_ok hplanner
      refine ⟨?_, rfl⟩
      rw [Coherent, hstate]
      exact hactive
    · obtain ⟨rfl, -⟩ := Prod.mk.inj heq
      exact ⟨hinv.coherent, rfl⟩
    · obtain ⟨rfl, -⟩ := Prod.mk.inj heq
      exact ⟨hinv.coherent, rfl⟩
  unfold perform
  dsimp only
  split
  · rename_i runtime _ heq
    obtain ⟨hcoherent, hsinks⟩ := hcompact _ _ heq
    exact hinv.of_unsealed rfl hcoherent fun i h ↦ h.congr hsinks
  · rename_i runtime _ heq
    obtain ⟨hcoherent, hsinks⟩ := hcompact _ _ heq
    exact hinv.of_unsealed rfl hcoherent fun i h ↦ h.congr hsinks

theorem Inv.continueIn {host : Host} (hinv : Inv host) (thread : ThreadNamespace) :
    Inv (host.perform (.continueIn thread)) := by
  simp only [perform, SamplingRuntime.continueInNamespace]
  split
  · rename_i hidle
    have hstate := requireIdle_eq_ok hidle
    split_ifs
    · exact hinv
    · split
      · rename_i planner hplanner
        refine hinv.of_unsealed rfl ?_ fun i h ↦ h.congr rfl
        obtain ⟨_, hactive, -, rfl⟩ := SamplingPlanner.continueInNamespace_eq_ok hplanner
        rw [Coherent, hstate]
        exact hactive
      · exact hinv
      · exact hinv
  · exact hinv
  · exact hinv

/-- A step of a run keeps the invariant. -/
theorem Inv.step {host host' : Host} (hinv : Inv host) (hstep : Step host host') : Inv host' := by
  cases hstep with
  | perform op hallowed =>
  cases op with
  | observe characters => exact hinv.observe characters
  | begin => exact hinv.begin
  | started handle => exact hinv.started handle
  | register key =>
    have hquiet := registerExecution_quiet host.runtime key
    exact hinv.of_unsealed rfl (hquiet.coherent hinv.coherent) hquiet.unsealed
  | stage key origin operation =>
    have hquiet := stageExecution_quiet host.runtime key origin operation
    exact hinv.of_unsealed rfl (hquiet.coherent hinv.coherent) hquiet.unsealed
  | finishExecution key succeeded =>
    have hquiet := finishExecution_quiet host.runtime key succeeded
    exact hinv.of_unsealed rfl (hquiet.coherent hinv.coherent) hquiet.unsealed
  | finish handle terminal inputTokens => exact hinv.finish hallowed terminal inputTokens
  | abort handle => exact hinv.abort hallowed
  | install commit => exact hinv.install commit
  | discard commit => exact hinv.discard commit
  | compact barrier => exact hinv.compact barrier
  | continueIn thread => exact hinv.continueIn thread

/-! ## Reachable hosts -/

theorem inv_start {runtime : SamplingRuntime} (log : List ReplayInput)
    (hstate : runtime.state = .idle) (hactive : runtime.planner.activeAttempt = none) :
    Inv (start runtime log) := by
  refine ⟨?_, by simp [start], by simp [start]⟩
  show Coherent runtime
  rw [Coherent, hstate]
  exact hactive

/-- Replay returns an idle runtime. -/
theorem prepare_idle {replay : CanonicalReplay}
    {log : List ReplayInput} {result : PreparedReplay} (h : replay.prepare log = .ok result) :
    result.candidate.state = .idle ∧ result.candidate.planner.activeAttempt = none := by
  obtain ⟨s, -, h⟩ := Outcome.bind_eq_ok.mp h
  unfold ReplayState.finish at h
  simp only [Outcome.bind_eq_ok] at h
  obtain ⟨⟨planner, plan⟩, hplanner, _, -, _, -, _, -, h⟩ := h
  obtain ⟨⟨_, _⟩, -, hplanner⟩ := Outcome.bind_eq_ok.mp hplanner
  obtain rfl := Outcome.ok.inj h
  rw [← (Prod.mk.inj (Outcome.ok.inj hplanner)).1]
  exact ⟨rfl, rfl⟩

theorem Reachable.inv {host : Host} (h : Reachable host) : Inv host := by
  induction h with
  | new thread epoch config => exact inv_start [] rfl rfl
  | recovered host replay result _ hprepare _ =>
    obtain ⟨hstate, hactive⟩ := prepare_idle hprepare
    exact inv_start host.log hstate hactive
  | step _ hstep ih => exact ih.step hstep

/-- The runtime is active exactly with the active attempt of the planner, and is idle or prepared
exactly when the planner has none. -/
structure Agreement (rt : SamplingRuntime) : Prop where
  active_iff : ∀ attemptId, (∃ batch, rt.state = .active batch ∧ batch.attemptId = attemptId) ↔
    rt.planner.activeAttempt = some attemptId
  inactive_iff : (rt.state = .idle ∨ ∃ attemptId commitId, rt.state = .prepared attemptId commitId) ↔
    rt.planner.activeAttempt = none

theorem agreement_of_coherent {rt : SamplingRuntime} (h : Coherent rt) : Agreement rt := by
  unfold Coherent at h
  cases hstate : rt.state with
  | idle =>
    rw [hstate] at h
    exact ⟨by simp [hstate, h], by simp [hstate, h]⟩
  | active batch =>
    rw [hstate] at h
    exact ⟨by simp [hstate, h.1], by simp [hstate, h.1]⟩
  | prepared attemptId commitId =>
    rw [hstate] at h
    exact ⟨by simp [hstate, h], by simp [hstate, h]⟩

/-- What a sampling that ended without a commit leaves behind: the runtime is idle, the planner is
the one before but for the attempt, and the next attempt starts if it can be named. -/
structure Untouched (rt rt' : SamplingRuntime) : Prop where
  idle : rt'.state = .idle
  planner_eq : rt'.planner = { rt.planner with activeAttempt := none }
  can_begin : ValidComponent (attemptIdText rt'.planner.source.thread rt'.nextAttempt) →
    ∃ handle, rt'.beginSampling.2 = .ok handle

/-- In every reachable host the runtime and the planner agree on the active attempt.  While the
next commit can be named, finishing the active sampling with an error or without a commit leaves
the runtime idle and the planner untouched. -/
theorem finish_atomic_of_reachable {host : Host} (h : Reachable host) :
    Agreement host.runtime ∧
      ∀ handle ∈ host.handles, ActiveHandle host.runtime handle →
        ValidComponent (commitIdText host.runtime.planner.source.thread host.runtime.nextCommit) →
        ∀ terminal inputTokens rt' result,
          host.runtime.finishSampling handle terminal inputTokens = (rt', result) →
          (result = .ok .orphanedStart ∨ ∃ e, result = .err e) → Untouched host.runtime rt' := by
  have hinv := h.inv
  refine ⟨agreement_of_coherent hinv.coherent, ?_⟩
  intro handle hmem hactive hvalid terminal inputTokens rt' result heq hresult
  have hcase := finishSampling_cases hinv.coherent (hinv.unsealed handle hmem) terminal inputTokens
  rw [heq] at hcase
  cases hcase with
  | inactive e hnot => exact absurd hactive hnot
  | unnamed e _ _ hid => exact absurd hvalid hid
  | crashed _ => simp at hresult
  | prepared _ _ _ _ _ _ _ _ _ => simp at hresult
  | released _ hreleased _ =>
    have hplanner : rt'.planner = { host.runtime.planner with activeAttempt := none } := by
      rw [hreleased.frame]
    have hidle : rt'.state = .idle := by rw [hreleased.frame]
    refine ⟨hidle, hplanner, fun hname ↦ ?_⟩
    have hjit : host.runtime.planner.jitEnabled = true := by
      obtain ⟨batch, hstate, -⟩ := hactive
      have hcoherent := hinv.coherent
      rw [Coherent, hstate] at hcoherent
      exact hcoherent.2
    have hbegin : CanBegin rt' ⟨rt'.planner.source.thread, _, hname⟩ :=
      ⟨hidle, by rw [hplanner], by rw [hplanner]; exact hjit, rfl, rfl⟩
    exact ⟨_, congrArg Prod.snd (beginSampling_of_canBegin hbegin)⟩

/-- A host that began a sampling and has not recorded its start. -/
theorem unstartedThread_valid : ValidComponent "t" := by decide

def unstarted : Host := (start (.new ⟨"t", unstartedThread_valid⟩ 0 ⟨true, true, fun h ↦ h⟩) []).perform .begin

def unstartedHandle : SamplingHandle :=
  ⟨⟨⟨⟨"t", unstartedThread_valid⟩, "t-attempt-0", by decide⟩, 0, ⟨⟨"t", unstartedThread_valid⟩, 0, 0⟩⟩, 0⟩

theorem finish_atomic_unstarted :
    Reachable unstarted ∧ unstartedHandle ∈ unstarted.handles ∧
      ActiveHandle unstarted.runtime unstartedHandle ∧
      ∃ rt' e, unstarted.runtime.finishSampling unstartedHandle .completed none = (rt', .err e) ∧
        Untouched unstarted.runtime rt' := by
  have hreachable : Reachable unstarted := (Reachable.new _ _ _).step (.perform .begin trivial)
  have hmem : unstartedHandle ∈ unstarted.handles := by decide
  have hactive : ActiveHandle unstarted.runtime unstartedHandle := ⟨_, rfl, by decide⟩
  have herror : (unstarted.runtime.finishSampling unstartedHandle .completed none).2 =
      .err .samplingNotStarted := by decide
  refine ⟨hreachable, hmem, hactive, _, _, Prod.ext rfl herror, ?_⟩
  exact (finish_atomic_of_reachable hreachable).2 unstartedHandle hmem hactive (by decide) .completed
    none _ _ rfl (.inr ⟨_, herror⟩)

end Host

end SpineCodex
