import SpineCodex.Replay.Identities

/-!
# Prepared commits are installed at most once

A runtime that has prepared a commit waits for it: every other call is refused or changes
nothing that the commit depends on.  Commit identities are never allocated twice in a run
that does not return to a namespace, so a commit that was installed or discarded matches no
later one, and the installed commits form one chain.
-/

namespace SpineCodex

/-- The commit that an input of the log records. -/
def ReplayInput.commitRecords : ReplayInput → List SamplingCommit
  | .archive (.samplingCommit record) => [record]
  | _ => []

namespace Host

open SamplingRuntime Relation

/-- The hosts that a run starts from: around a new runtime and around a recovered one. -/
inductive Started : Host → Prop
  | new (thread : ThreadNamespace) (epoch : ContextEpoch) (config : SpineConfig) :
      Started (start (.new thread epoch config) [])
  | recovered (replay : CanonicalReplay) (log : List ReplayInput) (result : PreparedReplay)
      (h : replay.prepare log = .ok result) : Started (start result.candidate log)

theorem Started.eq_start {host : Host} (h : Started host) : ∃ runtime log,
    host = start runtime log ∧ runtime.state = .idle ∧ runtime.planner.activeAttempt = none := by
  cases h with
  | new thread epoch config => exact ⟨_, _, rfl, rfl, rfl⟩
  | recovered replay log result h =>
    obtain ⟨hstate, hactive⟩ := prepare_idle h
    exact ⟨_, _, rfl, hstate, hactive⟩

theorem Started.inv {host : Host} (h : Started host) : Inv host := by
  obtain ⟨runtime, log, rfl, hstate, hactive⟩ := h.eq_start
  exact inv_start log hstate hactive

/-! ## Runs that do not return to a namespace -/

/-- A host together with the namespaces that its runtime has left. -/
structure Journey where
  left : List ThreadNamespace
  host : Host

namespace Journey

def thread (j : Journey) : ThreadNamespace := j.host.runtime.planner.source.thread

/-- The journey after a call. -/
def perform (j : Journey) (op : HostOp) : Journey where
  left := if (j.host.perform op).runtime.planner.source.thread = j.thread then j.left
    else j.thread :: j.left
  host := j.host.perform op

end Journey

/-- A call that does not return to a namespace. -/
inductive OnwardStep (j : Journey) : Journey → Prop
  | perform (op : HostOp) (hallowed : j.host.Allowed op)
      (hnew : ∀ thread, op = .continueIn thread → thread ∉ j.left) : OnwardStep j (j.perform op)

abbrev Onward := ReflTransGen OnwardStep

theorem Effect.thread_eq {host host' : Host} (h : Effect host host') :
    host'.runtime.planner.source.thread = host.runtime.planner.source.thread := by
  cases h with
  | silent hplanner => exact congrArg (·.source.thread) hplanner
  | observed _ happend => exact (SourceLedger.appendAll_frame happend).1
  | began => rfl
  | started => rfl
  | released _ h => exact congrArg (·.planner.source.thread) h.frame
  | prepared _ _ _ _ _ _ _ hframe => exact congrArg (·.planner.source.thread) hframe
  | installed _ _ hinstall =>
    obtain ⟨-, -, rfl⟩ := SamplingPlanner.installPrepared_eq_ok hinstall
    rfl
  | discarded => rfl
  | compacted _ hcompact =>
    obtain ⟨_, _, _, _, _, -, -, -, -, hsource, -, -, rfl⟩ := SamplingPlanner.compact_eq_ok hcompact
    exact ReplayState.nextLedger_thread hsource

theorem Moved.thread_eq {host host' : Host} {thread : ThreadNamespace} {q : SamplingPlanner}
    (h : Moved host thread q host') : host'.runtime.planner.source.thread = thread := by
  obtain ⟨source, -, hsource, hq⟩ := SamplingPlanner.continueInNamespace_eq_ok h.continue_eq
  obtain ⟨-, rfl⟩ := SourceLedger.continueInNamespace_eq_ok.mp hsource
  rw [h.frame, hq, if_neg h.thread_ne.symm]
  rfl

/-- A step of a journey has an effect in its namespace or moves it to a new one. -/
theorem OnwardStep.cases {j j' : Journey} (hinv : Inv j.host) (h : OnwardStep j j') :
    (Effect j.host j'.host ∧ j'.left = j.left) ∨ ∃ thread q, thread ∉ j.left ∧
      Moved j.host thread q j'.host ∧ j'.left = j.thread :: j.left := by
  cases h with
  | perform op hallowed hnew =>
    by_cases hlocal : ∃ thread, op = .continueIn thread
    · obtain ⟨thread, rfl⟩ := hlocal
      rcases continueIn_effect j.host thread with heffect | ⟨q, hmoved⟩
      · exact .inl ⟨heffect, if_pos heffect.thread_eq⟩
      · refine .inr ⟨thread, q, hnew thread rfl, hmoved, if_neg ?_⟩
        rw [hmoved.thread_eq]
        exact fun h ↦ hmoved.thread_ne h.symm
    · have heffect := perform_effect hinv hallowed fun thread h ↦ hlocal ⟨thread, h⟩
      exact .inl ⟨heffect, if_pos heffect.thread_eq⟩

theorem OnwardStep.step {j j' : Journey} (h : OnwardStep j j') : Step j.host j'.host := by
  cases h with
  | perform op hallowed _ => exact .perform op hallowed

/-! ## Commit identities are allocated once -/

/-- A commit identity that the journey may have allocated. -/
def CommitIssued (j : Journey) (id : SamplingCommitId) : Prop :=
  id.thread ∈ j.left ∨ Named commitIdText j.thread 0 j.host.runtime.nextCommit id

/-- The next identity of the namespace has not been allocated. -/
theorem CommitIssued.ne {j : Journey} {id id' : SamplingCommitId} (h : CommitIssued j id)
    (hthread : j.thread ∉ j.left) (hthread' : id'.thread = j.thread)
    (hvalue : id'.value = commitIdText j.thread j.host.runtime.nextCommit) : id ≠ id' := by
  rintro rfl
  rcases h with hleft | ⟨-, n, -, hlt, hname⟩
  · exact hthread (hthread' ▸ hleft)
  · have heq : n = j.host.runtime.nextCommit :=
      ordinalIdText_injective j.thread _ (hname.symm.trans hvalue)
    omega

theorem Effect.nextCommit_le {host host' : Host} (h : Effect host host') :
    host.runtime.nextCommit ≤ host'.runtime.nextCommit := by
  cases h with
  | silent _ _ _ hcommit => exact le_of_eq hcommit.symm
  | observed => exact le_refl _
  | began => exact le_refl _
  | started => exact le_refl _
  | released _ h => exact le_of_eq (congrArg (·.nextCommit) h.frame).symm
  | prepared _ _ _ _ _ _ _ hframe =>
    rw [hframe]
    exact Nat.le_succ _
  | installed => exact le_refl _
  | discarded => exact le_refl _
  | compacted => exact le_refl _

theorem CommitIssued.step {j j' : Journey} {id : SamplingCommitId} (h : CommitIssued j id)
    (hinv : Inv j.host) (hstep : OnwardStep j j') : CommitIssued j' id := by
  rcases hstep.cases hinv with ⟨heffect, hleft⟩ | ⟨thread, q, -, -, hleft⟩
  · rcases h with h | h
    · exact .inl (hleft ▸ h)
    · exact .inr ((show j'.thread = j.thread from heffect.thread_eq) ▸ h.mono heffect.nextCommit_le)
  · rcases h with h | ⟨h, -⟩
    · exact .inl (hleft ▸ List.mem_cons_of_mem _ h)
    · exact .inl (hleft ▸ h ▸ List.mem_cons_self)

/-- What a journey knows about its prepared commits. -/
structure Issued (j : Journey) : Prop where
  inv : Inv j.host
  thread : j.thread ∉ j.left
  issued : ∀ commit ∈ j.host.prepared, CommitIssued j commit.record.commitId
  nodup : (j.host.prepared.map fun commit ↦ commit.record.commitId).Nodup

theorem issued_start {host : Host} (h : Started host) : Issued ⟨[], host⟩ := by
  obtain ⟨runtime, log, rfl, -, -⟩ := h.eq_start
  exact ⟨h.inv, by simp, by simp [start], by simp [start]⟩

/-- What an effect does to the prepared commits. -/
theorem Effect.prepared_cases {host host' : Host} (h : Effect host host') :
    host'.prepared.Sublist host.prepared ∨ ∃ commit, host'.prepared = host.prepared ++ [commit] ∧
      commit.record.commitId.thread = host.runtime.planner.source.thread ∧
      commit.record.commitId.value =
        commitIdText host.runtime.planner.source.thread host.runtime.nextCommit ∧
      host'.runtime.nextCommit = host.runtime.nextCommit + 1 := by
  cases h with
  | silent _ _ _ _ _ hprepared => exact .inl hprepared
  | observed => exact .inl (List.Sublist.refl _)
  | began => exact .inl (List.Sublist.refl _)
  | started => exact .inl (List.Sublist.refl _)
  | released => exact .inl (List.Sublist.refl _)
  | prepared _ _ _ _ hthread hvalue hprepare hframe =>
    obtain ⟨_, _, _, _, _, _, -, -, -, -, -, -, -, -, rfl⟩ :=
      SamplingPlanner.prepareSampling_eq_ok hprepare
    exact .inr ⟨_, rfl, hthread, hvalue, congrArg (·.nextCommit) hframe⟩
  | installed => exact .inl List.erase_sublist
  | discarded => exact .inl (List.Sublist.refl _)
  | compacted => exact .inl (List.Sublist.refl _)

theorem Issued.step {j j' : Journey} (h : Issued j) (hstep : OnwardStep j j') : Issued j' := by
  have hinv' := h.inv.step hstep.step
  have hkept : ∀ commit ∈ j.host.prepared, CommitIssued j' commit.record.commitId :=
    fun commit hmem ↦ (h.issued commit hmem).step h.inv hstep
  rcases hstep.cases h.inv with ⟨heffect, hleft⟩ | ⟨thread, q, hnew, hmoved, hleft⟩
  · have hthread : j'.thread ∉ j'.left := by
      rw [hleft, show j'.thread = j.thread from heffect.thread_eq]
      exact h.thread
    rcases heffect.prepared_cases with hsub | ⟨commit, happend, hcthread, hvalue, hnext⟩
    · exact ⟨hinv', hthread, fun commit hmem ↦ hkept commit (hsub.subset hmem),
        h.nodup.sublist (hsub.map _)⟩
    · refine ⟨hinv', hthread, ?_, ?_⟩
      · intro other hmem
        rw [happend] at hmem
        rcases List.mem_append.mp hmem with hold | hlast
        · exact hkept other hold
        · rw [List.mem_singleton.mp hlast]
          have hsame : j'.thread = j.host.runtime.planner.source.thread := heffect.thread_eq
          exact .inr ⟨hcthread.trans hsame.symm, _, Nat.zero_le _, hnext ▸ Nat.lt_succ_self _,
            hsame ▸ hvalue⟩
      · rw [happend, List.map_append, List.map_singleton, ← List.concat_eq_append,
          List.nodup_concat]
        refine ⟨?_, h.nodup⟩
        intro hmem
        obtain ⟨other, hother, heq⟩ := List.mem_map.mp hmem
        exact (h.issued other hother).ne h.thread hcthread hvalue heq
  · have hprepared : j'.host.prepared = j.host.prepared := by rw [hmoved.frame]
    refine ⟨hinv', ?_, ?_, ?_⟩
    · rw [hleft, show j'.thread = thread from hmoved.thread_eq, List.mem_cons, not_or]
      exact ⟨hmoved.thread_ne.symm, hnew⟩
    · rw [hprepared]
      exact hkept
    · rw [hprepared]
      exact h.nodup

theorem Issued.onward {j j' : Journey} (h : Issued j) (hrun : Onward j j') : Issued j' := by
  induction hrun with
  | refl => exact h
  | tail _ hstep ih => exact ih.step hstep

/-! ## The commit that the runtime waits for -/

/-- A commit of the host that the runtime waits for and can install. -/
structure Pending (commit : PreparedSamplingCommit) (host : Host) : Prop where
  mem : commit ∈ host.prepared
  matched : host.runtime.MatchesPending commit
  scope : commit.record.attemptId.thread = host.runtime.planner.source.thread ∧
    commit.record.epoch = host.runtime.planner.source.epoch
  base : host.runtime.planner.previousCommitId = commit.candidate.baseCommitId ∧
    host.runtime.planner.committedSourceCells = commit.candidate.baseSourceCells

theorem Pending.install {commit : PreparedSamplingCommit} {host : Host} (h : Pending commit host) :
    (host.runtime.installPrepared commit).2 = .ok () ∧
      (host.runtime.installPrepared commit).1.state = .idle := by
  have hscope := h.scope
  have hbase := h.base
  simp [SamplingRuntime.installPrepared, SamplingPlanner.installPrepared, Outcome.require, h.matched,
    hscope, hbase]

/-- Installing or discarding the pending commit leaves the runtime idle. -/
theorem Pending.idle_of_spent {commit : PreparedSamplingCommit} {host : Host}
    (h : Pending commit host) {op : HostOp} (hop : op ∈ [HostOp.install commit, .discard commit]) :
    (host.perform op).runtime.state = .idle := by
  rw [List.mem_pair] at hop
  rcases hop with rfl | rfl
  · obtain ⟨hok, hidle⟩ := h.install
    simp only [perform]
    generalize host.runtime.installPrepared commit = result at hok hidle
    obtain ⟨rt', outcome⟩ := result
    obtain rfl : outcome = .ok () := hok
    exact hidle
  · simp only [perform, SamplingRuntime.discardUnpersistedPrepared, if_pos h.matched]

/-- Two commits of a host that match the pending one are the same. -/
theorem eq_of_matches {host : Host} (hnodup : (host.prepared.map (·.record.commitId)).Nodup)
    {commit other : PreparedSamplingCommit} (hmem : commit ∈ host.prepared)
    (hother : other ∈ host.prepared) (hmatch : host.runtime.MatchesPending commit)
    (hmatch' : host.runtime.MatchesPending other) : other = commit := by
  have hid := (SamplingRuntimeState.prepared.inj (hmatch'.symm.trans hmatch)).2
  exact List.inj_on_of_nodup_map hnodup hother hmem hid

/-- The calls left the planner, the state and the commit counter and prepared nothing. -/
structure Undisturbed (host host' : Host) : Prop where
  planner_eq : host'.runtime.planner = host.runtime.planner
  state_eq : host'.runtime.state = host.runtime.state
  nextCommit_eq : host'.runtime.nextCommit = host.runtime.nextCommit
  prepared_sub : host'.prepared.Sublist host.prepared

theorem Undisturbed.refl (host : Host) : Undisturbed host host :=
  ⟨rfl, rfl, rfl, List.Sublist.refl _⟩

theorem Undisturbed.trans {host₁ host₂ host₃ : Host} (h₁ : Undisturbed host₁ host₂)
    (h₂ : Undisturbed host₂ host₃) : Undisturbed host₁ host₃ :=
  ⟨h₂.planner_eq.trans h₁.planner_eq, h₂.state_eq.trans h₁.state_eq,
    h₂.nextCommit_eq.trans h₁.nextCommit_eq, h₂.prepared_sub.trans h₁.prepared_sub⟩

theorem undisturbed_of_quiet {host : Host} {rt' : SamplingRuntime} (h : Quiet host.runtime rt')
    {attemptId : SamplingAttemptId} {commitId : SamplingCommitId}
    (hstate : host.runtime.state = .prepared attemptId commitId) :
    Undisturbed host { host with runtime := rt' } := by
  have hkept := h.state_kept
  rw [hstate] at hkept
  generalize hstate' : rt'.state = state at hkept
  cases hkept
  exact ⟨h.planner_eq, hstate'.trans hstate.symm, h.nextCommit_eq, List.Sublist.refl _⟩

/-- While a commit is pending, every call but its installation and its discarding is refused or
touches nothing but sinks. -/
theorem perform_of_prepared {host : Host} (hinv : Inv host) {attemptId : SamplingAttemptId}
    {commitId : SamplingCommitId} (hstate : host.runtime.state = .prepared attemptId commitId)
    {op : HostOp} (hallowed : host.Allowed op) (hinstall : ∀ commit, op ≠ .install commit)
    (hdiscard : ∀ commit, op ≠ .discard commit) : Undisturbed host (host.perform op) := by
  have hnone : ∀ handle, ¬ActiveHandle host.runtime handle := by
    rintro handle ⟨batch, hactive, -⟩
    exact absurd (hactive.symm.trans hstate) (by simp)
  have hrefused : host.runtime.requireIdle = .err .samplingCommitPendingInstall := by
    rw [requireIdle, hstate]
  cases op with
  | observe characters =>
    simp only [perform, SamplingRuntime.observeSource, hstate]
    exact ⟨rfl, rfl, rfl, List.Sublist.refl _⟩
  | begin =>
    simp only [perform, SamplingRuntime.beginSampling, hrefused, Outcome.err_bind]
    exact .refl host
  | started handle =>
    rcases samplingStartedRecord_cases host.runtime handle with ⟨batch, hactive, -⟩ | ⟨hframe, hfail⟩
    · exact absurd (hactive.symm.trans hstate) (by simp)
    · unfold perform
      dsimp only
      split
      · rename_i runtime record heq
        exact absurd (congrArg Prod.snd heq) (hfail record)
      · rename_i heq
        rw [heq] at hframe
        obtain rfl : _ = host.runtime := hframe
        exact .refl host
  | register key => exact undisturbed_of_quiet (registerExecution_quiet host.runtime key) hstate
  | stage key origin operation =>
    exact undisturbed_of_quiet (stageExecution_quiet host.runtime key origin operation) hstate
  | finishExecution key succeeded =>
    exact undisturbed_of_quiet (finishExecution_quiet host.runtime key succeeded) hstate
  | finish handle terminal inputTokens =>
    have hcase := finishSampling_cases hinv.coherent (hinv.unsealed handle hallowed) terminal
      inputTokens
    unfold perform
    dsimp only
    generalize host.runtime.finishSampling handle terminal inputTokens = result at hcase
    cases hcase with
    | inactive => exact ⟨rfl, rfl, rfl, List.Sublist.refl _⟩
    | released hactive => exact absurd hactive (hnone handle)
    | unnamed _ hactive => exact absurd hactive (hnone handle)
    | crashed h =>
      rw [h.frame]
      exact ⟨rfl, rfl, rfl, List.Sublist.refl _⟩
    | prepared hactive => exact absurd (hactive.symm.trans hstate) (by simp)
  | abort handle =>
    obtain ⟨e, he⟩ := abortSampling_of_not_active (hnone handle)
    simp only [perform, he]
    exact .refl host
  | install commit => exact absurd rfl (hinstall commit)
  | discard commit => exact absurd rfl (hdiscard commit)
  | compact barrier =>
    simp only [perform, SamplingRuntime.compact, hrefused, Outcome.err_bind]
    exact .refl host
  | continueIn thread =>
    simp only [perform, SamplingRuntime.continueInNamespace, hrefused]
    exact .refl host

/-! ## A commit that is no longer waited for -/

/-- A commit that the runtime has allocated and does not wait for. -/
structure Spent (commit : PreparedSamplingCommit) (j : Journey) : Prop where
  issued : CommitIssued j commit.record.commitId
  unmatched : ¬j.host.runtime.MatchesPending commit

/-- A runtime waits for a commit because it did before or because it has just prepared it. -/
theorem Effect.state_cases {host host' : Host} (h : Effect host host')
    {attemptId : SamplingAttemptId} {commitId : SamplingCommitId}
    (hstate : host'.runtime.state = .prepared attemptId commitId) :
    (host.runtime.state = .prepared attemptId commitId ∧
        host'.runtime.planner = host.runtime.planner) ∨
      (commitId.thread = host.runtime.planner.source.thread ∧
        commitId.value =
          commitIdText host.runtime.planner.source.thread host.runtime.nextCommit ∧
        ∃ commit, Pending commit host') := by
  cases h with
  | silent hplanner hkept =>
    rw [hstate] at hkept
    generalize host.runtime.state = state at hkept
    cases hkept
    exact .inl ⟨rfl, hplanner⟩
  | observed hnot => exact absurd hstate (hnot attemptId commitId)
  | began => exact absurd hstate (by simp [SamplingRuntime.begun])
  | started => exact absurd hstate (by simp)
  | released _ h =>
    rw [h.frame] at hstate
    exact absurd hstate (by simp)
  | prepared _ _ _ _ hthread hvalue hprepare hframe =>
    rw [hframe] at hstate
    obtain ⟨rfl, rfl⟩ := SamplingRuntimeState.prepared.inj hstate
    obtain ⟨_, _, _, _, _, _, -, hscope, -, -, -, -, -, -, rfl⟩ :=
      SamplingPlanner.prepareSampling_eq_ok hprepare
    obtain ⟨_, hscope, -⟩ := Outcome.bind_eq_ok.mp hscope
    have hattempt := (Outcome.require_eq_ok.mp hscope).2.1
    refine .inr ⟨hthread, hvalue, _, List.mem_append_right _ (List.mem_singleton_self _), ?_, ?_, ?_⟩
    · rw [SamplingRuntime.MatchesPending, hframe]
      rfl
    · rw [hframe]
      exact ⟨hattempt, rfl⟩
    · rw [hframe]
      exact ⟨rfl, rfl⟩
  | installed => exact absurd hstate (by simp)
  | discarded => exact absurd hstate (by simp)
  | compacted hidle => exact absurd (hidle.symm.trans hstate) (by simp)

theorem Spent.step {commit : PreparedSamplingCommit} {j j' : Journey} (h : Spent commit j)
    (hissued : Issued j) (hstep : OnwardStep j j') : Spent commit j' := by
  refine ⟨h.issued.step hissued.inv hstep, fun hmatch ↦ ?_⟩
  rcases hstep.cases hissued.inv with ⟨heffect, -⟩ | ⟨thread, q, -, hmoved, -⟩
  · rcases heffect.state_cases hmatch with ⟨hstate, -⟩ | ⟨hthread, hvalue, -⟩
    · exact h.unmatched hstate
    · exact h.issued.ne hissued.thread hthread hvalue rfl
  · have hstate : j'.host.runtime.state = .idle := by
      rw [hmoved.frame]
      exact hmoved.idle
    exact absurd (hstate.symm.trans hmatch) (by simp)

theorem Spent.onward {commit : PreparedSamplingCommit} {j j' : Journey} (h : Spent commit j)
    (hissued : Issued j) (hrun : Onward j j') : Spent commit j' := by
  induction hrun with
  | refl => exact h
  | tail hrun hstep ih => exact ih.step (hissued.onward hrun) hstep

theorem installPrepared_of_unmatched {rt : SamplingRuntime} {commit : PreparedSamplingCommit}
    (h : ¬rt.MatchesPending commit) :
    rt.installPrepared commit = (rt, .err .preparedSamplingMismatch) := by
  simp [SamplingRuntime.installPrepared, Outcome.require, h]

/-- A call other than the installation and the discarding of a commit. -/
inductive WaitStep (commit : PreparedSamplingCommit) (host : Host) : Host → Prop
  | perform (op : HostOp) (hallowed : host.Allowed op) (hinstall : op ≠ .install commit)
      (hdiscard : op ≠ .discard commit) : WaitStep commit host (host.perform op)

/-- A host that waits for a commit. -/
structure Waiting (commit : PreparedSamplingCommit) (host : Host) : Prop where
  inv : Inv host
  pending : Pending commit host
  nodup : (host.prepared.map (·.record.commitId)).Nodup

theorem Pending.congr {commit : PreparedSamplingCommit} {host host' : Host}
    (h : Pending commit host) (hplanner : host'.runtime.planner = host.runtime.planner)
    (hstate : host'.runtime.state = host.runtime.state) (hmem : commit ∈ host'.prepared) :
    Pending commit host' :=
  ⟨hmem, hstate.trans h.matched, by rw [hplanner]; exact h.scope, by rw [hplanner]; exact h.base⟩

theorem prepared_subset_perform (host : Host) {op : HostOp} (h : ∀ commit, op ≠ .install commit) :
    host.prepared ⊆ (host.perform op).prepared := by
  cases op with
  | begin | started | finish | compact =>
    unfold perform
    dsimp only
    split
    all_goals first
      | exact List.Subset.refl _
      | exact List.subset_append_left _ _
  | install commit => exact absurd rfl (h commit)
  | observe | register | stage | finishExecution | abort | discard | continueIn =>
    exact List.Subset.refl _

/-- Another commit that the host has does not match. -/
theorem Waiting.unmatched {commit other : PreparedSamplingCommit} {host : Host}
    (h : Waiting commit host) (hmem : other ∈ host.prepared) (hne : other ≠ commit) :
    ¬host.runtime.MatchesPending other :=
  fun hmatch ↦ hne (eq_of_matches h.nodup h.pending.mem hmem h.pending.matched hmatch)

/-- The host goes on to wait. -/
theorem Waiting.step {commit : PreparedSamplingCommit} {host host' : Host}
    (h : Waiting commit host) (hstep : WaitStep commit host host') :
    Waiting commit host' ∧ Undisturbed host host' := by
  cases hstep with
  | perform op hallowed hinstall hdiscard =>
    have hkept : Undisturbed host (host.perform op) ∧ commit ∈ (host.perform op).prepared := by
      by_cases hother : (∃ other, op = .install other) ∨ ∃ other, op = .discard other
      · rcases hother with ⟨other, rfl⟩ | ⟨other, rfl⟩
        · have hne : other ≠ commit := fun heq ↦ hinstall (heq ▸ rfl)
          have hperform : host.perform (.install other) =
              { host with prepared := host.prepared.erase other } := by
            simp only [perform, installPrepared_of_unmatched (h.unmatched hallowed hne)]
          rw [hperform]
          exact ⟨⟨rfl, rfl, rfl, List.erase_sublist⟩,
            (List.mem_erase_of_ne hne.symm).mpr h.pending.mem⟩
        · have hne : other ≠ commit := fun heq ↦ hdiscard (heq ▸ rfl)
          have hperform : host.perform (.discard other) = host := by
            simp only [perform, SamplingRuntime.discardUnpersistedPrepared,
              if_neg (h.unmatched hallowed hne)]
          rw [hperform]
          exact ⟨.refl host, h.pending.mem⟩
      · rw [not_or, not_exists, not_exists] at hother
        exact ⟨perform_of_prepared h.inv h.pending.matched hallowed hother.1 hother.2,
          prepared_subset_perform host hother.1 h.pending.mem⟩
    obtain ⟨hsame, hmem⟩ := hkept
    exact ⟨⟨h.inv.step (.perform op hallowed), h.pending.congr hsame.planner_eq hsame.state_eq hmem,
      h.nodup.sublist (hsame.prepared_sub.map _)⟩, hsame⟩

theorem Waiting.run {commit : PreparedSamplingCommit} {host host' : Host} (h : Waiting commit host)
    (hrun : ReflTransGen (WaitStep commit) host host') :
    Waiting commit host' ∧ Undisturbed host host' := by
  induction hrun with
  | refl => exact ⟨h, .refl host⟩
  | tail _ hstep ih =>
    obtain ⟨hwaiting, hsame⟩ := ih.1.step hstep
    exact ⟨hwaiting, ih.2.trans hsame⟩

/-! ## Every runtime that waits has its commit -/

/-- Where the runtime waits for a commit, the host has it. -/
def Supplied (host : Host) : Prop :=
  ∀ attemptId commitId, host.runtime.state = .prepared attemptId commitId →
    ∃ commit, Pending commit host

theorem Supplied.step {j j' : Journey} (h : Supplied j.host) (hissued : Issued j)
    (hstep : OnwardStep j j') : Supplied j'.host := by
  intro attemptId commitId hstate
  rcases hstep.cases hissued.inv with ⟨heffect, -⟩ | ⟨thread, q, -, hmoved, -⟩
  · rcases heffect.state_cases hstate with ⟨hstate₀, hplanner⟩ | ⟨-, -, hnew⟩
    · obtain ⟨commit, hpending⟩ := h _ _ hstate₀
      refine ⟨commit, hpending.congr hplanner (hstate.trans hstate₀.symm) ?_⟩
      cases hstep with
      | perform op hallowed hnew =>
        by_cases hinstall : ∃ other, op = .install other
        · obtain ⟨other, rfl⟩ := hinstall
          -- the pending commit itself would have been installed
          have hne : commit ≠ other := by
            rintro rfl
            have hafter := hpending.idle_of_spent List.mem_cons_self
            exact absurd (hafter.symm.trans hstate) (by simp)
          have herase : (j.host.perform (.install other)).prepared = j.host.prepared.erase other := by
            unfold perform
            dsimp only
            split <;> rfl
          exact herase ▸ (List.mem_erase_of_ne hne).mpr hpending.mem
        · exact prepared_subset_perform j.host (fun other heq ↦ hinstall ⟨other, heq⟩) hpending.mem
    · exact hnew
  · rw [hmoved.frame] at hstate
    exact absurd (hmoved.idle.symm.trans hstate) (by simp)

theorem supplied_of_onward {start : Host} (hstart : Started start) {j : Journey}
    (h : Onward ⟨[], start⟩ j) : Supplied j.host := by
  induction h with
  | refl =>
    obtain ⟨runtime, log, rfl, hstate, -⟩ := hstart.eq_start
    intro attemptId commitId hprepared
    exact absurd (hstate.symm.trans hprepared) (by simp)
  | tail hrun hstep ih => exact ih.step ((issued_start hstart).onward hrun) hstep

/-! ## The chain of installed commits -/

/-- Commits of which each names the one before it, from one identity to another. -/
def Chained : Option SamplingCommitId → List SamplingCommit → Option SamplingCommitId → Prop
  | first, [], last => first = last
  | first, record :: rest, last =>
      record.previousCommitId = first ∧ Chained (some record.commitId) rest last

theorem Chained.concat {first last : Option SamplingCommitId} {records : List SamplingCommit}
    (h : Chained first records last) {record : SamplingCommit}
    (hlast : record.previousCommitId = last) :
    Chained first (records ++ [record]) (some record.commitId) := by
  induction records generalizing first with
  | nil => exact ⟨hlast.trans (show first = last from h).symm, rfl⟩
  | cons head rest ih => exact ⟨h.1, ih h.2⟩

/-- The commits that were installed since the start of a run. -/
def installedSince (start host : Host) : List SamplingCommit :=
  (host.log.drop start.log.length).flatMap ReplayInput.commitRecords

theorem installedSince_append {start host host' : Host} (hpre : start.log <+: host.log)
    {more : List ReplayInput} (hlog : host'.log = host.log ++ more) :
    installedSince start host' =
      installedSince start host ++ more.flatMap ReplayInput.commitRecords := by
  rw [installedSince, hlog, List.drop_append_of_le_length hpre.length_le, List.flatMap_append]
  rfl

/-- What an effect does to the log and to the end of the chain. -/
theorem Effect.chain_cases {host host' : Host} (h : Effect host host') :
    ∃ more, host'.log = host.log ++ more ∧
      ((more.flatMap ReplayInput.commitRecords = [] ∧
          host'.runtime.planner.previousCommitId = host.runtime.planner.previousCommitId) ∨
        ∃ commit ∈ host.prepared, host.runtime.MatchesPending commit ∧
          host'.runtime.state = .idle ∧
          more.flatMap ReplayInput.commitRecords = [commit.record] ∧
          host.runtime.planner.previousCommitId = commit.candidate.baseCommitId ∧
          host'.runtime.planner.previousCommitId = commit.candidate.previousCommitId) := by
  cases h with
  | silent hplanner =>
    exact ⟨[], by simp, .inl ⟨rfl, congrArg (·.previousCommitId) hplanner⟩⟩
  | observed =>
    refine ⟨_, rfl, .inl ⟨List.flatMap_eq_nil_iff.mpr ?_, rfl⟩⟩
    intro input hinput
    obtain ⟨character, -, rfl⟩ := List.mem_map.mp hinput
    rfl
  | began => exact ⟨[], by simp, .inl ⟨rfl, rfl⟩⟩
  | started => exact ⟨_, rfl, .inl ⟨rfl, rfl⟩⟩
  | released _ h => exact ⟨[], by simp, .inl ⟨rfl, congrArg (·.planner.previousCommitId) h.frame⟩⟩
  | prepared _ _ _ _ _ _ _ hframe =>
    exact ⟨[], by simp, .inl ⟨rfl, congrArg (·.planner.previousCommitId) hframe⟩⟩
  | installed hmem hmatch hinstall =>
    obtain ⟨-, ⟨hbase, -⟩, rfl⟩ := SamplingPlanner.installPrepared_eq_ok hinstall
    exact ⟨_, rfl, .inr ⟨_, hmem, hmatch, rfl, rfl, hbase, rfl⟩⟩
  | discarded => exact ⟨[], by simp, .inl ⟨rfl, rfl⟩⟩
  | compacted _ hcompact =>
    obtain ⟨_, _, _, _, _, -, -, -, -, -, -, -, rfl⟩ := SamplingPlanner.compact_eq_ok hcompact
    exact ⟨_, rfl, .inl ⟨rfl, rfl⟩⟩

theorem Moved.chain {host host' : Host} {thread : ThreadNamespace} {q : SamplingPlanner}
    (h : Moved host thread q host') : host'.log = host.log ∧ host'.prepared = host.prepared ∧
      host'.runtime.planner.previousCommitId = host.runtime.planner.previousCommitId := by
  obtain ⟨source, -, -, hq⟩ := SamplingPlanner.continueInNamespace_eq_ok h.continue_eq
  rw [h.frame, hq]
  exact ⟨rfl, rfl, rfl⟩

/-- A prepared commit whose record and candidate agree on the chain. -/
structure CandidateAgrees (commit : PreparedSamplingCommit) : Prop where
  base : commit.record.previousCommitId = commit.candidate.baseCommitId
  next : commit.candidate.previousCommitId = some commit.record.commitId

theorem Effect.candidates {host host' : Host} (h : Effect host host')
    (hall : ∀ commit ∈ host.prepared, CandidateAgrees commit) :
    ∀ commit ∈ host'.prepared, CandidateAgrees commit := by
  cases h with
  | silent _ _ _ _ _ hprepared => exact fun commit hmem ↦ hall commit (hprepared.subset hmem)
  | prepared _ _ _ _ _ _ hprepare =>
    obtain ⟨_, _, _, _, _, _, -, -, -, -, -, -, -, -, rfl⟩ :=
      SamplingPlanner.prepareSampling_eq_ok hprepare
    intro commit hmem
    rcases List.mem_append.mp hmem with hold | hnew
    · exact hall commit hold
    · rw [List.mem_singleton.mp hnew]
      exact ⟨rfl, rfl⟩
  | installed => exact fun commit hmem ↦ hall commit (List.mem_of_mem_erase hmem)
  | observed | began | started | released | discarded | compacted => exact hall

/-- The state of the chain in a run. -/
structure Linked (start host : Host) : Prop where
  log_extends : start.log <+: host.log
  chain : Chained start.runtime.planner.previousCommitId (installedSince start host)
    host.runtime.planner.previousCommitId

theorem Linked.step {start host host' : Host} (h : Linked start host) (hinv : Inv host)
    (hall : ∀ commit ∈ host.prepared, CandidateAgrees commit) (hstep : Step host host') :
    Linked start host' := by
  rcases hstep.effect hinv with heffect | ⟨thread, q, hmoved⟩
  · obtain ⟨more, hlog, hcases⟩ := heffect.chain_cases
    refine ⟨h.log_extends.trans heffect.log_extends, ?_⟩
    rw [installedSince_append h.log_extends hlog]
    rcases hcases with ⟨hnone, hsame⟩ | ⟨commit, hmem, -, -, hone, hbase, hnext⟩
    · rw [hnone, List.append_nil, hsame]
      exact h.chain
    · rw [hone, hnext, (hall commit hmem).next]
      exact h.chain.concat ((hall commit hmem).base.trans hbase.symm)
  · obtain ⟨hlog, -, hprevious⟩ := hmoved.chain
    refine ⟨hlog ▸ h.log_extends, ?_⟩
    rw [installedSince, hlog, hprevious]
    exact h.chain

theorem Step.candidates {host host' : Host} (hinv : Inv host) (h : Step host host')
    (hall : ∀ commit ∈ host.prepared, CandidateAgrees commit) :
    ∀ commit ∈ host'.prepared, CandidateAgrees commit := by
  rcases h.effect hinv with heffect | ⟨thread, q, hmoved⟩
  · exact heffect.candidates hall
  · rw [hmoved.chain.2.1]
    exact hall

theorem linked_of_run {start host : Host} (hstart : Started start)
    (h : ReflTransGen Step start host) : Linked start host := by
  have hrun : Inv host ∧ (∀ commit ∈ host.prepared, CandidateAgrees commit) ∧
      Linked start host := by
    induction h with
    | refl =>
      refine ⟨hstart.inv, ?_, List.prefix_refl _, ?_⟩
      · obtain ⟨runtime, log, rfl, -, -⟩ := hstart.eq_start
        simp [Host.start]
      · rw [installedSince, List.drop_length]
        rfl
    | tail _ hstep ih =>
      exact ⟨ih.1.step hstep, hstep.candidates ih.1 ih.2.1, ih.2.2.step ih.1 ih.2.1 hstep⟩
  exact hrun.2.2

/-- The identities of the installed commits are those that the journey allocated, each once, and the
commit that the runtime waits for is not one of them. -/
structure InstalledOnce (start : Host) (j : Journey) : Prop where
  issued : ∀ record ∈ installedSince start j.host, CommitIssued j record.commitId
  nodup : ((installedSince start j.host).map (·.commitId)).Nodup
  waiting : ∀ attemptId commitId, j.host.runtime.state = .prepared attemptId commitId →
    commitId ∉ (installedSince start j.host).map (·.commitId)

theorem InstalledOnce.step {start : Host} {j j' : Journey} (h : InstalledOnce start j)
    (hpre : start.log <+: j.host.log) (hissued : Issued j) (hstep : OnwardStep j j') :
    InstalledOnce start j' := by
  have hkept : ∀ record ∈ installedSince start j.host, CommitIssued j' record.commitId :=
    fun record hmem ↦ (h.issued record hmem).step hissued.inv hstep
  rcases hstep.cases hissued.inv with ⟨heffect, -⟩ | ⟨thread, q, -, hmoved, -⟩
  · obtain ⟨more, hlog, hcases⟩ := heffect.chain_cases
    have happend := installedSince_append hpre hlog
    rcases hcases with ⟨hnone, -⟩ | ⟨commit, hmem, hmatch, hidle, hone, -, -⟩
    · rw [hnone, List.append_nil] at happend
      refine ⟨happend ▸ hkept, happend ▸ h.nodup, ?_⟩
      intro attemptId commitId hstate hold
      rw [happend] at hold
      rcases heffect.state_cases hstate with ⟨hstate₀, -⟩ | ⟨hthread, hvalue, -⟩
      · exact h.waiting _ _ hstate₀ hold
      · obtain ⟨record, hrecord, hid⟩ := List.mem_map.mp hold
        exact (h.issued record hrecord).ne hissued.thread hthread hvalue hid
    · rw [hone] at happend
      have hfresh := h.waiting _ _ hmatch
      refine ⟨?_, ?_, ?_⟩
      · intro record hrecord
        rw [happend] at hrecord
        rcases List.mem_append.mp hrecord with hold | hnew
        · exact hkept record hold
        · rw [List.mem_singleton.mp hnew]
          exact (hissued.issued commit hmem).step hissued.inv hstep
      · rw [happend, List.map_append, List.map_singleton, ← List.concat_eq_append,
          List.nodup_concat]
        exact ⟨hfresh, h.nodup⟩
      · intro attemptId commitId hstate
        exact absurd (hidle.symm.trans hstate) (by simp)
  · have hsame : installedSince start j'.host = installedSince start j.host := by
      rw [installedSince, hmoved.chain.1]
      rfl
    refine ⟨hsame ▸ hkept, hsame ▸ h.nodup, ?_⟩
    intro attemptId commitId hstate
    rw [hmoved.frame] at hstate
    exact absurd (hmoved.idle.symm.trans hstate) (by simp)

theorem Onward.run {j j' : Journey} (h : Onward j j') : ReflTransGen Step j.host j'.host :=
  h.lift Journey.host fun _ _ hstep ↦ hstep.step

theorem installedOnce_of_onward {start : Host} (hstart : Started start) {j : Journey}
    (h : Onward ⟨[], start⟩ j) : InstalledOnce start j := by
  induction h with
  | refl =>
    have hnone : installedSince start start = [] := by
      rw [installedSince, List.drop_length]
      rfl
    exact ⟨by simp [hnone], by simp [hnone], by simp [hnone]⟩
  | tail hrun hstep ih =>
    exact ih.step (linked_of_run hstart (Onward.run hrun)).log_extends
      ((issued_start hstart).onward hrun) hstep

/-! ## The contract of a prepared commit -/

/-- The commit stays installable until it is installed or discarded, and not after that. -/
structure InstallableOnce (j : Journey) (commit : PreparedSamplingCommit) : Prop where
  waits : ∀ host, ReflTransGen (WaitStep commit) j.host host →
    host.runtime.state = j.host.runtime.state ∧
    host.runtime.planner.source = j.host.runtime.planner.source ∧
    host.runtime.planner.previousCommitId = j.host.runtime.planner.previousCommitId ∧
    host.runtime.planner.committedSourceCells = j.host.runtime.planner.committedSourceCells ∧
    (host.runtime.installPrepared commit).2 = .ok ()
  spent : ∀ host, ReflTransGen (WaitStep commit) j.host host →
    ∀ op ∈ [HostOp.install commit, .discard commit], ∀ later,
      Onward ⟨j.left, host.perform op⟩ later →
        (later.host.runtime.installPrepared commit).2 = .err .preparedSamplingMismatch

theorem Issued.undisturbed {left : List ThreadNamespace} {host host' : Host}
    (h : Issued ⟨left, host⟩) (hinv : Inv host') (hsame : Undisturbed host host') :
    Issued ⟨left, host'⟩ := by
  have hthread : (Journey.mk left host').thread = (Journey.mk left host).thread :=
    congrArg (·.source.thread) hsame.planner_eq
  refine ⟨hinv, hthread ▸ h.thread, ?_, h.nodup.sublist (hsame.prepared_sub.map _)⟩
  intro commit hmem
  have hissued := h.issued commit (hsame.prepared_sub.subset hmem)
  rw [CommitIssued, hthread, hsame.nextCommit_eq]
  exact hissued

theorem Waiting.installableOnce {commit : PreparedSamplingCommit} {j : Journey} (hissued : Issued j)
    (h : Waiting commit j.host) : InstallableOnce j commit := by
  constructor
  · intro host hrun
    obtain ⟨hwaiting, hsame⟩ := h.run hrun
    rw [hsame.planner_eq]
    exact ⟨hsame.state_eq, rfl, rfl, rfl, hwaiting.pending.install.1⟩
  · intro host hrun op hop later hlater
    obtain ⟨hwaiting, hsame⟩ := h.run hrun
    have hbefore : Issued ⟨j.left, host⟩ := hissued.undisturbed hwaiting.inv hsame
    have hallowed : host.Allowed op := by
      rw [List.mem_pair] at hop
      rcases hop with rfl | rfl
      · exact hwaiting.pending.mem
      · exact hwaiting.pending.mem
    have hlocal : ∀ thread, op ≠ .continueIn thread := by
      rintro thread rfl
      simp at hop
    have heffect := perform_effect hwaiting.inv hallowed hlocal
    have hjourney : (Journey.mk j.left host).perform op = ⟨j.left, host.perform op⟩ :=
      congrArg (Journey.mk · (host.perform op)) (if_pos heffect.thread_eq)
    have hstep : OnwardStep ⟨j.left, host⟩ ⟨j.left, host.perform op⟩ :=
      hjourney ▸ .perform op hallowed fun thread heq ↦ absurd heq (hlocal thread)
    have hspent : Spent commit ⟨j.left, host.perform op⟩ := by
      refine ⟨(hbefore.issued commit hwaiting.pending.mem).step hwaiting.inv hstep, ?_⟩
      intro hmatch
      exact absurd ((hwaiting.pending.idle_of_spent hop).symm.trans hmatch) (by simp)
    rw [installPrepared_of_unmatched (hspent.onward (hbefore.step hstep) hlater).unmatched]

/-- What holds of the prepared and the installed commits in a run. -/
structure InstallContract (start : Host) (j : Journey) : Prop where
  supplied : ∀ attemptId commitId, j.host.runtime.state = .prepared attemptId commitId →
    ∃ commit ∈ j.host.prepared, j.host.runtime.MatchesPending commit
  once : ∀ commit ∈ j.host.prepared, j.host.runtime.MatchesPending commit → InstallableOnce j commit
  nodup : ((installedSince start j.host).map (·.commitId)).Nodup

/-- In every run that does not return to a namespace a prepared commit stays installable until it is
installed or discarded, once; in every run the installed commits form one chain. -/
theorem installs_of_started {start : Host} (hstart : Started start) :
    (∀ j, Onward ⟨[], start⟩ j → InstallContract start j) ∧
      ∀ host, ReflTransGen Step start host → Linked start host := by
  refine ⟨fun j hrun ↦ ?_, fun host hrun ↦ linked_of_run hstart hrun⟩
  have hissued := (issued_start hstart).onward hrun
  have hsupplied := supplied_of_onward hstart hrun
  refine ⟨?_, ?_, (installedOnce_of_onward hstart hrun).nodup⟩
  · intro attemptId commitId hstate
    obtain ⟨commit, hpending⟩ := hsupplied attemptId commitId hstate
    exact ⟨commit, hpending.mem, hpending.matched⟩
  · intro commit hmem hmatch
    obtain ⟨pending, hpending⟩ := hsupplied _ _ hmatch
    obtain rfl := eq_of_matches hissued.nodup hmem hpending.mem hmatch hpending.matched
    exact Waiting.installableOnce hissued ⟨hissued.inv, hpending, hissued.nodup⟩

/-- Calls in one namespace are onward. -/
theorem onward_of_mayRun {j : Journey} {ops : List HostOp} (h : j.host.mayRun ops = true)
    (hlocal : ∀ op ∈ ops, ∀ thread, op ≠ .continueIn thread) :
    Onward j (ops.foldl Journey.perform j) := by
  induction ops generalizing j with
  | nil => exact .refl
  | cons op rest ih =>
    simp only [mayRun, Bool.and_eq_true, decide_eq_true_eq] at h
    refine .head (.perform op h.1 fun thread heq ↦ ?_) (ih h.2 fun other hother ↦
      hlocal other (List.mem_cons_of_mem _ hother))
    exact absurd heq (hlocal op List.mem_cons_self thread)

/-- The calls of a first sampling, up to its prepared commit. -/
theorem firstAttempt_valid : ValidComponent (attemptIdText exampleThread 0) := by decide

def firstSampling : List HostOp :=
  [.observe [.opaqueItem 0], .begin, .started (exampleHandle 0 0 firstAttempt_valid),
    .finish (exampleHandle 0 0 firstAttempt_valid) .completed none]

theorem installable_after_first_sampling :
    let first := firstSampling.foldl Journey.perform
      ⟨[], start (.new exampleThread 0 exampleConfig) []⟩
    ∃ commit, first.host.runtime.MatchesPending commit ∧ InstallableOnce first commit := by
  intro first
  have hrun : Onward ⟨[], start (.new exampleThread 0 exampleConfig) []⟩ first :=
    onward_of_mayRun (by decide +kernel) (by simp [firstSampling])
  have hcontract := (installs_of_started (.new exampleThread 0 exampleConfig)).1 first hrun
  have hmatch : ∃ commit ∈ first.host.prepared, first.host.runtime.MatchesPending commit := by
    decide +kernel
  obtain ⟨commit, hmem, hmatch⟩ := hmatch
  exact ⟨commit, hmatch, hcontract.once commit hmem hmatch⟩

end Host

end SpineCodex
