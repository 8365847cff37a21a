import SpineCodex.Runtime.Effects

/-!
# Identities after recovery

A recovered runtime continues to count attempts and commits at the number of distinct
ones in the log.  Its identities are new exactly when the recorded ordinals have no gap.
-/

namespace SpineCodex

/-- The attempts that an input starts. -/
def ReplayInput.startedAttempts : ReplayInput → List SamplingAttemptId
  | .archive (.samplingStarted record) => [record.attemptId]
  | .archive (.samplingCommit _) | .source _ | .compact _ | .usage _ => []

/-- The attempts that an input commits. -/
def ReplayInput.committedAttempts : ReplayInput → List SamplingAttemptId
  | .archive (.samplingCommit record) => [record.attemptId]
  | .archive (.samplingStarted _) | .source _ | .compact _ | .usage _ => []

def ReplayInput.commits : ReplayInput → List SamplingCommitId
  | .archive (.samplingCommit record) => [record.commitId]
  | .archive (.samplingStarted _) | .source _ | .compact _ | .usage _ => []

/-- The attempt ids that a log records. -/
def recordedAttempts (log : List ReplayInput) : List SamplingAttemptId :=
  log.flatMap ReplayInput.startedAttempts ++ log.flatMap ReplayInput.committedAttempts

/-- The commit ids that a log records. -/
def recordedCommits (log : List ReplayInput) : List SamplingCommitId :=
  log.flatMap ReplayInput.commits

/-! ## What replay counts -/

namespace ReplayState

/-- The namespace of a log is the one of its started records. -/
structure Counted (thread : ThreadNamespace) (log : List ReplayInput) (s : ReplayState) : Prop where
  thread_eq : s.source.thread = thread
  attempts_eq : s.attemptIds = (log.flatMap ReplayInput.startedAttempts).toFinset
  commits_eq : s.commits = (recordedCommits log).toFinset

theorem applyStarted_ids {s s' : ReplayState} {record : SamplingStarted}
    (hthread : record.attemptId.thread = s.source.thread) (h : s.applyStarted record = .ok s') :
    s'.source = s.source ∧ s'.attemptIds = insert record.attemptId s.attemptIds ∧
      s'.commits = s.commits := by
  obtain ⟨s₁, hfollow, h⟩ := Outcome.bind_eq_ok.mp h
  obtain ⟨_, -, h⟩ := Outcome.bind_eq_ok.mp h
  rw [followNamespace, if_pos hthread] at hfollow
  obtain rfl := Outcome.ok.inj hfollow
  split_ifs at h
  · obtain rfl := Outcome.ok.inj h
    exact ⟨rfl, rfl, rfl⟩
  · obtain rfl := Outcome.ok.inj h
    exact ⟨rfl, rfl, rfl⟩

theorem applyCommit_ids {s s' : ReplayState} {record : SamplingCommit}
    (h : s.applyCommit record = .ok s') :
    s'.source = s.source ∧ s'.attemptIds = s.attemptIds ∧
      s'.commits = insert record.commitId s.commits := by
  unfold applyCommit at h
  split_ifs at h with hseen
  · obtain rfl := Outcome.ok.inj h
    exact ⟨rfl, rfl, (Finset.insert_eq_of_mem hseen).symm⟩
  · simp only [Outcome.bind_eq_ok] at h
    obtain ⟨_, -, ⟨⟨_, _⟩, _⟩, -, h⟩ := h
    obtain rfl := Outcome.ok.inj h
    exact ⟨rfl, rfl, rfl⟩

theorem nextLedger_thread {l l' : SourceLedger} {barrier : SpineCompactBarrierV1}
    (h : SamplingPlanner.nextLedger l barrier = .ok l') : l'.thread = l.thread := by
  obtain ⟨l₁, hadvance, happend⟩ := Outcome.bind_eq_ok.mp h
  obtain ⟨_, -, hadvance⟩ := Outcome.bind_eq_ok.mp hadvance
  obtain ⟨_, -, hadvance⟩ := Outcome.bind_eq_ok.mp hadvance
  obtain rfl := Outcome.ok.inj hadvance
  exact (SourceLedger.appendAll_frame happend).1

theorem applyCompact_ids {s s' : ReplayState} {barrier : SpineCompactBarrierV1}
    (h : s.applyCompact barrier = .ok s') :
    s'.source.thread = s.source.thread ∧ s'.attemptIds = s.attemptIds ∧ s'.commits = s.commits := by
  simp only [applyCompact, Outcome.bind_eq_ok] at h
  obtain ⟨_, -, _, -, ⟨_, _⟩, -, source, hsource, h⟩ := h
  obtain rfl := Outcome.ok.inj h
  exact ⟨nextLedger_thread (Outcome.mapErr_eq_ok.mp hsource), rfl, rfl⟩

/-- One input of a log in a single namespace. -/
theorem Counted.applyInput {thread : ThreadNamespace} {log : List ReplayInput} {input : ReplayInput}
    {s s' : ReplayState} (hcounted : Counted thread log s)
    (hinput : ∀ id ∈ input.startedAttempts, id.thread = thread) (h : s.applyInput input = .ok s') :
    Counted thread (log ++ [input]) s' := by
  obtain ⟨hthread, hattempts, hcommits⟩ := hcounted
  cases input with
  | source character =>
    obtain ⟨source, hsource, h⟩ := Outcome.bind_eq_ok.mp h
    obtain rfl := Outcome.ok.inj h
    have hframe := SourceLedger.appendAll_frame (Outcome.mapErr_eq_ok.mp hsource)
    refine ⟨hframe.1.trans hthread, ?_, ?_⟩
    · simpa [ReplayInput.startedAttempts] using hattempts
    · simpa [recordedCommits, ReplayInput.commits] using hcommits
  | archive record =>
    obtain ⟨_, -, h⟩ := Outcome.bind_eq_ok.mp h
    cases record with
    | samplingStarted record =>
      have hrecord : record.attemptId.thread = thread := hinput _ (List.mem_singleton_self _)
      obtain ⟨hsource, hids, hsame⟩ := applyStarted_ids (hrecord.trans hthread.symm) h
      refine ⟨by rw [hsource, hthread], ?_, ?_⟩
      · rw [hids, hattempts]
        ext id
        simp [ReplayInput.startedAttempts]
      · rw [hsame, hcommits]
        simp [recordedCommits, ReplayInput.commits]
    | samplingCommit record =>
      obtain ⟨hsource, hsame, hids⟩ := applyCommit_ids h
      refine ⟨by rw [hsource, hthread], ?_, ?_⟩
      · rw [hsame, hattempts]
        simp [ReplayInput.startedAttempts]
      · rw [hids, hcommits]
        ext id
        simp [recordedCommits, ReplayInput.commits]
  | compact barrier =>
    obtain ⟨hsource, hids, hsame⟩ := applyCompact_ids h
    refine ⟨hsource.trans hthread, ?_, ?_⟩
    · rw [hids, hattempts]
      simp [ReplayInput.startedAttempts]
    · rw [hsame, hcommits]
      simp [recordedCommits, ReplayInput.commits]
  | usage sample =>
    obtain rfl := Outcome.ok.inj h
    refine ⟨hthread, ?_, ?_⟩
    · simpa [ReplayInput.startedAttempts] using hattempts
    · simpa [recordedCommits, ReplayInput.commits] using hcommits

theorem Counted.foldlM {thread : ThreadNamespace} {more : List ReplayInput} :
    ∀ {log : List ReplayInput} {s s' : ReplayState}, Counted thread log s →
      (∀ id ∈ more.flatMap ReplayInput.startedAttempts, id.thread = thread) →
      more.foldlM ReplayState.applyInput s = .ok s' → Counted thread (log ++ more) s' := by
  induction more with
  | nil =>
    intro log s s' hcounted _ h
    obtain rfl := Outcome.ok.inj h
    simpa using hcounted
  | cons input rest ih =>
    intro log s s' hcounted hids h
    rw [List.foldlM_cons] at h
    obtain ⟨s₁, hinput, hrest⟩ := Outcome.bind_eq_ok.mp h
    have hfirst := hcounted.applyInput
      (fun id hid ↦ hids id (by simp only [List.flatMap_cons, List.mem_append]; exact .inl hid)) hinput
    have hlog := ih hfirst
      (fun id hid ↦ hids id (by simp only [List.flatMap_cons, List.mem_append]; exact .inr hid)) hrest
    simpa using hlog

end ReplayState

/-- The counters of a recovered runtime are the numbers of distinct identities in the log. -/
theorem CanonicalReplay.prepare_counters {thread : ThreadNamespace} {config : SpineConfig}
    {log : List ReplayInput} {result : PreparedReplay}
    (hids : ∀ id ∈ log.flatMap ReplayInput.startedAttempts, id.thread = thread)
    (hcommits : ∀ id ∈ recordedCommits log, id.thread = thread)
    (h : CanonicalReplay.prepare ⟨thread, config⟩ log = .ok result) :
    result.candidate.planner.source.thread = thread ∧
      result.candidate.nextAttempt = (log.flatMap ReplayInput.startedAttempts).toFinset.card ∧
      result.candidate.nextCommit = (recordedCommits log).toFinset.card := by
  rw [CanonicalReplay.prepare_eq] at h
  obtain ⟨s, hfold, hfinish⟩ := Outcome.bind_eq_ok.mp h
  have hinitial : ReplayState.Counted thread [] (.initial thread) := ⟨rfl, rfl, rfl⟩
  obtain ⟨hthread, hattempts, hcommitIds⟩ := hinitial.foldlM hids hfold
  simp only [ReplayState.finish, Outcome.bind_eq_ok] at hfinish
  obtain ⟨⟨planner, plan⟩, hplanner, _, -, _, -, _, -, hfinish⟩ := hfinish
  obtain ⟨⟨_, _⟩, -, hplanner⟩ := Outcome.bind_eq_ok.mp hplanner
  obtain ⟨rfl, -⟩ := Prod.mk.inj (Outcome.ok.inj hplanner)
  obtain rfl := Outcome.ok.inj hfinish
  refine ⟨hthread, ?_, ?_⟩
  · simp only [SamplingRuntime.fromReplay, ReplayState.countInThread, hattempts, hthread,
      List.nil_append]
    rw [Finset.filter_true_of_mem fun id hid ↦ hids id (List.mem_toFinset.mp hid)]
  · simp only [SamplingRuntime.fromReplay, ReplayState.countInThread, hcommitIds, hthread,
      List.nil_append]
    rw [Finset.filter_true_of_mem fun id hid ↦ hcommits id (List.mem_toFinset.mp hid)]

/-! ## What a run allocates -/

/-- An identity of a namespace whose ordinal is in a range. -/
def Named (text : ThreadNamespace → ℕ → String) (thread : ThreadNamespace) (low high : ℕ)
    (id : NamespacedId) : Prop :=
  id.thread = thread ∧ ∃ n, low ≤ n ∧ n < high ∧ id.value = text thread n

theorem Named.mono {text : ThreadNamespace → ℕ → String} {thread : ThreadNamespace} {low high high' : ℕ}
    {id : NamespacedId} (h : Named text thread low high id) (hle : high ≤ high') :
    Named text thread low high' id := by
  obtain ⟨hthread, n, hlow, hhigh, hvalue⟩ := h
  exact ⟨hthread, n, hlow, lt_of_lt_of_le hhigh hle, hvalue⟩

/-- A log whose records name their identities by ordinals in the ranges and commit only attempts
that they started. -/
structure LogNamed (thread : ThreadNamespace) (lowAttempt highAttempt lowCommit highCommit : ℕ)
    (log : List ReplayInput) : Prop where
  attempts : ∀ id ∈ recordedAttempts log, Named attemptIdText thread lowAttempt highAttempt id
  commits : ∀ id ∈ recordedCommits log, Named commitIdText thread lowCommit highCommit id
  started : log.flatMap ReplayInput.committedAttempts ⊆ log.flatMap ReplayInput.startedAttempts

theorem LogNamed.mono {thread : ThreadNamespace} {a b c d b' d' : ℕ} {log : List ReplayInput}
    (h : LogNamed thread a b c d log) (hb : b ≤ b') (hd : d ≤ d') : LogNamed thread a b' c d' log :=
  ⟨fun id hid ↦ (h.attempts id hid).mono hb, fun id hid ↦ (h.commits id hid).mono hd, h.started⟩

theorem logNamed_nil (thread : ThreadNamespace) (a b c d : ℕ) : LogNamed thread a b c d [] where
  attempts := by simp [recordedAttempts]
  commits := by simp [recordedCommits]
  started := by simp

theorem recordedAttempts_append (xs ys : List ReplayInput) (id : SamplingAttemptId) :
    id ∈ recordedAttempts (xs ++ ys) ↔ id ∈ recordedAttempts xs ∨ id ∈ recordedAttempts ys := by
  simp only [recordedAttempts, List.flatMap_append, List.mem_append]
  tauto

theorem recordedCommits_append (xs ys : List ReplayInput) (id : SamplingCommitId) :
    id ∈ recordedCommits (xs ++ ys) ↔ id ∈ recordedCommits xs ∨ id ∈ recordedCommits ys := by
  simp only [recordedCommits, List.flatMap_append, List.mem_append]

/-- Logs in a namespace compose. -/
theorem LogNamed.append {thread : ThreadNamespace} {a b c d : ℕ} {xs ys : List ReplayInput}
    (hxs : LogNamed thread a b c d xs)
    (hattempts : ∀ id ∈ recordedAttempts ys, Named attemptIdText thread a b id)
    (hcommits : ∀ id ∈ recordedCommits ys, Named commitIdText thread c d id)
    (hstarted : ys.flatMap ReplayInput.committedAttempts ⊆
      (xs ++ ys).flatMap ReplayInput.startedAttempts) : LogNamed thread a b c d (xs ++ ys) where
  attempts := by
    intro id hid
    rcases (recordedAttempts_append xs ys id).mp hid with h | h
    · exact hxs.attempts id h
    · exact hattempts id h
  commits := by
    intro id hid
    rcases (recordedCommits_append xs ys id).mp hid with h | h
    · exact hxs.commits id h
    · exact hcommits id h
  started := by
    rw [List.flatMap_append]
    refine List.append_subset.mpr ⟨?_, hstarted⟩
    rw [List.flatMap_append]
    exact List.Subset.trans hxs.started (List.subset_append_left _ _)

/-- Source characters, barriers and usage samples record no identity. -/
theorem LogNamed.append_plain {thread : ThreadNamespace} {a b c d : ℕ} {xs ys : List ReplayInput}
    (hxs : LogNamed thread a b c d xs) (hplain : ∀ input ∈ ys, ∀ record, input ≠ .archive record) :
    LogNamed thread a b c d (xs ++ ys) := by
  have hnone : ∀ input ∈ ys, input.startedAttempts = [] ∧ input.committedAttempts = [] ∧
      input.commits = [] := by
    intro input hinput
    have hne := hplain input hinput
    cases input with
    | archive record => exact absurd rfl (hne record)
    | source character => exact ⟨rfl, rfl, rfl⟩
    | compact barrier => exact ⟨rfl, rfl, rfl⟩
    | usage sample => exact ⟨rfl, rfl, rfl⟩
  have hstarted : ys.flatMap ReplayInput.startedAttempts = [] :=
    List.flatMap_eq_nil_iff.mpr fun input h ↦ (hnone input h).1
  have hcommitted : ys.flatMap ReplayInput.committedAttempts = [] :=
    List.flatMap_eq_nil_iff.mpr fun input h ↦ (hnone input h).2.1
  have hcommits : ys.flatMap ReplayInput.commits = [] :=
    List.flatMap_eq_nil_iff.mpr fun input h ↦ (hnone input h).2.2
  refine hxs.append ?_ ?_ ?_
  · simp [recordedAttempts, hstarted, hcommitted]
  · simp [recordedCommits, hcommits]
  · simp [hcommitted]

namespace Host

open SamplingRuntime Relation

/-- What a run in one namespace has allocated since its counters stood at `lowAttempt` and
`lowCommit` and its log at `base`. -/
structure Allocated (thread : ThreadNamespace) (lowAttempt lowCommit : ℕ) (base : List ReplayInput)
    (host : Host) : Prop where
  thread_eq : host.runtime.planner.source.thread = thread
  attempt_le : lowAttempt ≤ host.runtime.nextAttempt
  commit_le : lowCommit ≤ host.runtime.nextCommit
  handles : ∀ handle ∈ host.handles,
    Named attemptIdText thread lowAttempt host.runtime.nextAttempt handle.attempt.attemptId
  own : ∃ own, host.log = base ++ own ∧
    LogNamed thread lowAttempt host.runtime.nextAttempt lowCommit host.runtime.nextCommit own ∧
    (∀ batch, host.runtime.state = .active batch → batch.started = true →
      batch.attemptId ∈ own.flatMap ReplayInput.startedAttempts) ∧
    ∀ commit ∈ host.prepared,
      Named commitIdText thread lowCommit host.runtime.nextCommit commit.record.commitId ∧
        commit.record.attemptId ∈ own.flatMap ReplayInput.startedAttempts

/-- Where the state of a batch was kept, a recorded start was recorded before. -/
theorem started_of_batchKept {state state' : SamplingRuntimeState} (h : BatchKept state state')
    {batch' : SamplingExecutionBatch} (hstate : state' = .active batch') :
    ∃ batch, state = .active batch ∧ batch'.attemptId = batch.attemptId ∧
      batch'.started = batch.started := by
  cases h with
  | idle => simp at hstate
  | active hattempt hpre hstarted hsink =>
    obtain rfl := SamplingRuntimeState.active.inj hstate
    exact ⟨_, rfl, hattempt, hstarted⟩
  | prepared attemptId commitId => simp at hstate

theorem mem_startedAttempts_append {id : SamplingAttemptId} {own : List ReplayInput}
    (more : List ReplayInput) (h : id ∈ own.flatMap ReplayInput.startedAttempts) :
    id ∈ (own ++ more).flatMap ReplayInput.startedAttempts := by
  rw [List.flatMap_append]
  exact List.mem_append_left _ h

theorem Allocated.effect {thread : ThreadNamespace} {a c : ℕ} {base : List ReplayInput}
    {host host' : Host} (h : Allocated thread a c base host) (heffect : Effect host host') :
    Allocated thread a c base host' := by
  obtain ⟨hthread, hattempt, hcommit, hhandles, own, hlog, hnamed, hactive, hprepared⟩ := h
  cases heffect with
  | silent hplanner hstate hle hsame hsub hsub' =>
    refine ⟨by rw [hplanner, hthread], hattempt.trans hle, by rw [hsame]; exact hcommit,
      fun handle hmem ↦ (hhandles handle (hsub hmem)).mono hle, own, hlog,
      hnamed.mono hle (le_of_eq hsame.symm), ?_, ?_⟩
    · intro batch hbatch hstarted
      obtain ⟨batch₀, hbatch₀, hid, hsame'⟩ := started_of_batchKept hstate hbatch
      rw [hid]
      exact hactive batch₀ hbatch₀ (hsame' ▸ hstarted)
    · intro commit hmem
      rw [hsame]
      exact hprepared commit (hsub'.subset hmem)
  | observed hstate happend =>
    refine ⟨(SourceLedger.appendAll_frame happend).1.trans hthread, hattempt, hcommit, hhandles,
      own ++ _, by rw [hlog, List.append_assoc], hnamed.append_plain ?_, ?_, ?_⟩
    · intro input hinput
      obtain ⟨character, -, rfl⟩ := List.mem_map.mp hinput
      simp
    · intro batch hbatch hstarted
      exact mem_startedAttempts_append _ (hactive batch hbatch hstarted)
    · intro commit hmem
      exact (hprepared commit hmem).imp_right (mem_startedAttempts_append _)
  | began attemptId hbegin =>
    have hle : host.runtime.nextAttempt ≤ host.runtime.nextAttempt + 1 := Nat.le_succ _
    refine ⟨hthread, hattempt.trans hle, hcommit, ?_, own, hlog, hnamed.mono hle (le_refl _), ?_,
      hprepared⟩
    · intro handle hmem
      rcases List.mem_append.mp hmem with hold | hnew
      · exact (hhandles handle hold).mono hle
      · rw [List.mem_singleton.mp hnew]
        exact ⟨hbegin.thread_eq.trans hthread, _, hattempt, Nat.lt_succ_self _,
          hthread ▸ hbegin.value_eq⟩
    · intro batch hbatch hstarted
      obtain rfl := SamplingRuntimeState.active.inj hbatch
      simp at hstarted
  | started hmem hstate hid hstarted hvalid =>
    rename_i handle batch
    refine ⟨hthread, hattempt, hcommit, hhandles, own ++ _, by rw [hlog, List.append_assoc],
      hnamed.append ?_ ?_ ?_, ?_, ?_⟩
    · intro id hmem'
      have hid' : id = handle.attempt.attemptId := by
        simpa [recordedAttempts, ReplayInput.startedAttempts, ReplayInput.committedAttempts,
          startedRecord] using hmem'
      rw [hid']
      exact hhandles handle hmem
    · simp [recordedCommits, ReplayInput.commits]
    · simp [ReplayInput.committedAttempts]
    · intro batch' hbatch _
      obtain rfl := SamplingRuntimeState.active.inj hbatch
      rw [List.flatMap_append]
      refine List.mem_append_right _ ?_
      simp [ReplayInput.startedAttempts, startedRecord, hid]
    · intro commit hmem'
      exact (hprepared commit hmem').imp_right (mem_startedAttempts_append _)
  | released hactive' hreleased hsub =>
    rw [hreleased.frame]
    exact ⟨hthread, hattempt, hcommit, fun handle hmem ↦ hhandles handle (hsub hmem), own, hlog,
      hnamed, by simp, hprepared⟩
  | prepared hmem hstate hid hstarted hcthread hvalue hprepare hframe hsub =>
    obtain ⟨_, _, _, _, _, _, -, -, -, -, -, -, -, -, rfl⟩ :=
      SamplingPlanner.prepareSampling_eq_ok hprepare
    have hle : host.runtime.nextCommit ≤ host.runtime.nextCommit + 1 := Nat.le_succ _
    rw [hframe]
    refine ⟨hthread, hattempt, hcommit.trans hle, fun handle hmem ↦ hhandles handle (hsub hmem), own,
      hlog, hnamed.mono (le_refl _) hle, by simp, ?_⟩
    intro commit hmem'
    rcases List.mem_append.mp hmem' with hold | hnew
    · exact ⟨(hprepared commit hold).1.mono hle, (hprepared commit hold).2⟩
    · rw [List.mem_singleton.mp hnew]
      refine ⟨⟨hcthread.trans hthread, _, hcommit, Nat.lt_succ_self _, hthread ▸ hvalue⟩, ?_⟩
      have hown := hactive _ hstate hstarted
      rw [hid] at hown
      exact hown
  | installed hmem hmatch hinstall =>
    rename_i commit q
    obtain ⟨-, -, rfl⟩ := SamplingPlanner.installPrepared_eq_ok hinstall
    obtain ⟨hname, hrecorded⟩ := hprepared commit hmem
    refine ⟨hthread, hattempt, hcommit, hhandles, own ++ _, by rw [hlog, List.append_assoc],
      hnamed.append ?_ ?_ ?_, by simp, ?_⟩
    · intro id hmem'
      have hid' : id = commit.record.attemptId := by
        simpa [recordedAttempts, ReplayInput.startedAttempts, ReplayInput.committedAttempts]
          using hmem'
      rw [hid']
      exact hnamed.attempts _ (List.mem_append_left _ hrecorded)
    · intro id hmem'
      have hid' : id = commit.record.commitId := by
        simpa [recordedCommits, ReplayInput.commits] using hmem'
      rw [hid']
      exact hname
    · rw [List.flatMap_append]
      simp [ReplayInput.committedAttempts, ReplayInput.startedAttempts, hrecorded]
    · intro other hmem'
      have hother := hprepared other (List.mem_of_mem_erase hmem')
      exact hother.imp_right (mem_startedAttempts_append _)
  | discarded hstate =>
    exact ⟨hthread, hattempt, hcommit, hhandles, own, hlog, hnamed, by simp, hprepared⟩
  | compacted hstate hcompact =>
    obtain ⟨_, _, _, _, _, -, -, -, -, hsource, -, -, rfl⟩ := SamplingPlanner.compact_eq_ok hcompact
    refine ⟨(ReplayState.nextLedger_thread hsource).trans hthread, hattempt, hcommit, hhandles,
      own ++ _, by rw [hlog, List.append_assoc], hnamed.append_plain (by simp), ?_, ?_⟩
    · simp [hstate]
    · intro commit hmem'
      exact (hprepared commit hmem').imp_right (mem_startedAttempts_append _)

/-- A call that stays in the namespace. -/
inductive LocalStep (host : Host) : Host → Prop
  | perform (op : HostOp) (hallowed : host.Allowed op) (hlocal : ∀ thread, op ≠ .continueIn thread) :
      LocalStep host (host.perform op)

/-- The hosts of runs in one namespace, with any recoveries on the way. -/
inductive InThread (thread : ThreadNamespace) : Host → Prop
  | new (epoch : ContextEpoch) (config : SpineConfig) :
      InThread thread (start (.new thread epoch config) [])
  | recovered {host : Host} {config : SpineConfig} {result : PreparedReplay}
      (hhost : InThread thread host)
      (h : CanonicalReplay.prepare ⟨thread, config⟩ host.log = .ok result) :
      InThread thread (start result.candidate host.log)
  | step {host host' : Host} (hhost : InThread thread host) (h : LocalStep host host') :
      InThread thread host'

theorem LocalStep.step {host host' : Host} (h : LocalStep host host') : Step host host' := by
  cases h with
  | perform op hallowed _ => exact .perform op hallowed

/-- Whether a host may make a list of calls without leaving its namespace. -/
def localRun (host : Host) : List HostOp → Bool
  | [] => true
  | op :: rest => decide (host.Allowed op) && (match op with | .continueIn _ => false | _ => true) &&
      localRun (host.perform op) rest

theorem InThread.run {thread : ThreadNamespace} {host : Host} (hhost : InThread thread host)
    {ops : List HostOp} (h : host.localRun ops = true) : InThread thread (ops.foldl perform host) := by
  induction ops generalizing host with
  | nil => exact hhost
  | cons op rest ih =>
    simp only [localRun, Bool.and_eq_true, decide_eq_true_eq] at h
    refine ih (hhost.step (.perform op h.1.1 ?_)) h.2
    rintro thread rfl
    simp at h

theorem InThread.reachable {thread : ThreadNamespace} {host : Host} (h : InThread thread host) :
    Reachable host := by
  induction h with
  | new epoch config => exact .new thread epoch config
  | recovered _ hprepare ih => exact .recovered _ _ _ ih hprepare
  | step _ hstep ih => exact ih.step hstep.step

theorem Allocated.step {thread : ThreadNamespace} {a c : ℕ} {base : List ReplayInput}
    {host host' : Host} (hinv : Inv host) (h : Allocated thread a c base host)
    (hstep : LocalStep host host') : Allocated thread a c base host' := by
  cases hstep with
  | perform op hallowed hlocal => exact h.effect (perform_effect hinv hallowed hlocal)

/-- A host around a recovered runtime has allocated nothing. -/
theorem allocated_start {thread : ThreadNamespace} (runtime : SamplingRuntime)
    (log : List ReplayInput) (hthread : runtime.planner.source.thread = thread)
    (hstate : runtime.state = .idle) :
    Allocated thread runtime.nextAttempt runtime.nextCommit log (start runtime log) :=
  ⟨hthread, le_refl _, le_refl _, by simp [start], [], by simp [start],
    logNamed_nil _ _ _ _ _, by simp [start, hstate], by simp [start]⟩

/-- Every record of a log in one namespace names its identities by ordinals. -/
structure LogInThread (thread : ThreadNamespace) (log : List ReplayInput) : Prop where
  attempts : ∀ id ∈ recordedAttempts log, id.thread = thread ∧ ∃ n, id.value = attemptIdText thread n
  commits : ∀ id ∈ recordedCommits log, id.thread = thread ∧ ∃ n, id.value = commitIdText thread n
  started : log.flatMap ReplayInput.committedAttempts ⊆ log.flatMap ReplayInput.startedAttempts

theorem Allocated.logInThread {thread : ThreadNamespace} {a c : ℕ} {base : List ReplayInput}
    {host : Host} (h : Allocated thread a c base host) (hbase : LogInThread thread base) :
    LogInThread thread host.log := by
  obtain ⟨own, hlog, hnamed, -, -⟩ := h.own
  rw [hlog]
  refine ⟨?_, ?_, ?_⟩
  · intro id hid
    rcases (recordedAttempts_append base own id).mp hid with h | h
    · exact hbase.attempts id h
    · obtain ⟨hthread, n, -, -, hvalue⟩ := hnamed.attempts id h
      exact ⟨hthread, n, hvalue⟩
  · intro id hid
    rcases (recordedCommits_append base own id).mp hid with h | h
    · exact hbase.commits id h
    · obtain ⟨hthread, n, -, -, hvalue⟩ := hnamed.commits id h
      exact ⟨hthread, n, hvalue⟩
  · rw [List.flatMap_append, List.flatMap_append]
    refine List.append_subset.mpr ⟨?_, ?_⟩
    · exact List.Subset.trans hbase.started (List.subset_append_left _ _)
    · exact List.Subset.trans hnamed.started (List.subset_append_right _ _)

theorem LogInThread.prepare {thread : ThreadNamespace} {log : List ReplayInput}
    (hlog : LogInThread thread log) {config : SpineConfig} {result : PreparedReplay}
    (h : CanonicalReplay.prepare ⟨thread, config⟩ log = .ok result) :
    result.candidate.planner.source.thread = thread ∧
      result.candidate.nextAttempt = (recordedAttempts log).toFinset.card ∧
      result.candidate.nextCommit = (recordedCommits log).toFinset.card := by
  have hstarted : ∀ id ∈ log.flatMap ReplayInput.startedAttempts, id.thread = thread :=
    fun id hid ↦ (hlog.attempts id (List.mem_append_left _ hid)).1
  obtain ⟨hthread, hattempt, hcommit⟩ := CanonicalReplay.prepare_counters hstarted
    (fun id hid ↦ (hlog.commits id hid).1) h
  have hsame : (recordedAttempts log).toFinset =
      (log.flatMap ReplayInput.startedAttempts).toFinset := by
    rw [recordedAttempts, List.toFinset_append, Finset.union_eq_left]
    intro id hid
    exact List.mem_toFinset.mpr (hlog.started (List.mem_toFinset.mp hid))
  exact ⟨hthread, by rw [hattempt, hsame], hcommit⟩

theorem InThread.logInThread {thread : ThreadNamespace} {host : Host} (h : InThread thread host) :
    ∃ a c base, LogInThread thread base ∧ Allocated thread a c base host := by
  induction h with
  | new epoch config =>
    have hnil : LogInThread thread [] :=
      ⟨by simp [recordedAttempts], by simp [recordedCommits], by simp⟩
    have hstart : Allocated thread 0 0 [] (start (.new thread epoch config) []) :=
      allocated_start (.new thread epoch config) [] rfl rfl
    exact ⟨0, 0, [], hnil, hstart⟩
  | recovered hhost hprepare ih =>
    obtain ⟨a, c, base, hbase, hallocated⟩ := ih
    have hlog := hallocated.logInThread hbase
    exact ⟨_, _, _, hlog, allocated_start _ _ (hlog.prepare hprepare).1 (prepare_idle hprepare).1⟩
  | step hhost hstep ih =>
    obtain ⟨a, c, base, hbase, hallocated⟩ := ih
    exact ⟨a, c, base, hbase, hallocated.step hhost.reachable.inv hstep⟩

/-! ## Gaps -/

/-- The recorded identities have the ordinals from zero on: no attempt began without a started
record, and no commit was prepared and dropped, before one that is recorded. -/
structure GapFree (thread : ThreadNamespace) (log : List ReplayInput) : Prop where
  attempts : ∀ id ∈ recordedAttempts log,
    ∃ n < (recordedAttempts log).toFinset.card, id.value = attemptIdText thread n
  commits : ∀ id ∈ recordedCommits log,
    ∃ n < (recordedCommits log).toFinset.card, id.value = commitIdText thread n

/-- No identity from the counters of a runtime on is recorded. -/
structure CountersFresh (thread : ThreadNamespace) (log : List ReplayInput) (rt : SamplingRuntime) :
    Prop where
  attempts : ∀ id ∈ recordedAttempts log, ∀ n ≥ rt.nextAttempt, id.value ≠ attemptIdText thread n
  commits : ∀ id ∈ recordedCommits log, ∀ n ≥ rt.nextCommit, id.value ≠ commitIdText thread n

/-- What a run of a recovered runtime allocates and records is not in the log that it was recovered
from. -/
structure Fresh (log : List ReplayInput) (later : Host) : Prop where
  handles : ∀ handle ∈ later.handles, handle.attempt.attemptId ∉ recordedAttempts log
  prepared : ∀ commit ∈ later.prepared, commit.record.commitId ∉ recordedCommits log
  own : ∃ own, later.log = log ++ own ∧ (∀ id ∈ recordedAttempts own, id ∉ recordedAttempts log) ∧
    ∀ id ∈ recordedCommits own, id ∉ recordedCommits log

theorem ordinalIdText_injective (thread : ThreadNamespace) (kind : String) :
    Function.Injective (ordinalIdText thread kind) := by
  intro m n h
  exact Nat.repr_injective ((String.append_right_inj _).mp h)

theorem gapFree_iff {thread : ThreadNamespace} {log : List ReplayInput}
    (hlog : LogInThread thread log) {rt : SamplingRuntime}
    (hattempt : rt.nextAttempt = (recordedAttempts log).toFinset.card)
    (hcommit : rt.nextCommit = (recordedCommits log).toFinset.card) :
    GapFree thread log ↔ CountersFresh thread log rt := by
  have hinj := ordinalIdText_injective thread
  constructor
  · intro h
    refine ⟨fun id hid n hn hvalue ↦ ?_, fun id hid n hn hvalue ↦ ?_⟩
    · obtain ⟨m, hm, hvalue'⟩ := h.attempts id hid
      have heq : m = n := hinj "-attempt-" (hvalue'.symm.trans hvalue)
      omega
    · obtain ⟨m, hm, hvalue'⟩ := h.commits id hid
      have heq : m = n := hinj "-commit-" (hvalue'.symm.trans hvalue)
      omega
  · intro h
    refine ⟨fun id hid ↦ ?_, fun id hid ↦ ?_⟩
    · obtain ⟨-, n, hvalue⟩ := hlog.attempts id hid
      refine ⟨n, ?_, hvalue⟩
      by_contra hle
      exact h.attempts id hid n (by omega) hvalue
    · obtain ⟨-, n, hvalue⟩ := hlog.commits id hid
      refine ⟨n, ?_, hvalue⟩
      by_contra hle
      exact h.commits id hid n (by omega) hvalue

/-- Counters above every recorded ordinal keep all later identities apart from the recorded ones. -/
theorem Allocated.fresh {thread : ThreadNamespace} {rt : SamplingRuntime} {log : List ReplayInput}
    {later : Host} (h : Allocated thread rt.nextAttempt rt.nextCommit log later)
    (hfresh : CountersFresh thread log rt) : Fresh log later := by
  have hattempt : ∀ id high, Named attemptIdText thread rt.nextAttempt high id →
      id ∉ recordedAttempts log := by
    rintro id high ⟨-, n, hlow, -, hvalue⟩ hmem
    exact hfresh.attempts id hmem n hlow hvalue
  have hcommit : ∀ id high, Named commitIdText thread rt.nextCommit high id →
      id ∉ recordedCommits log := by
    rintro id high ⟨-, n, hlow, -, hvalue⟩ hmem
    exact hfresh.commits id hmem n hlow hvalue
  obtain ⟨own, hlog, hnamed, -, hprepared⟩ := h.own
  exact ⟨fun handle hmem ↦ hattempt _ _ (h.handles handle hmem),
    fun commit hmem ↦ hcommit _ _ (hprepared commit hmem).1, own, hlog,
    fun id hid ↦ hattempt _ _ (hnamed.attempts id hid), fun id hid ↦ hcommit _ _ (hnamed.commits id hid)⟩

/-- The identities of a recovered runtime are new exactly when the log has no gap; then nothing
that a run of it allocates or records is in the log already. -/
theorem fresh_of_gapFree {thread : ThreadNamespace} {host : Host} (hhost : InThread thread host)
    {config : SpineConfig} {result : PreparedReplay}
    (hprepare : CanonicalReplay.prepare ⟨thread, config⟩ host.log = .ok result) :
    (GapFree thread host.log ↔ CountersFresh thread host.log result.candidate) ∧
      (GapFree thread host.log → ∀ later,
        ReflTransGen LocalStep (start result.candidate host.log) later → Fresh host.log later) := by
  obtain ⟨a, c, base, hbase, hallocated⟩ := hhost.logInThread
  have hlog := hallocated.logInThread hbase
  obtain ⟨hthread, hattempt, hcommit⟩ := hlog.prepare hprepare
  have hiff := gapFree_iff hlog hattempt hcommit
  refine ⟨hiff, fun hgap later hrun ↦ ?_⟩
  have hstart : InThread thread (start result.candidate host.log) := hhost.recovered hprepare
  have hlater : InThread thread later ∧ Allocated thread result.candidate.nextAttempt
      result.candidate.nextCommit host.log later := by
    induction hrun with
    | refl => exact ⟨hstart, allocated_start _ _ hthread (prepare_idle hprepare).1⟩
    | tail _ hstep ih => exact ⟨ih.1.step hstep, ih.2.step ih.1.reachable.inv hstep⟩
  exact hlater.2.fresh (hiff.mp hgap)

/-- A new thread, its configuration and the handles of its first two attempts. -/
theorem exampleThread_valid : ValidComponent "t" := by decide

def exampleThread : ThreadNamespace := ⟨"t", exampleThread_valid⟩

def exampleConfig : SpineConfig := ⟨true, true, fun h ↦ h⟩

def exampleHandle (n sink : ℕ) (h : ValidComponent (attemptIdText exampleThread n)) : SamplingHandle :=
  ⟨⟨⟨exampleThread, attemptIdText exampleThread n, h⟩, 0, ⟨exampleThread, 0, 0⟩⟩, sink⟩

/-- A host that recorded its only attempt. -/
def recordedHost : Host :=
  [HostOp.begin, .started (exampleHandle 0 0 (by decide))].foldl perform
    (start (.new exampleThread 0 exampleConfig) [])

theorem fresh_after_recorded : ∃ result,
    CanonicalReplay.prepare ⟨exampleThread, exampleConfig⟩ recordedHost.log = .ok result ∧
      GapFree exampleThread recordedHost.log ∧
      Fresh recordedHost.log ((start result.candidate recordedHost.log).perform .begin) := by
  have hhost : InThread exampleThread recordedHost :=
    (InThread.new 0 exampleConfig).run (by decide +kernel)
  have hok : (CanonicalReplay.prepare ⟨exampleThread, exampleConfig⟩ recordedHost.log).any
      (fun _ ↦ true) = true := by decide +kernel
  have hattempts : recordedAttempts recordedHost.log =
      [(exampleHandle 0 0 (by decide)).attempt.attemptId] := by decide +kernel
  have hcommits : recordedCommits recordedHost.log = [] := by decide +kernel
  have hgap : GapFree exampleThread recordedHost.log := by
    refine ⟨?_, by simp [hcommits]⟩
    rw [hattempts]
    intro id hid
    rw [List.mem_singleton.mp hid]
    exact ⟨0, by simp, rfl⟩
  obtain ⟨result, hprepare, -⟩ := Outcome.any_eq_true.mp hok
  exact ⟨result, hprepare, hgap, (fresh_of_gapFree hhost hprepare).2 hgap _
    (.single (.perform .begin trivial (by simp)))⟩

/-- A host that lost its first attempt before it was recorded. -/
def lostHost : Host :=
  [HostOp.begin, .abort (exampleHandle 0 0 (by decide)), .begin,
    .started (exampleHandle 1 1 (by decide))].foldl perform
      (start (.new exampleThread 0 exampleConfig) [])

theorem exists_reused_attempt : InThread exampleThread lostHost ∧ ∃ result handle,
    CanonicalReplay.prepare ⟨exampleThread, exampleConfig⟩ lostHost.log = .ok result ∧
      result.candidate.beginSampling.2 = .ok handle ∧
      handle.attempt.attemptId ∈ recordedAttempts lostHost.log := by
  have hrun : InThread exampleThread lostHost :=
    (InThread.new 0 exampleConfig).run (by decide +kernel)
  have hreused : (CanonicalReplay.prepare ⟨exampleThread, exampleConfig⟩ lostHost.log).any
      (fun result ↦ result.candidate.beginSampling.2.any fun handle ↦
        decide (handle.attempt.attemptId ∈ recordedAttempts lostHost.log)) = true := by
    decide +kernel
  obtain ⟨result, hprepare, hbegin⟩ := Outcome.any_eq_true.mp hreused
  obtain ⟨handle, hhandle, hmem⟩ := Outcome.any_eq_true.mp hbegin
  exact ⟨hrun, result, handle, hprepare, hhandle, of_decide_eq_true hmem⟩

end Host

end SpineCodex
