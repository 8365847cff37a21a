import SpineCodex.Runtime.Installs

/-!
# The chain of commits across recoveries

A log that replay accepts records one chain of commits, across compactions and forks, and
the recovered runtime continues it.
-/

namespace SpineCodex

/-- The commits that were read so far, each at its first record. -/
def extendCommits (chain : List SamplingCommit) : ReplayInput → List SamplingCommit
  | .archive (.samplingCommit record) =>
      if record.commitId ∈ chain.map (·.commitId) then chain else chain ++ [record]
  | .archive (.samplingStarted _) | .source _ | .compact _ | .usage _ => chain

def distinctCommits (log : List ReplayInput) : List SamplingCommit := log.foldl extendCommits []

open Host Relation

theorem Host.Chained.append {first middle last : Option SamplingCommitId}
    {records more : List SamplingCommit} (h : Chained first records middle)
    (hmore : Chained middle more last) : Chained first (records ++ more) last := by
  induction records generalizing first with
  | nil => exact (show first = middle from h) ▸ hmore
  | cons head rest ih => exact ⟨h.1, ih h.2⟩

namespace ReplayState

/-- The state is at the end of `chain` and has applied all of it. -/
structure Follows (chain : List SamplingCommit) (s : ReplayState) : Prop where
  chained : Chained none chain s.previousCommitId
  applied_eq : s.appliedCommits = chain.map (·.commitId)
  commits_eq : s.commits = s.appliedCommits.toFinset

variable {chain : List SamplingCommit} {s s' : ReplayState}

/-- A record of a new thread forgets the attempts of the old one, not its commits. -/
theorem Follows.applyStarted {record : SamplingStarted} (h : Follows chain s)
    (hstep : s.applyStarted record = .ok s') : Follows chain s' := by
  obtain ⟨s₁, hfollow, hstep⟩ := Outcome.bind_eq_ok.mp hstep
  obtain ⟨_, -, hstep⟩ := Outcome.bind_eq_ok.mp hstep
  have h₁ : Follows chain s₁ := by
    unfold followNamespace at hfollow
    split_ifs at hfollow
    · exact Outcome.ok.inj hfollow ▸ ⟨h.1, h.2, h.3⟩
    · obtain ⟨_, -, hfollow⟩ := Outcome.bind_eq_ok.mp hfollow
      obtain ⟨_, -, hfollow⟩ := Outcome.bind_eq_ok.mp hfollow
      exact Outcome.ok.inj hfollow ▸ ⟨h.1, h.2, h.3⟩
  split_ifs at hstep
  · exact Outcome.ok.inj hstep ▸ h₁
  · exact Outcome.ok.inj hstep ▸ ⟨h₁.1, h₁.2, h₁.3⟩

theorem Follows.applyCommit {record : SamplingCommit} (h : Follows chain s)
    (hstep : s.applyCommit record = .ok s') :
    Follows (extendCommits chain (.archive (.samplingCommit record))) s' := by
  have hseen : record.commitId ∈ s.commits ↔ record.commitId ∈ chain.map (·.commitId) := by
    rw [h.commits_eq, h.applied_eq, List.mem_toFinset]
  simp only [ReplayState.applyCommit, hseen] at hstep
  rw [extendCommits]
  split_ifs at hstep ⊢
  · exact Outcome.ok.inj hstep ▸ h
  · simp only [requireCommitScope, Outcome.bind_eq_ok, Outcome.require_eq_ok] at hstep
    obtain ⟨_, ⟨_, -, _, -, _, -, _, -, _, hlink, -⟩, ⟨⟨_, _⟩, _⟩, -, hstep⟩ := hstep
    obtain rfl := Outcome.ok.inj hstep
    refine ⟨h.chained.concat hlink, by simp [h.applied_eq], ?_⟩
    ext id
    simp [h.commits_eq]

theorem Follows.applyInput {input : ReplayInput} (h : Follows chain s)
    (hstep : s.applyInput input = .ok s') : Follows (extendCommits chain input) s' := by
  cases input with
  | source character =>
    obtain ⟨_, -, hstep⟩ := Outcome.bind_eq_ok.mp hstep
    exact Outcome.ok.inj hstep ▸ ⟨h.1, h.2, h.3⟩
  | archive record =>
    obtain ⟨_, -, hstep⟩ := Outcome.bind_eq_ok.mp hstep
    cases record with
    | samplingStarted record => exact h.applyStarted hstep
    | samplingCommit record => exact h.applyCommit hstep
  | compact barrier =>
    simp only [ReplayState.applyInput, applyCompact, Outcome.bind_eq_ok] at hstep
    obtain ⟨_, -, _, -, ⟨_, _⟩, -, _, -, hstep⟩ := hstep
    exact Outcome.ok.inj hstep ▸ ⟨h.1, h.2, h.3⟩
  | usage sample => exact Outcome.ok.inj hstep ▸ ⟨h.1, h.2, h.3⟩

theorem Follows.foldlM {log : List ReplayInput} (h : Follows chain s)
    (hrun : log.foldlM ReplayState.applyInput s = .ok s') :
    Follows (log.foldl extendCommits chain) s' := by
  induction log generalizing chain s with
  | nil => exact Outcome.ok.inj hrun ▸ h
  | cons input rest ih =>
    rw [List.foldlM_cons] at hrun
    obtain ⟨s₁, hinput, hrest⟩ := Outcome.bind_eq_ok.mp hrun
    exact ih (h.applyInput hinput) hrest

end ReplayState

/-- The commits of an accepted log and those that the recovered runtime installs afterwards
are one chain from the first commit on. -/
theorem commits_chained_across_recovery {replay : CanonicalReplay} {log : List ReplayInput}
    {result : PreparedReplay} (h : replay.prepare log = .ok result) :
    result.appliedCommits = (distinctCommits log).map (·.commitId) ∧
      ∀ host, ReflTransGen Step (start result.candidate log) host →
        Chained none (distinctCommits log ++ installedSince (start result.candidate log) host)
          host.runtime.planner.previousCommitId := by
  have hstart : Started (start result.candidate log) := .recovered replay log result h
  rw [CanonicalReplay.prepare_eq] at h
  obtain ⟨s, hfold, hfinish⟩ := Outcome.bind_eq_ok.mp h
  have hinitial : ReplayState.Follows [] (.initial replay.thread) := ⟨rfl, rfl, rfl⟩
  have hfollows := hinitial.foldlM hfold
  simp only [ReplayState.finish, Outcome.bind_eq_ok] at hfinish
  obtain ⟨⟨planner, plan⟩, hplanner, _, -, _, -, _, -, hfinish⟩ := hfinish
  obtain ⟨⟨_, _⟩, -, hplanner⟩ := Outcome.bind_eq_ok.mp hplanner
  obtain ⟨rfl, -⟩ := Prod.mk.inj (Outcome.ok.inj hplanner)
  obtain rfl := Outcome.ok.inj hfinish
  refine ⟨hfollows.applied_eq, fun host hrun ↦ ?_⟩
  exact hfollows.chained.append (linked_of_run hstart hrun).chain

/-- A thread that is recovered after its first commit. -/
theorem chained_after_first_commit :
    let first := firstSampling.foldl perform (start (.new exampleThread 0 exampleConfig) [])
    let log := ((first.prepared.map .install).foldl perform first).log
    ∃ result, CanonicalReplay.prepare ⟨exampleThread, exampleConfig⟩ log = .ok result ∧
      result.appliedCommits.length = 1 ∧
      Chained none (distinctCommits log) result.candidate.planner.previousCommitId := by
  intro first log
  have hok : (CanonicalReplay.prepare ⟨exampleThread, exampleConfig⟩ log).any
      (fun result ↦ result.appliedCommits.length = 1) = true := by decide +kernel
  obtain ⟨result, hprepare, hone⟩ := Outcome.any_eq_true.mp hok
  have hchain := (commits_chained_across_recovery hprepare).2 _ .refl
  exact ⟨result, hprepare, of_decide_eq_true hone, by simpa [installedSince, start] using hchain⟩

end SpineCodex
