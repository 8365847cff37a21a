import SpineCodex.Spine.Runtime

/-!
# What the planner's operations return

One specification for each operation of the planner that can fail: what its success means,
and the planner that it returns.
-/

namespace SpineCodex.SamplingPlanner

theorem prepareSampling_eq_ok {p q : SamplingPlanner} {sealed : SealedSampling}
    {postBoundary : BoundaryId} {commitId : SamplingCommitId} {inputTokens : Option ℕ}
    {commit : PreparedSamplingCommit}
    (h : p.prepareSampling sealed postBoundary commitId inputTokens = .ok (q, commit)) :
    ∃ parser compiler pressure bindings plan next,
      p.requireActive sealed.attempt.attemptId = .ok () ∧
      p.validateCommitScope sealed postBoundary commitId = .ok () ∧
      p.source.snapshot.lastBoundary = some postBoundary ∧
      p.committedSourceCells ≤ p.source.cells.length ∧
      p.reduceCommit sealed postBoundary inputTokens = .ok ((parser, compiler), pressure, bindings) ∧
      buildContextPlan p.source.snapshot compiler.projection parser.pendingBoundaries
        p.committedPlan p.nextProjectionOrdinal = .ok (plan, next) ∧
      (SamplingArchiveRecord.samplingCommit
        (p.commitRecord sealed postBoundary commitId inputTokens bindings)).validate = .ok () ∧
      q = { p with activeAttempt := none } ∧
      commit = ⟨p.commitRecord sealed postBoundary commitId inputTokens bindings, plan,
        compiler.projection, ⟨p.previousCommitId, p.committedSourceCells, parser, compiler,
          p.source.cells.length, some sealed.attempt.preBoundary, some commitId, next, pressure⟩⟩ := by
  unfold prepareSampling at h
  simp only [Outcome.bind_eq_ok, Outcome.mapErr_eq_ok, Outcome.require_eq_ok] at h
  obtain ⟨_, hactive, _, hscope, _, hlast, _, hcommitted, ⟨⟨parser, compiler⟩, pressure, bindings⟩,
    hreduce, ⟨plan, next⟩, hbuild, _, hvalid, h⟩ := h
  obtain ⟨rfl, rfl⟩ := Prod.mk.inj (Outcome.ok.inj h)
  exact ⟨parser, compiler, pressure, bindings, plan, next, hactive, hscope, hlast, hcommitted,
    hreduce, hbuild, hvalid, rfl, rfl⟩

theorem installPrepared_eq_ok {p q : SamplingPlanner} {commit : PreparedSamplingCommit}
    (h : p.installPrepared commit = .ok q) :
    (commit.record.attemptId.thread = p.source.thread ∧ commit.record.epoch = p.source.epoch) ∧
      (p.previousCommitId = commit.candidate.baseCommitId ∧
        p.committedSourceCells = commit.candidate.baseSourceCells) ∧
      q = { p with
        parser := commit.candidate.parser
        compiler := commit.candidate.compiler
        committedSourceCells := commit.candidate.committedSourceCells
        previousPreBoundary := commit.candidate.previousPreBoundary
        previousCommitId := commit.candidate.previousCommitId
        nextProjectionOrdinal := commit.candidate.nextProjectionOrdinal
        inputPressure := commit.candidate.inputPressure
        committedPlan := some commit.plan } := by
  unfold installPrepared at h
  simp only [Outcome.bind_eq_ok, Outcome.require_eq_ok] at h
  obtain ⟨_, hscope, _, hbase, h⟩ := h
  exact ⟨hscope, hbase, (Outcome.ok.inj h).symm⟩

theorem compact_eq_ok {p q : SamplingPlanner} {barrier : SpineCompactBarrierV1}
    {projection : SpineProjection} (h : p.compact barrier = .ok (q, projection)) :
    ∃ parser compiler source plan next,
      p.activeAttempt = none ∧ barrier.validate = .ok () ∧ BarrierInScope p.source barrier ∧
      reduceCompactDelta p.source.snapshot p.committedSourceCells barrier (p.parser, p.compiler) =
        .ok (parser, compiler) ∧
      nextLedger p.source barrier = .ok source ∧
      buildContextPlan source.snapshot compiler.projection parser.pendingBoundaries none 0 =
        .ok (plan, next) ∧
      projection = compiler.projection ∧
      q = { p with
        source := source
        parser := parser
        compiler := compiler
        committedSourceCells := source.cells.length
        previousPreBoundary := none
        committedPlan := some plan
        inputPressure := p.inputPressure.compact
        nextProjectionOrdinal := next } := by
  unfold compact at h
  simp only [Outcome.bind_eq_ok, Outcome.mapErr_eq_ok, Outcome.require_eq_ok] at h
  obtain ⟨_, hactive, _, hvalid, _, hscope, ⟨parser, compiler⟩, hreduce, source, hsource,
    ⟨plan, next⟩, hbuild, h⟩ := h
  obtain ⟨rfl, rfl⟩ := Prod.mk.inj (Outcome.ok.inj h)
  exact ⟨parser, compiler, source, plan, next, hactive, hvalid, hscope, hreduce, hsource, hbuild,
    rfl, rfl⟩

theorem continueInNamespace_eq_ok {p q : SamplingPlanner} {thread : ThreadNamespace}
    (h : p.continueInNamespace thread = .ok q) :
    ∃ source, p.activeAttempt = none ∧
      p.source.continueInNamespace thread p.committedSourceCells = .ok source ∧
      q = { p with source := source, previousPreBoundary := none, nextProjectionOrdinal := 0 } := by
  unfold continueInNamespace at h
  simp only [Outcome.bind_eq_ok, Outcome.mapErr_eq_ok, Outcome.require_eq_ok] at h
  obtain ⟨_, hactive, source, hsource, h⟩ := h
  exact ⟨source, hactive, hsource, (Outcome.ok.inj h).symm⟩

end SpineCodex.SamplingPlanner
