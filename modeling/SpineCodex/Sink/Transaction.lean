import SpineCodex.Sink.Calls

/-!
# The fact sink as a transaction

The trace of a run says which permits were handed out and used.  An open sink agrees with
it, and so a seal returns the facts of exactly the permits that were not given up.
-/

namespace SpineCodex

open SinkTrace

namespace SamplingFactSink

theorem requireMatchingPermit_eq_ok {s : SamplingFactSink} {permit : FactPermit} {u : Unit}
    (h : s.requireMatchingPermit permit = .ok u) :
    permit.attemptId = s.attempt.attemptId ∧
      (permit.reservation.ordinal, permit.reservation) ∈ s.active := by
  obtain ⟨_, hattempt, h⟩ := Outcome.bind_eq_ok.mp h
  refine ⟨Outcome.require_eq_ok.mp hattempt, ?_⟩
  split at h
  · rename_i reservation hget
    have heq := Outcome.require_eq_ok.mp h
    rw [heq] at hget
    exact OrdinalMap.mem_of_get hget
  · simp at h

/-- A completion that was accepted: the fact is valid and names the reservation of its permit. -/
structure Accepted (permit : FactPermit) (fact : ExecutedSpineFact) : Prop where
  valid : fact.validate = .ok ()
  execution_eq : fact.executionId = permit.reservation.executionId
  ordinal_eq : fact.ordinal = permit.reservation.ordinal

theorem validateCompletion_eq_ok {s : SamplingFactSink} {permit : FactPermit}
    {fact : ExecutedSpineFact} {u : Unit} (h : s.validateCompletion permit fact = .ok u) :
    s.requireMatchingPermit permit = .ok () ∧ Accepted permit fact := by
  simp only [validateCompletion, Outcome.bind_eq_ok, Outcome.mapErr_eq_ok,
    Outcome.require_eq_ok] at h
  obtain ⟨_, hmatch, _, hvalid, _, hexecution, _, hordinal, -⟩ := h
  exact ⟨hmatch, hvalid, hexecution, hordinal⟩

/-- What the trace of a run says about its permits, and what an open sink still holds. -/
structure Recorded (s : SamplingFactSink) (past : SinkTrace) : Prop where
  attempt_eq : ∀ p ∈ reserved past, p.attemptId = s.attempt.attemptId
  ordinal_lt : ∀ p ∈ reserved past, p.reservation.ordinal < s.nextOrdinal
  ordinal_injective : ∀ p ∈ reserved past, ∀ q ∈ reserved past,
    p.reservation.ordinal = q.reservation.ordinal → p = q
  consumed_nodup : (consumed past).Nodup
  consumed_reserved : ∀ p ∈ consumed past, p ∈ reserved past
  accepted : ∀ x ∈ completions past, Accepted x.1 x.2
  active_mem : s.lifecycle = .opened → ∀ x ∈ s.active,
    ∃ p ∈ reserved past, p ∉ consumed past ∧ x = (p.reservation.ordinal, p.reservation)
  active_all : s.lifecycle = .opened → ∀ p ∈ reserved past, p ∉ consumed past →
    (p.reservation.ordinal, p.reservation) ∈ s.active
  completed_sorted : s.lifecycle = .opened → (s.completed.map Prod.fst).Pairwise (· < ·)
  completed_perm : s.lifecycle = .opened →
    s.completed.Perm ((completions past).map fun x ↦ (x.1.reservation.ordinal, x.2))

theorem recorded_new (attempt : SamplingAttempt) : Recorded (.new attempt) [] := by
  constructor <;> simp [reserved, consumed, completions, abortedPermits, new]

/-- A call that hands out no permit and uses none. -/
theorem Recorded.idle {s s' : SamplingFactSink} {past : SinkTrace} {entry : SinkCall × SinkReply}
    (h : Recorded s past) (hattempt : s'.attempt = s.attempt) (hnext : s.nextOrdinal ≤ s'.nextOrdinal)
    (hreserved : reserved [entry] = []) (hcompletions : completions [entry] = [])
    (haborted : abortedPermits [entry] = [])
    (hopen : s'.lifecycle = .opened → s.lifecycle = .opened ∧ s'.active = s.active ∧
      s'.completed = s.completed) : Recorded s' (past ++ [entry]) := by
  have hreserved' : reserved (past ++ [entry]) = reserved past := by
    rw [reserved_append, hreserved, List.append_nil]
  have hcompletions' : completions (past ++ [entry]) = completions past := by
    rw [completions_append, hcompletions, List.append_nil]
  have haborted' : abortedPermits (past ++ [entry]) = abortedPermits past := by
    rw [abortedPermits_append, haborted, List.append_nil]
  have hconsumed' : consumed (past ++ [entry]) = consumed past := by
    rw [consumed, hcompletions', haborted', consumed]
  constructor
  · rw [hreserved', hattempt]
    exact h.attempt_eq
  · rw [hreserved']
    exact fun p hp ↦ lt_of_lt_of_le (h.ordinal_lt p hp) hnext
  · rw [hreserved']
    exact h.ordinal_injective
  · rw [hconsumed']
    exact h.consumed_nodup
  · rw [hconsumed', hreserved']
    exact h.consumed_reserved
  · rw [hcompletions']
    exact h.accepted
  · intro hlifecycle
    obtain ⟨hlifecycle, hactive, -⟩ := hopen hlifecycle
    rw [hactive, hreserved', hconsumed']
    exact h.active_mem hlifecycle
  · intro hlifecycle
    obtain ⟨hlifecycle, hactive, -⟩ := hopen hlifecycle
    rw [hactive, hreserved', hconsumed']
    exact h.active_all hlifecycle
  · intro hlifecycle
    obtain ⟨hlifecycle, -, hcompleted⟩ := hopen hlifecycle
    rw [hcompleted]
    exact h.completed_sorted hlifecycle
  · intro hlifecycle
    obtain ⟨hlifecycle, -, hcompleted⟩ := hopen hlifecycle
    rw [hcompleted, hcompletions']
    exact h.completed_perm hlifecycle

theorem Recorded.reserve {s : SamplingFactSink} {past : SinkTrace} (h : Recorded s past)
    (hopen : s.lifecycle = .opened) (executionId : ExecutionId) :
    Recorded { s with
      seenOrdinals := insert s.nextOrdinal s.seenOrdinals
      seenExecutions := insert executionId s.seenExecutions
      active := OrdinalMap.insert s.active s.nextOrdinal (s.nextPermit executionId).reservation
      nextOrdinal := s.nextOrdinal + 1 }
      (past ++ [(.reserveExecution executionId, .permit (s.nextPermit executionId))]) := by
  have hreserved : reserved (past ++ [(.reserveExecution executionId,
      .permit (s.nextPermit executionId))]) = reserved past ++ [s.nextPermit executionId] :=
    reserved_append past _
  have hcompletions : completions (past ++ [(.reserveExecution executionId,
      .permit (s.nextPermit executionId))]) = completions past := by
    rw [completions_append]
    exact List.append_nil _
  have hconsumed : consumed (past ++ [(.reserveExecution executionId,
      .permit (s.nextPermit executionId))]) = consumed past := by
    rw [consumed, hcompletions, abortedPermits_append, consumed]
    exact congrArg _ (List.append_nil _)
  have hnew : s.nextPermit executionId ∉ reserved past := fun hmem ↦
    absurd (h.ordinal_lt _ hmem) (lt_irrefl _)
  have hother : ∀ p ∈ reserved past, p.reservation.ordinal ≠ s.nextOrdinal :=
    fun p hp ↦ ne_of_lt (h.ordinal_lt p hp)
  constructor
  · rw [hreserved]
    intro p hp
    rcases List.mem_append.mp hp with hold | hlast
    · exact h.attempt_eq p hold
    · rw [List.mem_singleton.mp hlast]
      rfl
  · rw [hreserved]
    intro p hp
    rcases List.mem_append.mp hp with hold | hlast
    · exact (h.ordinal_lt p hold).trans (Nat.lt_succ_self _)
    · rw [List.mem_singleton.mp hlast]
      exact Nat.lt_succ_self _
  · rw [hreserved]
    intro p hp q hq heq
    rcases List.mem_append.mp hp with hp | hp <;> rcases List.mem_append.mp hq with hq | hq
    · exact h.ordinal_injective p hp q hq heq
    · rw [List.mem_singleton.mp hq] at heq
      exact absurd heq (hother p hp)
    · rw [List.mem_singleton.mp hp] at heq
      exact absurd heq.symm (hother q hq)
    · rw [List.mem_singleton.mp hp, List.mem_singleton.mp hq]
  · rw [hconsumed]
    exact h.consumed_nodup
  · rw [hconsumed, hreserved]
    exact fun p hp ↦ List.mem_append_left _ (h.consumed_reserved p hp)
  · rw [hcompletions]
    exact h.accepted
  · intro _ x hx
    rw [hreserved, hconsumed]
    rcases OrdinalMap.mem_insert.mp hx with rfl | ⟨hold, -⟩
    · refine ⟨s.nextPermit executionId, by simp, ?_, rfl⟩
      exact fun hmem ↦ hnew (h.consumed_reserved _ hmem)
    · obtain ⟨p, hp, hfree, rfl⟩ := h.active_mem hopen x hold
      exact ⟨p, List.mem_append_left _ hp, hfree, rfl⟩
  · intro _
    rw [hreserved, hconsumed]
    intro p hp hfree
    apply OrdinalMap.mem_insert.mpr
    rcases List.mem_append.mp hp with hold | hlast
    · exact .inr ⟨h.active_all hopen p hold hfree, hother p hold⟩
    · rw [List.mem_singleton.mp hlast]
      exact .inl rfl
  · exact h.completed_sorted
  · rw [hcompletions]
    exact h.completed_perm

/-- A matching permit was handed out and not used. -/
theorem Recorded.permit_free {s : SamplingFactSink} {past : SinkTrace} (h : Recorded s past)
    (hopen : s.lifecycle = .opened) {permit : FactPermit}
    (hmatch : s.requireMatchingPermit permit = .ok ()) :
    permit ∈ reserved past ∧ permit ∉ consumed past := by
  obtain ⟨hattempt, hactive⟩ := requireMatchingPermit_eq_ok hmatch
  obtain ⟨p, hp, hfree, heq⟩ := h.active_mem hopen _ hactive
  have hpermit : permit = p := by
    obtain ⟨attemptId, reservation⟩ := permit
    obtain ⟨attemptId', reservation'⟩ := p
    have hattempt' := h.attempt_eq _ hp
    simp only [Prod.mk.injEq] at heq hattempt hattempt'
    rw [hattempt, hattempt', heq.2]
  rw [hpermit]
  exact ⟨hp, hfree⟩

/-- The entries that stay active when a permit is used. -/
theorem Recorded.active_remove {s : SamplingFactSink} {past : SinkTrace} (h : Recorded s past)
    (entry : SinkCall × SinkReply) (hopen : s.lifecycle = .opened)
    {permit : FactPermit} (hpermit : permit ∈ reserved past) (hreserved : reserved [entry] = [])
    (hconsumed : consumed [entry] = [permit]) :
    (∀ x ∈ OrdinalMap.remove s.active permit.reservation.ordinal,
      ∃ p ∈ reserved (past ++ [entry]), p ∉ consumed (past ++ [entry]) ∧
        x = (p.reservation.ordinal, p.reservation)) ∧
    (∀ p ∈ reserved (past ++ [entry]), p ∉ consumed (past ++ [entry]) →
      (p.reservation.ordinal, p.reservation) ∈
        OrdinalMap.remove s.active permit.reservation.ordinal) := by
  simp only [reserved_append, hreserved, List.append_nil, mem_consumed_append, hconsumed,
    List.mem_singleton, OrdinalMap.mem_remove, not_or]
  constructor
  · rintro x ⟨hx, hne⟩
    obtain ⟨p, hp, hfree, rfl⟩ := h.active_mem hopen x hx
    exact ⟨p, hp, ⟨hfree, fun heq ↦ hne (congrArg (·.reservation.ordinal) heq)⟩, rfl⟩
  · rintro p hp ⟨hfree, hne⟩
    refine ⟨h.active_all hopen p hp hfree, ?_⟩
    exact fun heq ↦ hne (h.ordinal_injective p hp permit hpermit heq)

/-- A permit is used: it leaves the active ones, and the completed facts are those of the trace. -/
theorem Recorded.use {s s' : SamplingFactSink} {past : SinkTrace} (h : Recorded s past)
    (entry : SinkCall × SinkReply) (hopen : s.lifecycle = .opened) {permit : FactPermit}
    (hmatch : s.requireMatchingPermit permit = .ok ()) (hattempt : s'.attempt = s.attempt)
    (hnext : s'.nextOrdinal = s.nextOrdinal)
    (hactive : s'.active = OrdinalMap.remove s.active permit.reservation.ordinal)
    (hreserved : reserved [entry] = []) (hconsumed : consumed [entry] = [permit])
    (haccepted : ∀ x ∈ completions [entry], Accepted x.1 x.2)
    (hsorted : (s'.completed.map Prod.fst).Pairwise (· < ·))
    (hcompleted : s'.completed.Perm
      ((completions (past ++ [entry])).map fun x ↦ (x.1.reservation.ordinal, x.2))) :
    Recorded s' (past ++ [entry]) := by
  obtain ⟨hpermit, hfree⟩ := h.permit_free hopen hmatch
  obtain ⟨hactive_mem, hactive_all⟩ := h.active_remove entry hopen hpermit hreserved hconsumed
  have hreserved' : reserved (past ++ [entry]) = reserved past := by
    rw [reserved_append, hreserved, List.append_nil]
  have hperm : (consumed (past ++ [entry])).Perm (permit :: consumed past) := by
    have happend := consumed_append_perm past [entry]
    rw [hconsumed] at happend
    exact happend.trans (List.perm_append_singleton _ _)
  constructor
  · rw [hreserved', hattempt]
    exact h.attempt_eq
  · rw [hreserved', hnext]
    exact h.ordinal_lt
  · rw [hreserved']
    exact h.ordinal_injective
  · rw [hperm.nodup_iff, List.nodup_cons]
    exact ⟨hfree, h.consumed_nodup⟩
  · rw [hreserved']
    intro p hp
    rcases List.mem_cons.mp (hperm.mem_iff.mp hp) with rfl | hold
    · exact hpermit
    · exact h.consumed_reserved p hold
  · rw [completions_append]
    intro x hx
    rcases List.mem_append.mp hx with hold | hlast
    · exact h.accepted x hold
    · exact haccepted x hlast
  · rw [hactive]
    exact fun _ ↦ hactive_mem
  · rw [hactive]
    exact fun _ ↦ hactive_all
  · exact fun _ ↦ hsorted
  · exact fun _ ↦ hcompleted

theorem Recorded.complete {s : SamplingFactSink} {past : SinkTrace} (h : Recorded s past)
    (hopen : s.lifecycle = .opened) {permit : FactPermit} {fact : ExecutedSpineFact}
    (hvalid : s.validateCompletion permit fact = .ok ()) :
    Recorded { s with
      active := OrdinalMap.remove s.active permit.reservation.ordinal
      completed := OrdinalMap.insert s.completed permit.reservation.ordinal fact }
      (past ++ [(.complete permit fact, .done)]) := by
  obtain ⟨hmatch, haccepted⟩ := validateCompletion_eq_ok hvalid
  obtain ⟨hpermit, hfree⟩ := h.permit_free hopen hmatch
  have hcompletions : completions (past ++ [(.complete permit fact, .done)]) =
      completions past ++ [(permit, fact)] := completions_append past _
  -- the ordinal is no key of the completed facts: its permit would have been used
  have hkey : permit.reservation.ordinal ∉ s.completed.map Prod.fst := by
    intro hmem
    rw [((h.completed_perm hopen).map Prod.fst).mem_iff, List.map_map] at hmem
    obtain ⟨x, hx, heq⟩ := List.mem_map.mp hmem
    have hused : x.1 ∈ consumed past := List.mem_append_left _ (List.mem_map_of_mem hx)
    have hsame := h.ordinal_injective x.1 (h.consumed_reserved _ hused) permit hpermit heq
    exact hfree (hsame ▸ hused)
  refine h.use (.complete permit fact, .done) hopen hmatch rfl rfl rfl rfl rfl ?_ ?_ ?_
  · intro x hx
    rw [List.mem_singleton.mp hx]
    exact haccepted
  · exact OrdinalMap.keys_insert (h.completed_sorted hopen) hkey
  · rw [hcompletions, List.map_append]
    refine (OrdinalMap.insert_perm hkey).trans ?_
    exact ((h.completed_perm hopen).cons _).trans (List.perm_append_singleton _ _).symm

theorem Recorded.abortPermit {s : SamplingFactSink} {past : SinkTrace} (h : Recorded s past)
    (hopen : s.lifecycle = .opened) {permit : FactPermit} (exclusive : Option AdmissionOrdinal)
    (hmatch : s.requireMatchingPermit permit = .ok ()) :
    Recorded { s with
      active := OrdinalMap.remove s.active permit.reservation.ordinal
      exclusive := exclusive } (past ++ [(.abortPermit permit, .done)]) := by
  have hcompletions : completions (past ++ [(.abortPermit permit, .done)]) = completions past := by
    rw [completions_append]
    exact List.append_nil _
  refine h.use (.abortPermit permit, .done) hopen hmatch rfl rfl rfl rfl rfl ?_ ?_ ?_
  · exact fun x hx ↦ absurd hx List.not_mem_nil
  · exact h.completed_sorted hopen
  · rw [hcompletions]
    exact h.completed_perm hopen

theorem Recorded.call {s : SamplingFactSink} {past : SinkTrace} (h : Recorded s past) (c : SinkCall) :
    Recorded (s.call c).1 (past ++ [(c, (s.call c).2)]) := by
  have hcase := s.call_case c
  generalize (s.call c).1 = s' at hcase
  generalize (s.call c).2 = reply at hcase
  cases hcase with
  | reserved hopen => exact h.reserve hopen _
  | completed hopen hvalid => exact h.complete hopen hvalid
  | permitAborted hopen hmatch => exact h.abortPermit hopen _ hmatch
  | sealed hopen _ _ => exact h.idle rfl (le_refl _) rfl rfl rfl (by simp)
  | refused _ =>
    refine h.idle rfl (le_refl _) rfl ?_ ?_ (fun hopen ↦ ⟨hopen, rfl, rfl⟩)
    · cases c <;> rfl
    · cases c <;> rfl
  | aborted hattempt hnext hclosed =>
    exact h.idle hattempt (le_of_eq hnext.symm) rfl rfl rfl (fun hopen ↦ absurd hopen hclosed)
  | ended hattempt hle hclosed =>
    refine h.idle hattempt hle rfl ?_ ?_ (fun hopen ↦ absurd hopen hclosed)
    · cases c <;> rfl
    · cases c <;> rfl

theorem Recorded.run {s : SamplingFactSink} {past : SinkTrace} (h : Recorded s past)
    (calls : List SinkCall) : Recorded (s.run calls).1 (past ++ (s.run calls).2) := by
  induction calls generalizing s past with
  | nil =>
    rw [SamplingFactSink.run, List.append_nil]
    exact h
  | cons c rest ih =>
    have hrest := ih (h.call c)
    rw [List.append_assoc] at hrest
    exact hrest

/-! ## The end of a transaction -/

theorem closed_of_closes {s : SamplingFactSink} {c : SinkCall} (h : Closes (c, (s.call c).2)) :
    (s.call c).1.lifecycle ≠ .opened := by
  have hcase := s.call_case c
  generalize (s.call c).1 = s' at hcase
  generalize (s.call c).2 = reply at hcase h
  cases hcase with
  | reserved _ => exact absurd h (by simp [Closes])
  | completed _ _ => exact absurd h (by simp [Closes])
  | permitAborted _ _ => exact absurd h (by simp [Closes])
  | sealed _ _ _ => simp
  | refused hstays => exact absurd h hstays
  | aborted _ _ hclosed => exact hclosed
  | ended _ _ hclosed => exact hclosed

/-- A call of a closed sink completes nothing and seals nothing. -/
theorem closed_call {s : SamplingFactSink} (h : s.lifecycle ≠ .opened) (c : SinkCall) :
    (s.call c).1.lifecycle ≠ .opened ∧ completions [(c, (s.call c).2)] = [] ∧
      sealedFacts [(c, (s.call c).2)] = [] := by
  have hcase := s.call_case c
  generalize (s.call c).1 = s' at hcase
  generalize (s.call c).2 = reply at hcase
  cases hcase with
  | reserved hopen => exact absurd hopen h
  | completed hopen _ => exact absurd hopen h
  | permitAborted hopen _ => exact absurd hopen h
  | sealed hopen _ _ => exact absurd hopen h
  | refused _ => exact ⟨h, by cases c <;> rfl, rfl⟩
  | aborted _ _ hclosed => exact ⟨hclosed, rfl, rfl⟩
  | ended _ _ hclosed => exact ⟨hclosed, by cases c <;> rfl, rfl⟩

theorem closed_run {s : SamplingFactSink} (h : s.lifecycle ≠ .opened) (calls : List SinkCall) :
    completions (s.run calls).2 = [] ∧ sealedFacts (s.run calls).2 = [] := by
  induction calls generalizing s with
  | nil => exact ⟨rfl, rfl⟩
  | cons c rest ih =>
    obtain ⟨hclosed, hcompletions, hsealed⟩ := closed_call h c
    obtain ⟨hcompletions', hsealed'⟩ := ih hclosed
    have hsplit : (s.run (c :: rest)).2 = [(c, (s.call c).2)] ++ ((s.call c).1.run rest).2 := rfl
    rw [hsplit]
    refine ⟨?_, ?_⟩
    · rw [completions_append, hcompletions, hcompletions']
      rfl
    · rw [sealedFacts, List.filterMap_append]
      exact (congrArg₂ (· ++ ·) hsealed hsealed')

/-- A trace splits only where the run does. -/
theorem run_split {s : SamplingFactSink} {calls : List SinkCall} {before after : SinkTrace}
    {entry : SinkCall × SinkReply} (h : (s.run calls).2 = before ++ entry :: after) :
    ∃ first rest, calls = first ++ entry.1 :: rest ∧ before = (s.run first).2 ∧
      entry.2 = ((s.run first).1.call entry.1).2 ∧
      after = (((s.run first).1.call entry.1).1.run rest).2 := by
  induction before generalizing s calls with
  | nil =>
    cases calls with
    | nil => simp [run] at h
    | cons c rest =>
      obtain ⟨rfl, rfl⟩ := List.cons.inj h
      exact ⟨[], rest, rfl, rfl, rfl, rfl⟩
  | cons head before ih =>
    cases calls with
    | nil => simp [run] at h
    | cons c rest =>
      obtain ⟨rfl, htail⟩ := List.cons.inj h
      obtain ⟨first, rest', rfl, rfl, hreply, rfl⟩ := ih htail
      exact ⟨c :: first, rest', rfl, rfl, hreply, rfl⟩

/-- A sealed transaction: its facts are those of the permits that were not given up. -/
structure SealedTransaction (before : SinkTrace) (facts : List ExecutedSpineFact) : Prop where
  facts_perm : facts.Perm ((completions before).map Prod.snd)
  ordered : (facts.map (·.ordinal)).Pairwise (· < ·)
  accepted : ∀ x ∈ completions before, x.1 ∈ reserved before ∧ x.1 ∉ abortedPermits before ∧
    Accepted x.1 x.2
  complete : ∀ p ∈ reserved before, p ∉ abortedPermits before →
    ∃ fact, (p, fact) ∈ completions before
  structural : (facts.filter fun fact ↦ (SpineFactKind.of fact.operation).isExclusive).length ≤ 1

theorem Recorded.sealed {s : SamplingFactSink} {past : SinkTrace} (h : Recorded s past)
    (hopen : s.lifecycle = .opened) (hactive : s.active = [])
    (hexclusive : ((s.completed.map Prod.snd).filter
      fun fact ↦ (SpineFactKind.of fact.operation).isExclusive).length ≤ 1) :
    SealedTransaction past (s.completed.map Prod.snd) := by
  have hperm := h.completed_perm hopen
  refine ⟨?_, ?_, ?_, ?_, hexclusive⟩
  · have hfacts := hperm.map Prod.snd
    rwa [List.map_map] at hfacts
  · -- the ordinal of a completed fact is its key
    have hkeys : (s.completed.map Prod.snd).map (·.ordinal) = s.completed.map Prod.fst := by
      rw [List.map_map]
      refine List.map_congr_left fun entry hentry ↦ ?_
      obtain ⟨x, hx, rfl⟩ := List.mem_map.mp (hperm.mem_iff.mp hentry)
      exact (h.accepted x hx).ordinal_eq
    rw [hkeys]
    exact h.completed_sorted hopen
  · intro x hx
    have hused : x.1 ∈ (completions past).map Prod.fst := List.mem_map_of_mem hx
    refine ⟨h.consumed_reserved _ (List.mem_append_left _ hused), ?_, h.accepted x hx⟩
    exact fun haborted ↦ (List.nodup_append.mp h.consumed_nodup).2.2 _ hused _ haborted rfl
  · intro p hp hkept
    by_contra hnone
    have hfree : p ∉ consumed past := by
      intro hmem
      rcases List.mem_append.mp hmem with hcompleted | haborted
      · obtain ⟨x, hx, rfl⟩ := List.mem_map.mp hcompleted
        exact hnone ⟨x.2, hx⟩
      · exact hkept haborted
    have hmem := h.active_all hopen p hp hfree
    rw [hactive] at hmem
    exact absurd hmem List.not_mem_nil

/-- In every order of calls, a seal returns the facts of its transaction, every permit is used at
most once, and nothing happens after the end of the transaction. -/
theorem transaction_of_run (attempt : SamplingAttempt) (calls : List SinkCall) :
    (∀ before epoch facts after, ((new attempt).run calls).2 =
        before ++ (.sealFacts epoch, .facts facts) :: after → SealedTransaction before facts) ∧
      (consumed ((new attempt).run calls).2).Nodup ∧
      ∀ before entry after, ((new attempt).run calls).2 = before ++ entry :: after →
        Closes entry → completions after = [] ∧ sealedFacts after = [] := by
  refine ⟨?_, ((recorded_new attempt).run calls).consumed_nodup, ?_⟩
  · intro before epoch facts after htrace
    obtain ⟨first, rest, -, rfl, hreply, -⟩ := run_split htrace
    have hrecorded := (recorded_new attempt).run first
    have hcase := ((new attempt).run first).1.call_case (.sealFacts epoch)
    rw [← hreply] at hcase
    generalize (((new attempt).run first).1.call (.sealFacts epoch)).1 = s' at hcase
    cases hcase with
    | sealed hopen hactive hexclusive => exact hrecorded.sealed hopen hactive hexclusive
  · intro before entry after htrace hcloses
    obtain ⟨first, rest, -, -, hreply, rfl⟩ := run_split htrace
    refine closed_run (closed_of_closes ?_) rest
    rw [← hreply]
    exact hcloses

/-- A thread, its first attempt, and the permit and the fact of its only execution. -/
def tinyThread : ThreadNamespace := ⟨"t", by decide⟩

def tinyAttempt : SamplingAttempt := ⟨⟨tinyThread, "a", by decide⟩, 0, ⟨tinyThread, 0, 0⟩⟩

def tinyPermit : FactPermit := (new tinyAttempt).nextPermit ⟨tinyThread, "e", by decide⟩

def tinyFact : ExecutedSpineFact :=
  ⟨tinyPermit.reservation.executionId, 0, .direct "call", .openNode "task"⟩

/-- One execution opens a node, and its sampling is sealed. -/
theorem transaction_of_open : SealedTransaction
    [(.reserveExecution tinyPermit.reservation.executionId, .permit tinyPermit),
      (.complete tinyPermit tinyFact, .done)] [tinyFact] :=
  (transaction_of_run tinyAttempt [.reserveExecution tinyPermit.reservation.executionId,
    .complete tinyPermit tinyFact, .sealFacts 0]).1 _ 0 _ [] (by decide +kernel)

end SamplingFactSink

end SpineCodex
