import SpineCodex.Spawn.Recovery
import SpineCodex.Spawn.Receipts

/-!
# What a spawn transaction preserves

Whatever the runtime and the user answer, in any number of rounds: a completed branch keeps
its result up to the receipt, the receipt has one result for each ordinal, and each thread
that was started is handed to teardown.
-/

namespace SpineCodex

/-! ## Results that are kept -/

/-- The completed results of `before` are those of `after` at the same ordinals. -/
def Retains (before after : List (Option SpawnResult)) : Prop :=
  ∀ (ordinal : ℕ) (result : SpawnResult), before[ordinal]? = some (some result) →
    result.outcome = .completed → after[ordinal]? = some (some result)

/-- The branch has no completed result. -/
def Unfinished (results : List (Option SpawnResult)) (ordinal : ℕ) : Prop :=
  ∀ result : SpawnResult, results[ordinal]? = some (some result) → result.outcome ≠ .completed

theorem Retains.refl (results : List (Option SpawnResult)) : Retains results results :=
  fun _ _ h _ ↦ h

theorem Retains.trans {first second third : List (Option SpawnResult)} (h : Retains first second)
    (h' : Retains second third) : Retains first third := by
  intro ordinal result hresult hcompleted
  exact h' ordinal result (h ordinal result hresult hcompleted) hcompleted

theorem retains_setAll {results : List (Option SpawnResult)}
    {entries : List (ℕ × Option SpawnResult)}
    (h : ∀ entry ∈ entries, Unfinished results entry.1) : Retains results (setAll results entries) := by
  intro ordinal result hresult hcompleted
  rw [getElem?_setAll_of_notMem]
  · exact hresult
  · rintro entry hentry rfl
    exact h entry hentry result hresult hcompleted

theorem ChildFailure.result_outcome_ne (failure : ChildFailure) (ordinal : ℕ) :
    (failure.result ordinal).outcome ≠ .completed := by
  cases failure <;> exact SpawnOutcome.noConfusion

namespace RecoveryState

theorem mem_failedOrdinals {s : RecoveryState} {ordinal : ℕ} :
    ordinal ∈ s.failedOrdinals ↔
      ∃ result : SpawnResult, s.results[ordinal]? = some (some result) ∧
        result.outcome ≠ .completed := by
  simp only [failedOrdinals, List.mem_map, List.mem_filter, Prod.exists, List.mem_zipIdx_iff_getElem?]
  constructor
  · rintro ⟨result, _, ⟨hresult, hfailed⟩, rfl⟩
    obtain ⟨result, rfl, houtcome⟩ := (Option.any_eq_true _ _).mp hfailed
    exact ⟨result, hresult, by simpa using houtcome⟩
  · rintro ⟨result, hresult, houtcome⟩
    exact ⟨some result, ordinal, ⟨hresult, by simpa using houtcome⟩, rfl⟩

theorem failedOrdinals_nodup (s : RecoveryState) : s.failedOrdinals.Nodup := by
  have hsub : s.failedOrdinals.Sublist (s.results.zipIdx.map Prod.snd) :=
    List.filter_sublist.map Prod.snd
  rw [List.zipIdx_map_snd] at hsub
  exact hsub.nodup List.nodup_range'

theorem unfinished_of_failed {s : RecoveryState} {ordinal : ℕ} (h : ordinal ∈ s.failedOrdinals) :
    Unfinished s.results ordinal := by
  obtain ⟨failed, hfailed, houtcome⟩ := mem_failedOrdinals.mp h
  intro result hresult
  obtain rfl := Option.some.inj (Option.some.inj (hfailed.symm.trans hresult))
  exact houtcome

theorem lt_of_failed {s : RecoveryState} {ordinal : ℕ} (h : ordinal ∈ s.failedOrdinals) :
    ordinal < s.results.length := by
  obtain ⟨failed, hfailed, -⟩ := mem_failedOrdinals.mp h
  exact (List.getElem?_eq_some_iff.mp hfailed).1

theorem unfinished_fail {s : RecoveryState} {ordinal : ℕ} (h : Unfinished s.results ordinal)
    (failures : List (ℕ × ChildFailure)) : Unfinished (s.fail failures).results ordinal := by
  intro result hresult
  rcases getElem?_setAll_cases hresult with hold | hentry
  · exact h result hold
  · simp only [List.map_map, List.mem_map, Function.comp_apply, Prod.mk.injEq,
      Option.some.injEq] at hentry
    obtain ⟨⟨_, failure⟩, -, -, rfl⟩ := hentry
    exact failure.result_outcome_ne _

theorem thread?_eq_some {s : RecoveryState} {ordinal : ℕ} {thread : ThreadId} :
    s.thread? ordinal = some thread ↔ s.currentThreadIds[ordinal]? = some (some thread) := by
  simp [thread?, Option.join_eq_some_iff]

/-! ## The invariant of the loop -/

/-- Threads are handed to teardown before they are forgotten, and completed results stay. -/
structure Sound (s : RecoveryState) : Prop where
  length : s.currentThreadIds.length = s.results.length
  held : ∀ thread ∈ s.started, thread ∈ s.tornDown ∨ some thread ∈ s.currentThreadIds
  kept : ∀ results ∈ s.waited, Retains results s.results

/-- Awaited branches have no completed result. -/
def Open (s : RecoveryState) : Prop := ∀ wait ∈ s.waits, Unfinished s.results wait.1

namespace Sound

variable {s : RecoveryState}

theorem setResults (h : Sound s) {entries : List (ℕ × Option SpawnResult)}
    (hentries : ∀ entry ∈ entries, Unfinished s.results entry.1) (waits : List (ℕ × ThreadId)) :
    Sound { s with results := setAll s.results entries, waits } where
  length := by simpa using h.length
  held := h.held
  kept results hresults := (h.kept results hresults).trans (retains_setAll hentries)

theorem settle (h : Sound s) {entries : List (ℕ × SpawnResult)}
    (hentries : ∀ entry ∈ entries, Unfinished s.results entry.1) : Sound (s.settle entries) := by
  apply h.setResults _ s.waits
  intro entry hentry
  obtain ⟨settled, hsettled, rfl⟩ := List.mem_map.mp hentry
  exact hentries settled hsettled

theorem fail (h : Sound s) {failures : List (ℕ × ChildFailure)}
    (hfailures : ∀ failure ∈ failures, Unfinished s.results failure.1) :
    Sound (s.fail failures) := by
  apply h.settle
  intro entry hentry
  obtain ⟨failure, hfailure, rfl⟩ := List.mem_map.mp hentry
  exact hfailures failure hfailure

theorem await (h : Sound s) {waits : List (ℕ × ThreadId)}
    (hwaits : ∀ wait ∈ waits, Unfinished s.results wait.1) :
    Sound (s.await waits) ∧ Open (s.await waits) := by
  constructor
  · apply h.setResults
    intro entry hentry
    obtain ⟨wait, hwait, rfl⟩ := List.mem_map.mp hentry
    exact hwaits wait hwait
  · intro wait hwait result hresult
    rcases getElem?_setAll_cases hresult with hold | hentry
    · exact hwaits wait hwait result hold
    · simp at hentry

theorem stopWaiting (h : Sound s) : Sound { s with waits := [] } := ⟨h.length, h.held, h.kept⟩

theorem handToTeardown (h : Sound s) (threads : List ThreadId) : Sound (s.handToTeardown threads) where
  length := h.length
  held thread hthread := (h.held thread hthread).imp_left (List.mem_append_left threads)
  kept := h.kept

/-- Threads that were handed to teardown may be forgotten. -/
theorem release (h : Sound s) {ordinals : List ℕ}
    (hdown : ∀ ordinal ∈ ordinals, ∀ thread, s.thread? ordinal = some thread →
      thread ∈ s.tornDown) : Sound (s.setThreads (ordinals.map fun ordinal ↦ (ordinal, none))) where
  length := by simpa [setThreads] using h.length
  held := by
    intro thread hthread
    rcases h.held thread hthread with hdone | hcurrent
    · exact .inl hdone
    obtain ⟨i, hi⟩ := List.mem_iff_getElem?.mp hcurrent
    by_cases hmem : i ∈ ordinals
    · exact .inl (hdown i hmem thread (thread?_eq_some.mpr hi))
    · right
      apply List.mem_iff_getElem?.mpr ⟨i, _⟩
      refine (getElem?_setAll_of_notMem ?_).trans hi
      rintro entry hentry rfl
      obtain ⟨ordinal, hordinal, rfl⟩ := List.mem_map.mp hentry
      exact hmem hordinal
  kept := h.kept

/-- Started threads become the current ones of ordinals without a thread. -/
theorem adopt (h : Sound s) {live : List (ℕ × ThreadId)} (hnodup : (live.map Prod.fst).Nodup)
    (hfree : ∀ child ∈ live, child.1 < s.results.length ∧ s.thread? child.1 = none) :
    Sound { s.setThreads (live.map fun (ordinal, thread) ↦ (ordinal, some thread)) with
      started := s.started ++ live.map Prod.snd } where
  length := by simpa [setThreads] using h.length
  held := by
    intro thread hthread
    rcases List.mem_append.mp hthread with hold | hnew
    · refine (h.held thread hold).imp_right fun hcurrent ↦ ?_
      obtain ⟨i, hi⟩ := List.mem_iff_getElem?.mp hcurrent
      apply List.mem_iff_getElem?.mpr ⟨i, _⟩
      refine (getElem?_setAll_of_notMem ?_).trans hi
      rintro entry hentry rfl
      obtain ⟨child, hchild, rfl⟩ := List.mem_map.mp hentry
      have hnone := (hfree child hchild).2
      rw [thread?_eq_some.mpr hi] at hnone
      cases hnone
    · obtain ⟨child, hchild, rfl⟩ := List.mem_map.mp hnew
      right
      apply List.mem_iff_getElem?.mpr ⟨child.1, _⟩
      apply getElem?_setAll_of_mem
      · simpa [List.map_map, Function.comp_def] using hnodup
      · exact List.mem_map.mpr ⟨child, hchild, rfl⟩
      · rw [h.length]
        exact (hfree child hchild).1
  kept := h.kept

theorem merge (h : Sound s) (hopen : Open s) (wait : WaitOutcome) : Sound (s.merge wait) := by
  have hsettled : Sound (s.settle (s.waits.map fun (ordinal, thread) ↦
      (ordinal, wait.result ordinal thread))) := by
    apply h.settle
    intro entry hentry
    obtain ⟨child, hchild, rfl⟩ := List.mem_map.mp hentry
    exact hopen child hchild
  refine ⟨hsettled.length, hsettled.held, ?_⟩
  intro results hresults
  rcases List.mem_append.mp hresults with hold | hnew
  · exact hsettled.kept results hold
  · obtain rfl := List.mem_singleton.mp hnew
    exact Retains.refl _

theorem continueFailedBranches (h : Sound s) (answers : ContinueAnswers) :
    Sound (s.continueFailedBranches answers) ∧ Open (s.continueFailedBranches answers) := by
  unfold RecoveryState.continueFailedBranches
  extract_lets failedOrdinals pending refused
  have hpending : ∀ child ∈ pending, child.1 ∈ failedOrdinals := by
    intro child hchild
    obtain ⟨ordinal, hordinal, hsome⟩ := List.mem_filterMap.mp hchild
    split at hsome
    · obtain rfl := Option.some.inj hsome
      exact hordinal
    · cases hsome
  have hrefused : Sound refused := by
    apply h.fail
    intro failure hfailure
    obtain ⟨ordinal, hordinal, hsome⟩ := List.mem_filterMap.mp hfailure
    have hfst : failure.1 = ordinal := by
      split at hsome
      · exact (congrArg Prod.fst (Option.some.inj hsome)).symm
      · exact (congrArg Prod.fst (Option.some.inj hsome)).symm
      · cases hsome
    exact hfst ▸ unfinished_of_failed hordinal
  have hunfinished : ∀ child ∈ pending, Unfinished refused.results child.1 :=
    fun child hchild ↦ unfinished_fail (unfinished_of_failed (hpending child hchild)) _
  split
  · refine ⟨(hrefused.fail ?_).stopWaiting, fun wait hwait ↦ absurd hwait List.not_mem_nil⟩
    intro failure hfailure
    obtain ⟨child, hchild, rfl⟩ := List.mem_map.mp hfailure
    exact hunfinished child hchild
  · apply await
    · apply hrefused.fail
      intro failure hfailure
      obtain ⟨child, hchild, hsome⟩ := List.mem_filterMap.mp hfailure
      obtain ⟨error, -, rfl⟩ := Option.map_eq_some_iff.mp hsome
      exact hunfinished child hchild
    · intro child hchild
      exact unfinished_fail (hunfinished child (List.mem_filter.mp hchild).1) _

end Sound

/-! ## Starting children -/

theorem mem_liveStarts {starts : List (ℕ × Except String ThreadId)} {child : ℕ × ThreadId} :
    child ∈ liveStarts starts ↔ (child.1, Except.ok child.2) ∈ starts := by
  rw [liveStarts, List.mem_filterMap]
  constructor
  · rintro ⟨⟨ordinal, start⟩, hmem, hsome⟩
    cases start with
    | error error => cases hsome
    | ok thread =>
      obtain rfl := Option.some.inj hsome
      exact hmem
  · intro hmem
    exact ⟨_, hmem, rfl⟩

theorem mem_startErrors {starts : List (ℕ × Except String ThreadId)} {failure : ℕ × String} :
    failure ∈ startErrors starts ↔ (failure.1, Except.error failure.2) ∈ starts := by
  rw [startErrors, List.mem_filterMap]
  constructor
  · rintro ⟨⟨ordinal, start⟩, hmem, hsome⟩
    cases start with
    | ok thread => cases hsome
    | error error =>
      obtain rfl := Option.some.inj hsome
      exact hmem
  · intro hmem
    exact ⟨_, hmem, rfl⟩

theorem liveStarts_sublist (starts : List (ℕ × Except String ThreadId)) :
    ((liveStarts starts).map Prod.fst).Sublist (starts.map Prod.fst) := by
  induction starts with
  | nil => exact .slnil
  | cons start starts ih =>
    obtain ⟨ordinal, _ | thread⟩ := start
    · exact ih.cons ordinal
    · exact ih.cons_cons ordinal

theorem zip_fst_sublist {α β : Type*} (first : List α) (second : List β) :
    ((first.zip second).map Prod.fst).Sublist first := by
  induction first generalizing second with
  | nil => exact .slnil
  | cons a first ih =>
    cases second with
    | nil => exact List.nil_sublist _
    | cons b second => exact (ih second).cons_cons a

namespace Sound

variable {s : RecoveryState}

theorem retryStarted (h : Sound s) (answers : RetryAnswers)
    {starts : List (ℕ × Except String ThreadId)} (hnodup : (starts.map Prod.fst).Nodup)
    (hfree : ∀ start ∈ starts, start.1 < s.results.length ∧ Unfinished s.results start.1 ∧
      s.thread? start.1 = none) :
    Sound (s.retryStarted answers starts).1 ∧
      ((s.retryStarted answers starts).2 = .again → Open (s.retryStarted answers starts).1) := by
  unfold RecoveryState.retryStarted
  extract_lets retryLive liveIds failed adopted down released
  have hlive : ∀ child ∈ retryLive, child.1 < s.results.length ∧ Unfinished s.results child.1 ∧
      s.thread? child.1 = none :=
    fun child hchild ↦ hfree _ (mem_liveStarts.mp hchild)
  have hfailed : Sound (s.fail ((startErrors starts).map fun failure ↦
      (failure.1, .retryFailedToStart failure.2))) := by
    apply h.fail
    intro failure hfailure
    obtain ⟨error, herror, rfl⟩ := List.mem_map.mp hfailure
    exact (hfree _ (mem_startErrors.mp herror)).2.1
  have hadopted : Sound adopted := by
    apply hfailed.adopt ((liveStarts_sublist starts).nodup hnodup)
    intro child hchild
    exact ⟨by simpa [RecoveryState.fail, RecoveryState.settle] using (hlive child hchild).1,
      (hlive child hchild).2.2⟩
  have hunfinished : ∀ child ∈ retryLive, Unfinished adopted.results child.1 :=
    fun child hchild ↦ unfinished_fail (hlive child hchild).2.1 _
  split
  · exact (hadopted.await hunfinished).imp_right fun hopen _ ↦ hopen
  split
  · exact ⟨hadopted.handToTeardown liveIds, fun hagain ↦ by cases hagain⟩
  · refine ⟨?_, fun _ wait hwait ↦ absurd hwait List.not_mem_nil⟩
    apply stopWaiting
    have hsiblings : Sound (down.fail (retryLive.map fun (ordinal, thread) ↦
        (ordinal, .retrySiblingFailedToStart thread))) := by
      apply (hadopted.handToTeardown liveIds).fail
      intro failure hfailure
      obtain ⟨child, hchild, rfl⟩ := List.mem_map.mp hfailure
      exact hunfinished child hchild
    have hdown : ∀ ordinal ∈ retryLive.map Prod.fst, ∀ thread, down.thread? ordinal = some thread →
        thread ∈ down.tornDown := by
      intro ordinal hordinal thread hthread
      obtain ⟨child, hchild, rfl⟩ := List.mem_map.mp hordinal
      -- before the start the ordinal had no thread, so the thread is one of those just started
      rcases getElem?_setAll_cases (thread?_eq_some.mp hthread) with hold | hentry
      · have hnone : s.thread? child.1 = some thread := thread?_eq_some.mpr hold
        rw [(hlive child hchild).2.2] at hnone
        cases hnone
      · obtain ⟨other, hother, heq⟩ := List.mem_map.mp hentry
        obtain ⟨-, rfl⟩ : other.1 = child.1 ∧ other.2 = thread := by simpa using heq
        exact List.mem_append_right _ (List.mem_map_of_mem hother)
    have hreleased := hsiblings.release hdown
    rw [List.map_map] at hreleased
    exact hreleased

/-- The ordinals of a retry have no thread left when its children start. -/
theorem retryFailedBranches (h : Sound s) (answers : RetryAnswers) :
    Sound (s.retryFailedBranches answers).1 ∧
      ((s.retryFailedBranches answers).2 = .again → Open (s.retryFailedBranches answers).1) := by
  unfold RecoveryState.retryFailedBranches
  extract_lets failedOrdinals retryThreadIds down released
  have hdown : Sound down := h.handToTeardown retryThreadIds
  have hreleased : Sound released := by
    apply hdown.release
    intro ordinal hordinal thread hthread
    exact List.mem_append_right _ (List.mem_filterMap.mpr ⟨ordinal, hordinal, hthread⟩)
  have hfree : ∀ ordinal ∈ failedOrdinals, ordinal < released.results.length ∧
      Unfinished released.results ordinal ∧ released.thread? ordinal = none := by
    intro ordinal hordinal
    refine ⟨lt_of_failed hordinal, unfinished_of_failed hordinal, ?_⟩
    have hslot : released.currentThreadIds[ordinal]? = some none := by
      apply getElem?_setAll_of_mem
      · simpa [List.map_map, Function.comp_def] using s.failedOrdinals_nodup
      · exact List.mem_map.mpr ⟨ordinal, hordinal, rfl⟩
      · exact h.length ▸ lt_of_failed hordinal
    rw [thread?, hslot, Option.join_some]
  split
  · exact ⟨hdown, fun hagain ↦ by cases hagain⟩
  split
  · exact ⟨hreleased, fun hagain ↦ by cases hagain⟩
  split
  · exact ⟨hreleased, fun hagain ↦ by cases hagain⟩
  split
  · refine ⟨(hreleased.fail ?_).stopWaiting, fun _ wait hwait ↦ absurd hwait List.not_mem_nil⟩
    intro failure hfailure
    obtain ⟨ordinal, hordinal, rfl⟩ := List.mem_map.mp hfailure
    exact (hfree ordinal hordinal).2.1
  split
  · exact ⟨hreleased, fun hagain ↦ by cases hagain⟩
  · apply hreleased.retryStarted
    · exact (zip_fst_sublist failedOrdinals answers.starts).nodup s.failedOrdinals_nodup
    · intro start hstart
      exact hfree start.1 (List.of_mem_zip hstart).1

theorem round (h : Sound s) (hopen : Open s) (failureGateEnabled : Bool) (answers : RoundAnswers) :
    Sound (s.round failureGateEnabled answers).1 ∧
      ((s.round failureGateEnabled answers).2 = .again →
        Open (s.round failureGateEnabled answers).1) := by
  unfold RecoveryState.round
  have hmerged := h.merge hopen answers.wait
  dsimp only
  split
  · exact ⟨hmerged, fun hagain ↦ by cases hagain⟩
  split
  · exact ⟨hmerged, fun hagain ↦ by cases hagain⟩
  split
  · exact ⟨hmerged, fun hagain ↦ by cases hagain⟩
  · exact ⟨hmerged, fun hagain ↦ by cases hagain⟩
  · exact ⟨hmerged, fun hagain ↦ by cases hagain⟩
  · exact (hmerged.continueFailedBranches answers.continued).imp_right fun hopen _ ↦ hopen
  · exact hmerged.retryFailedBranches answers.retried

theorem rounds (h : Sound s) (hopen : Open s) (failureGateEnabled : Bool)
    (answers : List RoundAnswers) : Sound (s.rounds failureGateEnabled answers).1 := by
  induction answers generalizing s with
  | nil => exact h
  | cons first rest ih =>
    have hround := h.round hopen failureGateEnabled first
    unfold RecoveryState.rounds
    split
    next s' hagain =>
      rw [hagain] at hround
      exact ih hround.1 (hround.2 rfl)
    next s' stop hstop heq =>
      rw [heq] at hround
      exact hround.1

theorem abortOpen (h : Sound s) : Sound s.abortOpen := by
  apply h.fail
  intro failure hfailure
  obtain ⟨⟨result, ordinal⟩, hmem, hsome⟩ := List.mem_filterMap.mp hfailure
  dsimp only at hsome
  split at hsome
  next hnone =>
    obtain rfl := Option.some.inj hsome
    intro found hfound
    have hget : s.results[ordinal]? = some result := List.mem_zipIdx_iff_getElem?.mp hmem
    rw [hget, Option.some.injEq] at hfound
    rw [hfound] at hnone
    cases hnone
  next => cases hsome

theorem startPhase {starts : List (ℕ × Except String ThreadId)}
    (hordinals : starts.map Prod.fst = List.range starts.length) :
    Sound (SpineCodex.startPhase starts) ∧ Open (SpineCodex.startPhase starts) := by
  have hempty : ∀ (ordinal : ℕ), Unfinished (starts.map fun _ ↦ none) ordinal := by
    intro ordinal result hresult
    obtain ⟨_, -, hnone⟩ := List.mem_map.mp (List.mem_of_getElem? hresult)
    cases hnone
  have hbase : Sound ⟨starts.map fun _ ↦ none, starts.map fun _ ↦ none, liveStarts starts, [], [], []⟩ :=
    ⟨by simp only [List.length_map], fun _ hthread ↦ absurd hthread List.not_mem_nil,
      fun _ hresults ↦ absurd hresults List.not_mem_nil⟩
  have hfailed : Sound (RecoveryState.fail _ ((startErrors starts).map fun failure ↦
      (failure.1, .failedToStart failure.2))) := hbase.fail fun failure _ ↦ hempty failure.1
  have hnodup : ((liveStarts starts).map Prod.fst).Nodup :=
    (liveStarts_sublist starts).nodup (hordinals ▸ List.nodup_range)
  refine ⟨hfailed.adopt hnodup ?_, fun wait _ ↦ unfinished_fail (hempty wait.1) _⟩
  intro child hchild
  have hlt : child.1 ∈ starts.map Prod.fst := List.mem_map.mpr ⟨_, mem_liveStarts.mp hchild, rfl⟩
  rw [hordinals, List.mem_range] at hlt
  simp [RecoveryState.fail, RecoveryState.settle, thread?, hlt]

/-! ## The transaction -/

/-- What the last teardown and the receipt owe to the state that the loop left. -/
theorem finish (h : Sound s) {tasks : List SpawnTask} {teardown : Option String} {stop : RoundEnd}
    {ended : TransactionEnd} (hended : s.finish tasks teardown stop = some ended) :
    ∃ last : RecoveryState, Sound last ∧ ended.started = last.started ∧
      ended.tornDown = last.tornDown ++ last.currentThreadIds.filterMap id ∧
      ended.waited = last.waited ∧
      ∀ receipt, ended.outcome = .ok receipt → finishReceipt tasks last.results = .ok receipt := by
  have hlast : Sound (if stop = .cancelled then s.abortOpen else s) := by
    split
    · exact h.abortOpen
    · exact h
  cases stop with
  | again => cases hended
  | _ =>
    obtain rfl := Option.some.inj hended
    refine ⟨_, hlast, rfl, rfl, rfl, ?_⟩
    intro receipt hreceipt
    dsimp only [RecoveryState.return] at hreceipt
    split at hreceipt <;> first | exact hreceipt | cases hreceipt

end Sound

end RecoveryState

theorem finishReceipt_ordinals {tasks : List SpawnTask} {results : List (Option SpawnResult)}
    {receipt : SpawnReceipt} (h : finishReceipt tasks results = .ok receipt) :
    receipt.results.map SpawnResult.ordinal = List.range tasks.length := by
  obtain ⟨_, hvalid, hreceipt⟩ := Outcome.bind_eq_ok.mp h
  obtain rfl := Outcome.ok.inj hreceipt
  have hvalid := Outcome.mapErr_eq_ok.mp hvalid
  unfold SpawnReceipt.validateFor at hvalid
  simp only [Outcome.bind_eq_ok, Outcome.require_eq_ok] at hvalid
  obtain ⟨_, -, _, -, _, -, _, -, _, -, _, hlength, _, hresults, -⟩ := hvalid
  apply List.ext_getElem
  · rw [List.length_map, List.length_range, hlength]
  intro ordinal hordinal _
  rw [List.getElem_map, List.getElem_range]
  rw [List.length_map] at hordinal
  have hresult := Outcome.forM_eq_ok.mp hresults (_, ordinal)
    (List.mem_zipIdx_iff_getElem?.mpr (List.getElem?_eq_getElem hordinal))
  obtain ⟨_, hequal, -⟩ := Outcome.bind_eq_ok.mp hresult
  exact Outcome.require_eq_ok.mp hequal

theorem finishReceipt_retains {tasks : List SpawnTask} {results : List (Option SpawnResult)}
    {receipt : SpawnReceipt} (h : finishReceipt tasks results = .ok receipt) {ordinal : ℕ}
    {result : SpawnResult} (hresult : results[ordinal]? = some (some result)) :
    receipt.results[ordinal]? = some result := by
  obtain ⟨_, -, hreceipt⟩ := Outcome.bind_eq_ok.mp h
  obtain rfl := Outcome.ok.inj hreceipt
  simp [hresult]

/-- What a transaction owes when it returns. -/
structure TransactionEnd.Preserves (ended : TransactionEnd) (tasks : List SpawnTask) : Prop where
  tornDown : ended.started ⊆ ended.tornDown
  ordinals : ∀ receipt, ended.outcome = .ok receipt →
    receipt.results.map SpawnResult.ordinal = List.range tasks.length
  completed : ∀ receipt, ended.outcome = .ok receipt → ∀ results ∈ ended.waited,
    ∀ (ordinal : ℕ) (result : SpawnResult), results[ordinal]? = some (some result) →
      result.outcome = .completed → receipt.results[ordinal]? = some result

theorem preserves_of_sound {tasks : List SpawnTask} {ended : TransactionEnd} {last : RecoveryState}
    (hlast : last.Sound) (hstarted : ended.started = last.started)
    (htornDown : ended.tornDown = last.tornDown ++ last.currentThreadIds.filterMap id)
    (hwaited : ended.waited = last.waited)
    (houtcome : ∀ receipt, ended.outcome = .ok receipt →
      finishReceipt tasks last.results = .ok receipt) : ended.Preserves tasks where
  tornDown := by
    intro thread hthread
    rw [htornDown, List.mem_append]
    refine (hlast.held thread (hstarted ▸ hthread)).imp_right fun hcurrent ↦ ?_
    exact List.mem_filterMap.mpr ⟨some thread, hcurrent, rfl⟩
  ordinals receipt hreceipt := finishReceipt_ordinals (houtcome receipt hreceipt)
  completed := by
    intro receipt hreceipt results hresults ordinal result hresult hcompleted
    apply finishReceipt_retains (houtcome receipt hreceipt)
    exact hlast.kept results (hwaited ▸ hresults) ordinal result hresult hcompleted

/-- A transaction that waits for no child. -/
theorem preserves_of_unwaited {tasks : List SpawnTask} {started tornDown : List ThreadId}
    {outcome : Outcome String SpawnReceipt} (htornDown : started ⊆ tornDown)
    (h : ∀ receipt, outcome = .ok receipt → ∃ results, finishReceipt tasks results = .ok receipt) :
    TransactionEnd.Preserves ⟨started, tornDown, [], outcome⟩ tasks where
  tornDown := htornDown
  ordinals receipt hreceipt := by
    obtain ⟨results, hresults⟩ := h receipt hreceipt
    exact finishReceipt_ordinals hresults
  completed _ _ results hresults := absurd hresults List.not_mem_nil

/-- Whatever the answers are, in any number of rounds. -/
theorem preserves_of_executed {tasks : List SpawnTask} {failureGateEnabled : Bool}
    {answers : TransactionAnswers} {ended : TransactionEnd}
    (h : executeTransaction tasks failureGateEnabled answers = some ended) :
    ended.Preserves tasks := by
  unfold executeTransaction at h
  dsimp only at h
  have herr : ∀ (error : String) (receipt : SpawnReceipt), .err error = Outcome.ok receipt →
      ∃ results, finishReceipt tasks results = .ok receipt :=
    fun error receipt hreceipt ↦ by cases hreceipt
  split at h
  · obtain rfl := Option.some.inj h
    exact preserves_of_unwaited (List.nil_subset _) fun receipt hreceipt ↦ ⟨_, hreceipt⟩
  · obtain rfl := Option.some.inj h
    exact preserves_of_unwaited (List.nil_subset _) (herr _)
  split at h
  · obtain rfl := Option.some.inj h
    exact preserves_of_unwaited (List.nil_subset _) (herr _)
  split at h
  · obtain rfl := Option.some.inj h
    exact preserves_of_unwaited (List.nil_subset _) (herr _)
  set starts := (List.range tasks.length).map fun ordinal ↦ (ordinal, answers.start ordinal)
    with hstarts
  split at h
  · have hordinals : starts.map Prod.fst = List.range starts.length := by
      rw [hstarts, List.map_map, List.length_map, List.length_range]
      exact List.map_id _
    obtain ⟨hsound, hopen⟩ := RecoveryState.Sound.startPhase hordinals
    obtain ⟨last, hlast, hstarted, htornDown, hwaited, houtcome⟩ :=
      (hsound.rounds hopen failureGateEnabled answers.rounds).finish h
    exact preserves_of_sound hlast hstarted htornDown hwaited houtcome
  · split at h
    · obtain rfl := Option.some.inj h
      exact preserves_of_unwaited (List.Subset.refl _) (herr _)
    · obtain rfl := Option.some.inj h
      exact preserves_of_unwaited (List.Subset.refl _) fun receipt hreceipt ↦ ⟨_, hreceipt⟩

def retriedThread : ThreadId :=
  ⟨"0190a4e2-7c1d-7b3a-9f2e-3c4d5e6f7a8c", by decide, not_blank_literal rfl (by decide)⟩

/-- The second child fails, is started again by the user and completes. -/
def retriedAnswers : TransactionAnswers where
  admission := .prepared 2
  cancelledBeforeStart := false
  start _ := .ok childThread
  startTeardown := none
  rounds := [
    ⟨.terminal fun ordinal ↦ if ordinal = 0 then .completed (some "ok") else .errored "quota",
      .chosen .retryBranches, ⟨fun _ ↦ none, none, fun _ ↦ none⟩,
      ⟨none, false, none, none, false, [.ok retriedThread], none⟩⟩,
    ⟨.terminal fun _ ↦ .completed (some "late"), .dismissed, ⟨fun _ ↦ none, none, fun _ ↦ none⟩,
      ⟨none, false, none, none, false, [], none⟩⟩]
  teardown := none

theorem preserved_by_retry : ∃ ended, executeTransaction pairTasks true retriedAnswers = some ended ∧
    ended.started = [childThread, childThread, retriedThread] ∧
    ended.outcome.any (fun receipt ↦ receipt.results.map SpawnResult.memoryBody = ["ok", "late"]) ∧
    ended.Preserves pairTasks := by
  have hrun : (executeTransaction pairTasks true retriedAnswers).any (fun ended ↦
      ended.started = [childThread, childThread, retriedThread] ∧ ended.outcome.any fun receipt ↦
        receipt.results.map SpawnResult.memoryBody = ["ok", "late"]) = true := by
    decide +kernel
  obtain ⟨ended, hended, hchecks⟩ := (Option.any_eq_true _ _).mp hrun
  obtain ⟨hstarted, houtcome⟩ := of_decide_eq_true hchecks
  exact ⟨ended, hended, hstarted, houtcome, preserves_of_executed hended⟩

end SpineCodex
