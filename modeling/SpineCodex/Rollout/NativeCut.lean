import SpineCodex.Rollout.Effective

/-!
# Rollback in the native history

The host replays the same markers on its own history, which holds the source items only.  Both
cut at the same turn and remove the contextual messages above the cut, but the walk over the
rollout also meets Spine records, and these stop it.
-/

namespace SpineCodex

/-- The history item of a source item; a message between agents becomes an agent message.
Compactions, which replace the history, are not replayed here. -/
def historyItem : RolloutItem → Option ResponseItem
  | .responseItem item => some item
  | .interAgentCommunication => some .agentMessage
  | _ => none

/-- A history item beside the number of its source item. -/
abbrev HistoryEntry := ℕ × ResponseItem

def historyEntry (entry : NumberedItem) : Option HistoryEntry :=
  (historyItem entry.2).map fun item ↦ (entry.1, item)

section

variable (tests : ContentTests)

/-- `user_message_positions`. -/
def userMessagePositions (items : List HistoryEntry) : List ℕ :=
  ListCut.positions (fun entry ↦ tests.isUserTurnBoundary entry.2) items

/-- `trim_pre_turn_context_updates`: the index at which the walk ends. -/
def trimPreTurnContextUpdates (snapshot : List HistoryEntry) (firstInstructionTurnIdx : ℕ) : ℕ → ℕ
  | 0 => 0
  | cutIdx + 1 =>
      if firstInstructionTurnIdx < cutIdx + 1 then
        if (snapshot[cutIdx]?.any fun entry ↦ tests.isContextual entry.2) = true then
          trimPreTurnContextUpdates snapshot firstInstructionTurnIdx cutIdx
        else cutIdx + 1
      else cutIdx + 1

/-- The cut of `drop_last_n_user_turns`. -/
def dropLastNUserTurns (numTurns : ℕ) (snapshot : List HistoryEntry) : List HistoryEntry :=
  if numTurns = 0 then snapshot
  else
    let userPositions := userMessagePositions tests snapshot
    match userPositions.head? with
    | none => snapshot
    | some first =>
        let cutIdx := if userPositions.length ≤ numTurns then first
          else userPositions.getD (userPositions.length - numTurns) first
        snapshot.take (trimPreTurnContextUpdates tests snapshot first cutIdx)

def nativeStep (history : List HistoryEntry) (entry : NumberedItem) : List HistoryEntry :=
  match entry.2 with
  | .eventMsg (.threadRolledBack turns) => dropLastNUserTurns tests turns history
  | _ => history ++ (historyEntry entry).toList

/-- The history that the host has behind a rollout without compactions. -/
def nativeHistory (rollout : List NumberedItem) : List HistoryEntry :=
  rollout.foldl (nativeStep tests) []

end

section

variable {tests : ContentTests}

/-! ## The native cut -/

abbrev turnEntry (tests : ContentTests) (entry : HistoryEntry) : Bool :=
  tests.isUserTurnBoundary entry.2

abbrev contextualEntry (tests : ContentTests) (entry : HistoryEntry) : Bool :=
  tests.isContextual entry.2

variable (tests) in
/-- The walk drops the contextual messages between the first turn and the cut. -/
theorem take_trimPreTurnContextUpdates (front above back : List HistoryEntry) :
    (front ++ above ++ back).take (trimPreTurnContextUpdates tests (front ++ above ++ back) front.length
      (front.length + above.length)) = front ++ above.rdropWhile (contextualEntry tests) := by
  induction above using List.reverseRecOn generalizing back with
  | nil =>
    have hstart : trimPreTurnContextUpdates tests (front ++ back) front.length front.length =
        front.length := by
      cases hlength : front.length with
      | zero => rfl
      | succ k => rw [trimPreTurnContextUpdates, if_neg (Nat.lt_irrefl _)]
    simp [hstart]
  | append_singleton above entry ih =>
    have hlt : front.length < front.length + above.length + 1 := by omega
    have hshift : front ++ (above ++ [entry]) ++ back = front ++ above ++ entry :: back := by simp
    have hget : (front ++ above ++ entry :: back)[front.length + above.length]? = some entry := by
      rw [← List.length_append, List.getElem?_append_right (le_refl _), Nat.sub_self,
        List.getElem?_cons_zero]
    rw [List.length_append, List.length_singleton, ← Nat.add_assoc, trimPreTurnContextUpdates,
      if_pos hlt, hshift, hget, Option.any_some]
    by_cases hcontext : contextualEntry tests entry = true
    · rw [if_pos hcontext, ih (entry :: back), List.rdropWhile_concat_pos _ _ _ hcontext]
    · have hlength : front.length + above.length + 1 = (front ++ (above ++ [entry])).length := by
        simp [Nat.add_assoc]
      rw [if_neg hcontext, List.rdropWhile_concat_neg _ _ _ hcontext, ← hshift, hlength, List.take_left]

/-- What the native cut makes of the items above it. -/
def nativeSettled (tests : ContentTests) (above : List HistoryEntry) : List HistoryEntry :=
  if above.countP (turnEntry tests) = 0 then above else above.rdropWhile (contextualEntry tests)

theorem dropLastNUserTurns_of_countP_eq_zero {history : List HistoryEntry} (turns : ℕ)
    (h : history.countP (turnEntry tests) = 0) : dropLastNUserTurns tests turns history = history := by
  have hnil : userMessagePositions tests history = [] := by
    rw [userMessagePositions, ← List.length_eq_zero_iff, ListCut.length_positions, h]
  simp [dropLastNUserTurns, hnil]

theorem dropLastNUserTurns_eq {turns first cut : ℕ} {history : List HistoryEntry} (hturns : 0 < turns)
    (hfirst : (userMessagePositions tests history)[0]? = some first)
    (hcut : (userMessagePositions tests history)[(userMessagePositions tests history).length - turns]? =
      some cut) :
    dropLastNUserTurns tests turns history =
      history.take (trimPreTurnContextUpdates tests history first cut) := by
  have hidx : (if (userMessagePositions tests history).length ≤ turns then first
      else (userMessagePositions tests history).getD
        ((userMessagePositions tests history).length - turns) first) = cut := by
    split_ifs with hle
    · rw [Nat.sub_eq_zero_of_le hle, hfirst] at hcut
      exact Option.some.inj hcut
    · rw [List.getD_eq_getElem?_getD, hcut, Option.getD_some]
  unfold dropLastNUserTurns
  rw [if_neg (Nat.pos_iff_ne_zero.mp hturns)]
  simp only [List.head?_eq_getElem?, hfirst, hidx]

theorem dropLastNUserTurns_of_before {turns : ℕ} {history above : List HistoryEntry}
    (h : ListCut.Before (turnEntry tests) turns history above) :
    dropLastNUserTurns tests turns history = nativeSettled tests above := by
  obtain ⟨cut, hcut, hlt⟩ := ListCut.exists_position h.countP_pos h.pos
  obtain ⟨first, hfirst⟩ := ListCut.exists_first_position h.countP_pos
  obtain rfl := h.unique (ListCut.before_of_positions hcut)
  have hposition := ListCut.take_position hfirst hcut
  rw [dropLastNUserTurns_eq h.pos hfirst hcut, nativeSettled]
  split_ifs at hposition ⊢ with hcount
  · subst hposition
    have hwalk := take_trimPreTurnContextUpdates tests (history.take cut) [] (history.drop cut)
    rwa [List.length_nil, Nat.add_zero, List.append_nil, List.take_append_drop,
      List.length_take_of_le hlt.le, List.rdropWhile_nil, List.append_nil] at hwalk
  · obtain ⟨hfirstLt, a, middle, ha, habove⟩ := hposition
    have hlast : (history.take first ++ a :: middle).rdropWhile (contextualEntry tests) =
        history.take first ++ (a :: middle).rdropWhile (contextualEntry tests) := by
      refine ListCut.rdropWhile_append List.mem_cons_self ?_
      by_contra hcontext
      have hno := tests.isUserTurnBoundary_of_isContextual (Bool.eq_true_of_not_eq_false hcontext)
      exact absurd ha (by simp [turnEntry, hno])
    have hwalk := take_trimPreTurnContextUpdates tests (history.take first) (a :: middle)
      (history.drop cut)
    rw [← List.length_append, ← habove, List.take_append_drop, List.length_take_of_le hfirstLt.le,
      List.length_take_of_le hlt.le] at hwalk
    rw [hwalk, habove, hlast]

/-! ## Agreement -/

/-- A record that the walk over the rollout meets and the native history does not have. -/
def isSpineRecord : RolloutItem → Bool
  | .spineSamplingStarted => true
  | .spineTransition => true
  | _ => false

/-- The items that are removed with the turn below them: below the entry there are no other
source items than contextual messages. -/
def Loose (tests : ContentTests) (below : List NumberedItem) : Prop :=
  ∀ entry ∈ below.filterMap historyEntry, contextualEntry tests entry = true

/-- No Spine record above the cut hides a contextual message from the walk. -/
def Uninterrupted (tests : ContentTests) (above : List NumberedItem) : Prop :=
  ∀ front record below, above = front ++ record :: below → isSpineRecord record.2 = true →
    Loose tests below → ∀ last, (front.filterMap historyEntry).getLast? = some last →
      contextualEntry tests last = false

/-- The items of an effective rollout without compactions. -/
def isPlainItem (item : RolloutItem) : Bool :=
  (historyItem item).isSome || isSpineRecord item || item == .eventMsg .tokenCount

/-- How the two walks treat an item of an effective rollout. -/
inductive WalkCase (tests : ContentTests) (entry : NumberedItem) : Prop where
  | removed (item : ResponseItem) (hitem : historyEntry entry = some (entry.1, item))
      (hcontext : tests.isContextual item = true) (hstep : trimStep tests entry.2 = .remove)
  | kept (item : ResponseItem) (hitem : historyEntry entry = some (entry.1, item))
      (hcontext : tests.isContextual item = false) (hstep : trimStep tests entry.2 = .stop)
  | record (hrecord : isSpineRecord entry.2 = true) (hstep : trimStep tests entry.2 = .stop)
  | skipped (hnone : historyEntry entry = none) (hrecord : isSpineRecord entry.2 = false)
      (hstep : trimStep tests entry.2 = .skip)

theorem trimStep_responseItem (item : ResponseItem) :
    trimStep tests (.responseItem item) = if tests.isContextual item then .remove else .stop := by
  cases item with
  | message role content =>
    simp only [trimStep, ContentTests.isContextual]
    by_cases hdeveloper : role = "developer"
    · subst hdeveloper
      simp
    · by_cases huser : role = "user" <;> simp [hdeveloper, huser]
  | agentMessage => rfl
  | other => rfl

variable (tests) in
theorem walkCase {entry : NumberedItem} (h : isPlainItem entry.2 = true) : WalkCase tests entry := by
  obtain ⟨number, item⟩ := entry
  cases item with
  | responseItem item =>
    cases hcontext : tests.isContextual item with
    | true => exact .removed item rfl hcontext (by rw [trimStep_responseItem, if_pos hcontext])
    | false => exact .kept item rfl hcontext (by simp [trimStep_responseItem, hcontext])
  | interAgentCommunication => exact .kept .agentMessage rfl rfl rfl
  | spineSamplingStarted => exact .record rfl rfl
  | spineTransition => exact .record rfl rfl
  | eventMsg event =>
    obtain rfl : event = .tokenCount := by
      simpa [isPlainItem, historyItem, isSpineRecord] using h
    exact .skipped rfl rfl rfl
  | sessionMeta | compacted | turnContext | worldState | other =>
    simp [isPlainItem, historyItem, isSpineRecord] at h

theorem boundaryEntry_eq (entry : NumberedItem) :
    boundaryEntry tests entry = (historyEntry entry).any (turnEntry tests) := by
  obtain ⟨number, item⟩ := entry
  cases item <;> rfl

theorem filterMap_concat (above : List NumberedItem) (entry : NumberedItem) :
    (above ++ [entry]).filterMap historyEntry =
      above.filterMap historyEntry ++ (historyEntry entry).toList := by
  rw [List.filterMap_append]
  cases hentry : historyEntry entry <;> simp [hentry]

theorem concat_eq_iff {above front below : List NumberedItem} {entry record : NumberedItem} :
    above ++ [entry] = front ++ record :: below ↔
      (above = front ∧ entry = record ∧ below = []) ∨
        ∃ below', above = front ++ record :: below' ∧ below = below' ++ [entry] := by
  constructor
  · intro h
    rcases List.eq_nil_or_concat below with rfl | ⟨below', last, rfl⟩
    · obtain ⟨habove, hentry⟩ := List.append_inj' h rfl
      exact .inl ⟨habove, List.singleton_inj.mp hentry, rfl⟩
    · rw [List.concat_eq_append, ← List.cons_append, ← List.append_assoc] at h
      obtain ⟨habove, hentry⟩ := List.append_inj' h rfl
      rw [List.concat_eq_append, List.singleton_inj.mp hentry]
      exact .inr ⟨below', habove, rfl⟩
  · rintro (⟨rfl, rfl, rfl⟩ | ⟨below', rfl, rfl⟩)
    · rfl
    · simp

theorem historyEntry_of_isSpineRecord {entry : NumberedItem} (h : isSpineRecord entry.2 = true) :
    historyEntry entry = none := by
  obtain ⟨number, item⟩ := entry
  cases item <;> first | rfl | simp [isSpineRecord] at h

/-- An entry that is no record and leaves the stretch loose does not change whether the stretch
is uninterrupted. -/
theorem uninterrupted_concat {above : List NumberedItem} {entry : NumberedItem}
    (hrecord : isSpineRecord entry.2 = false) (hloose : Loose tests [entry]) :
    Uninterrupted tests (above ++ [entry]) ↔ Uninterrupted tests above := by
  constructor
  · intro h front record below habove hmark hbelow
    refine h front record (below ++ [entry]) (by simp [habove]) hmark ?_
    intro other hmem
    rw [List.filterMap_append, List.mem_append] at hmem
    rcases hmem with hold | hnew
    · exact hbelow other hold
    · exact hloose other hnew
  · intro h front record below habove hmark hbelow
    rcases concat_eq_iff.mp habove with ⟨-, rfl, -⟩ | ⟨below', hsplit, rfl⟩
    · rw [hrecord] at hmark
      contradiction
    · refine h front record below' hsplit hmark fun other hmem ↦ hbelow other ?_
      rw [List.filterMap_append]
      exact List.mem_append_left _ hmem

/-- Behind an item that stays, every stretch is uninterrupted. -/
theorem uninterrupted_of_kept {above : List NumberedItem} {entry : NumberedItem} {item : HistoryEntry}
    (hitem : historyEntry entry = some item) (hkept : contextualEntry tests item = false) :
    Uninterrupted tests (above ++ [entry]) := by
  intro front record below habove hmark hbelow
  rcases concat_eq_iff.mp habove with ⟨-, rfl, -⟩ | ⟨below', -, rfl⟩
  · rw [historyEntry_of_isSpineRecord hmark] at hitem
    contradiction
  · have hcontext := hbelow item (List.mem_filterMap.mpr ⟨entry, by simp, hitem⟩)
    rw [hkept] at hcontext
    contradiction

/-- Behind a record, the stretch is uninterrupted when the last source item stays. -/
theorem uninterrupted_record {above : List NumberedItem} {entry : NumberedItem}
    (hrecord : isSpineRecord entry.2 = true) :
    Uninterrupted tests (above ++ [entry]) ↔
      ∀ last, (above.filterMap historyEntry).getLast? = some last → contextualEntry tests last = false := by
  constructor
  · intro h
    exact h above entry [] rfl hrecord (by simp [Loose])
  · intro h front record below habove hmark hbelow last hlast
    rcases concat_eq_iff.mp habove with ⟨rfl, -, -⟩ | ⟨below', rfl, rfl⟩
    · exact h last hlast
    · have hhistory : (front ++ record :: below').filterMap historyEntry =
          front.filterMap historyEntry ++ below'.filterMap historyEntry := by
        rw [List.filterMap_append, List.filterMap_cons_none (historyEntry_of_isSpineRecord hmark)]
      rw [hhistory, List.getLast?_append] at h
      cases hbelow' : (below'.filterMap historyEntry).getLast? with
      | none => exact h last (by rw [hbelow', Option.none_or, hlast])
      | some other =>
        have hmem : other ∈ (below' ++ [entry]).filterMap historyEntry := by
          rw [List.filterMap_append]
          exact List.mem_append_left _ (List.mem_of_getLast? hbelow')
        have hcontext := hbelow other hmem
        rw [h other (by rw [hbelow', Option.some_or])] at hcontext
        contradiction

theorem rdropWhile_eq_self_iff_getLast? {q : HistoryEntry → Bool} {history : List HistoryEntry} :
    history.rdropWhile q = history ↔ ∀ last, history.getLast? = some last → q last = false := by
  rcases List.eq_nil_or_concat history with rfl | ⟨front, last, rfl⟩
  · simp
  · simp [List.rdropWhile_eq_self_iff]

/-- Both walks leave the same history exactly when no record interrupts the one over the
rollout. -/
theorem filterMap_trimTail_iff {above : List NumberedItem}
    (hplain : ∀ entry ∈ above, isPlainItem entry.2 = true) :
    (trimTail tests above).filterMap historyEntry =
        (above.filterMap historyEntry).rdropWhile (contextualEntry tests) ↔
      Uninterrupted tests above := by
  induction above using List.reverseRecOn with
  | nil => simp [trimTail, trimReverse, Uninterrupted]
  | append_singleton above entry ih =>
    have ih := ih fun other hmem ↦ hplain other (List.mem_append_left _ hmem)
    cases walkCase tests (hplain entry (by simp)) with
    | removed item hitem hcontext hstep =>
      have hloose : Loose tests [entry] := by simp [Loose, hitem, hcontext]
      have hdropped : contextualEntry tests (entry.1, item) = true := hcontext
      have hrecord : isSpineRecord entry.2 = false := by
        by_contra hmark
        rw [historyEntry_of_isSpineRecord (Bool.eq_true_of_not_eq_false hmark)] at hitem
        contradiction
      rw [trimTail_concat_of_remove hstep, uninterrupted_concat hrecord hloose, ← ih,
        filterMap_concat, hitem, Option.toList_some, List.rdropWhile_concat_pos _ _ _ hdropped]
    | kept item hitem hcontext hstep =>
      have hkept : ¬contextualEntry tests (entry.1, item) = true := by simp [hcontext]
      rw [trimTail_concat_of_stop hstep, filterMap_concat, hitem, Option.toList_some,
        List.rdropWhile_concat_neg _ _ _ hkept]
      exact iff_of_true rfl (uninterrupted_of_kept hitem hcontext)
    | record hrecord hstep =>
      rw [trimTail_concat_of_stop hstep, uninterrupted_record hrecord, filterMap_concat,
        historyEntry_of_isSpineRecord hrecord, Option.toList_none, List.append_nil, eq_comm,
        rdropWhile_eq_self_iff_getLast?]
    | skipped hnone hrecord hstep =>
      have hloose : Loose tests [entry] := by simp [Loose, hnone]
      rw [trimTail_concat_of_skip hstep, uninterrupted_concat hrecord hloose, ← ih,
        filterMap_concat, filterMap_concat, hnone, Option.toList_none, List.append_nil,
        List.append_nil]

/-! ## One marker -/

/-- A rollback of the rollout and of the history agree exactly when no record interrupts the
walk above its cut. -/
theorem rollback_agrees_iff {effective : List NumberedItem}
    (hplain : ∀ entry ∈ effective, isPlainItem entry.2 = true) (turns : ℕ) :
    (rollback tests turns effective).filterMap historyEntry =
        dropLastNUserTurns tests turns (effective.filterMap historyEntry) ↔
      ∀ above, ListCut.Before (boundaryEntry tests) turns effective above →
        above.countP (boundaryEntry tests) ≠ 0 → Uninterrupted tests above := by
  rcases rollback_cases tests turns effective with ⟨above, habove⟩ | hnothing
  · have hhistory := habove.filterMap boundaryEntry_eq
    have hcount : (above.filterMap historyEntry).countP (turnEntry tests) =
        above.countP (boundaryEntry tests) := ListCut.countP_filterMap boundaryEntry_eq above
    have hunique : (∀ other, ListCut.Before (boundaryEntry tests) turns effective other →
        other.countP (boundaryEntry tests) ≠ 0 → Uninterrupted tests other) ↔
          (above.countP (boundaryEntry tests) ≠ 0 → Uninterrupted tests above) :=
      ⟨fun h ↦ h above habove, fun h other hother ↦ hother.unique habove ▸ h⟩
    rw [hunique, rollback_of_before habove, dropLastNUserTurns_of_before hhistory, settled,
      nativeSettled, hcount]
    split_ifs with hzero
    · simp [hzero]
    · have hmem : ∀ entry ∈ above, isPlainItem entry.2 = true := by
        obtain ⟨entry, back, rfl, -, -⟩ := habove
        exact fun entry hmem ↦ hplain entry (List.mem_append_left _ hmem)
      rw [filterMap_trimTail_iff hmem]
      exact ⟨fun h _ ↦ h, fun h ↦ h hzero⟩
  · have hnever : ∀ above, ¬ListCut.Before (boundaryEntry tests) turns effective above := by
      intro above habove
      have hpos := habove.pos
      have hcount := habove.countP_pos
      omega
    have hsame : rollback tests turns effective = effective ∧
        dropLastNUserTurns tests turns (effective.filterMap historyEntry) =
          effective.filterMap historyEntry := by
      rcases hnothing with rfl | hnone
      · exact ⟨rollback_zero effective, by simp [dropLastNUserTurns]⟩
      · refine ⟨rollback_of_countP_eq_zero turns hnone, dropLastNUserTurns_of_countP_eq_zero turns ?_⟩
        rw [ListCut.countP_filterMap boundaryEntry_eq, hnone]
    rw [hsame.1, hsame.2]
    exact iff_of_true rfl fun above habove ↦ absurd habove (hnever above)

/-! ## Whole rollouts -/

theorem isPlainItem_of_effective {source : List NumberedItem}
    (hplain : ∀ entry ∈ source, ∀ item, entry.2 ≠ .compacted item) :
    ∀ entry ∈ effectiveRolloutFromSource tests source, isPlainItem entry.2 = true := by
  intro entry hmem
  obtain ⟨hsource, heffective⟩ := mem_effectiveRolloutFromSource hmem
  have hnot := hplain entry hsource
  obtain ⟨number, item⟩ := entry
  cases item with
  | compacted item => exact absurd rfl (hnot item)
  | eventMsg event => cases event <;> simp_all [isEffectiveItem, isSpineSourceItem, isPlainItem]
  | responseItem | interAgentCommunication | spineSamplingStarted | spineTransition => rfl
  | sessionMeta | turnContext | worldState | other => simp [isEffectiveItem, isSpineSourceItem] at heffective

theorem effectiveRolloutFromSource_concat (source : List NumberedItem) (entry : NumberedItem) :
    effectiveRolloutFromSource tests (source ++ [entry]) =
      effectiveStep tests (effectiveRolloutFromSource tests source) entry := by
  simp [effectiveRolloutFromSource]

theorem nativeHistory_concat (source : List NumberedItem) (entry : NumberedItem) :
    nativeHistory tests (source ++ [entry]) = nativeStep tests (nativeHistory tests source) entry := by
  simp [nativeHistory]

/-- An item that is no marker is added to both or to neither. -/
theorem filterMap_effectiveStep {effective : List NumberedItem} {history : List HistoryEntry}
    {entry : NumberedItem} (h : effective.filterMap historyEntry = history)
    (hplain : ∀ item, entry.2 ≠ .compacted item)
    (hmarker : ∀ turns, entry.2 ≠ .eventMsg (.threadRolledBack turns)) :
    (effectiveStep tests effective entry).filterMap historyEntry = nativeStep tests history entry := by
  have hadd : nativeStep tests history entry = history ++ (historyEntry entry).toList := by
    unfold nativeStep
    split
    · exact absurd ‹_› (hmarker _)
    · rfl
  have hstep : effectiveStep tests effective entry =
      if isEffectiveItem entry.2 then effective ++ [entry] else effective := by
    unfold effectiveStep
    split
    · exact absurd ‹_› (hmarker _)
    · rfl
  rw [hadd, hstep, ← h]
  split_ifs with heffective
  · exact filterMap_concat effective entry
  · have hnone : historyEntry entry = none := by
      obtain ⟨number, item⟩ := entry
      cases item <;> first | rfl | simp [isEffectiveItem, isSpineSourceItem] at heffective
    rw [hnone, Option.toList_none, List.append_nil]

variable (tests) in
/-- Every part of a rollout selects the source items that the native history keeps exactly when
no Spine record hides a contextual message from the walk above the cut of a marker. -/
theorem rollback_selection_agrees_iff {rollout : List NumberedItem}
    (hplain : ∀ entry ∈ rollout, ∀ item, entry.2 ≠ .compacted item) :
    (∀ done, done <+: rollout →
      (effectiveRolloutFromSource tests done).filterMap historyEntry = nativeHistory tests done) ↔
    ∀ done number turns, done ++ [(number, .eventMsg (.threadRolledBack turns))] <+: rollout →
      ∀ above, ListCut.Before (boundaryEntry tests) turns (effectiveRolloutFromSource tests done) above →
        above.countP (boundaryEntry tests) ≠ 0 → Uninterrupted tests above := by
  have hplainOf : ∀ done, done <+: rollout →
      ∀ entry ∈ effectiveRolloutFromSource tests done, isPlainItem entry.2 = true :=
    fun done hdone ↦ isPlainItem_of_effective fun entry hmem ↦ hplain entry (hdone.subset hmem)
  have hmarker : ∀ done number turns,
      effectiveRolloutFromSource tests (done ++ [(number, .eventMsg (.threadRolledBack turns))]) =
        rollback tests turns (effectiveRolloutFromSource tests done) ∧
      nativeHistory tests (done ++ [(number, .eventMsg (.threadRolledBack turns))]) =
        dropLastNUserTurns tests turns (nativeHistory tests done) := by
    intro done number turns
    rw [effectiveRolloutFromSource_concat, nativeHistory_concat]
    exact ⟨rfl, rfl⟩
  constructor
  · intro hagree done number turns hdone
    have hbefore : done <+: rollout := (List.prefix_append done _).trans hdone
    have hafter := hagree _ hdone
    rw [(hmarker done number turns).1, (hmarker done number turns).2, ← hagree done hbefore] at hafter
    exact (rollback_agrees_iff (hplainOf done hbefore) turns).mp hafter
  · intro huninterrupted done hdone
    induction done using List.reverseRecOn with
    | nil => rfl
    | append_singleton done entry ih =>
      have hbefore : done <+: rollout := (List.prefix_append done _).trans hdone
      have ih := ih hbefore
      by_cases hmark : ∃ turns, entry.2 = .eventMsg (.threadRolledBack turns)
      · obtain ⟨number, item⟩ := entry
        obtain ⟨turns, rfl⟩ := hmark
        rw [(hmarker done number turns).1, (hmarker done number turns).2, ← ih]
        exact (rollback_agrees_iff (hplainOf done hbefore) turns).mpr (huninterrupted _ _ _ hdone)
      · rw [effectiveRolloutFromSource_concat, nativeHistory_concat]
        exact filterMap_effectiveStep ih (hplain entry (hdone.subset (by simp)))
          fun turns heq ↦ hmark ⟨turns, heq⟩

end

/-- Tests that take one text for a contextual fragment. -/
def sampleTests : ContentTests where
  isContextualUserFragment part := part == .inputText "<environment_context>"
  isContextualDevFragment part := part == .inputText "<environment_context>"
  isSummaryMessage _ := false
  isInterAgentInstruction _ := false

/-- Two turns, with an update of the context and another item before the second, and the removal
of the second turn. -/
def updatedRollout (between : RolloutItem) : List NumberedItem :=
  [(0, .responseItem (.message "user" [.inputText "first"])),
    (1, .responseItem (.message "assistant" [.other])),
    (2, .responseItem (.message "developer" [.inputText "<environment_context>"])),
    (3, between),
    (3, .responseItem (.message "user" [.inputText "second"])),
    (4, .eventMsg (.threadRolledBack 1))]

/-- A token count does not interrupt the walk. -/
theorem token_count_agrees :
    (effectiveRolloutFromSource sampleTests
        (updatedRollout (.eventMsg .tokenCount))).filterMap historyEntry =
      nativeHistory sampleTests (updatedRollout (.eventMsg .tokenCount)) := by
  have hrecords : ∀ entry ∈ updatedRollout (.eventMsg .tokenCount), isSpineRecord entry.2 = false := by
    decide
  refine (rollback_selection_agrees_iff sampleTests ?_).mpr ?_ _ List.prefix_rfl
  · simp [updatedRollout]
  · intro done number turns hdone above habove _ front record below hsplit hmark
    have hmem : record ∈ effectiveRolloutFromSource sampleTests done := by
      obtain ⟨entry, back, heffective, -⟩ := habove
      rw [heffective, hsplit]
      simp
    have hsource := hdone.subset (List.mem_append_left _ (mem_effectiveRolloutFromSource hmem).1)
    rw [hrecords record hsource] at hmark
    contradiction

/-- A Spine record does: the update of the context stays in the effective rollout and leaves the
native history. -/
theorem spine_record_disagrees :
    (effectiveRolloutFromSource sampleTests (updatedRollout .spineSamplingStarted)).filterMap
        (fun entry ↦ (historyEntry entry).map (·.1)) = [0, 1, 2] ∧
      (nativeHistory sampleTests (updatedRollout .spineSamplingStarted)).map (·.1) = [0, 1] := by
  decide

end SpineCodex
