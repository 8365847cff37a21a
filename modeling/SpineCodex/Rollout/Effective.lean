import SpineCodex.Lib.ListCut
import SpineCodex.Rollout.Items

/-!
# The effective rollout

A rollback marker in a rollout removes the last user turns before it.  The items that are left
when all markers are applied are the effective rollout, from which the Spine projection is
rebuilt.
-/

namespace SpineCodex

/-- `is_spine_source_item`. -/
def isSpineSourceItem : RolloutItem → Bool
  | .responseItem _ => true
  | .interAgentCommunication => true
  | .compacted _ => true
  | _ => false

/-- The items that the effective rollout is made of. -/
def isEffectiveItem (item : RolloutItem) : Bool :=
  isSpineSourceItem item || match item with
    | .eventMsg .tokenCount => true
    | .spineSamplingStarted => true
    | .spineTransition => true
    | _ => false

/-- What the walk above a cut does with an item. -/
inductive TrimStep where
  | skip
  | remove
  | stop
  deriving Repr, DecidableEq

/-- An item beside the number of source items before it. -/
abbrev NumberedItem := ℕ × RolloutItem

section

variable (tests : ContentTests)

/-- The items that a rollback counts. -/
def isRollbackBoundary : RolloutItem → Bool
  | .responseItem item => tests.isUserTurnBoundary item
  | .interAgentCommunication => true
  | _ => false

def trimStep : RolloutItem → TrimStep
  | .responseItem (.message role content) =>
      if role = "developer" then
        if tests.isContextualDevMessageContent content then .remove else .stop
      else if role = "user" then
        if tests.isContextualUserMessageContent content then .remove else .stop
      else .stop
  | .eventMsg .tokenCount => .skip
  | _ => .stop

/-- The loop that removes contextual messages from index `scan` down to the first boundary. -/
def trimAbove (firstUserBoundary : ℕ) : ℕ → List NumberedItem → List NumberedItem
  | 0, effective => effective
  | scan + 1, effective =>
      if firstUserBoundary < scan + 1 then
        match effective[scan]?.map fun entry ↦ trimStep tests entry.2 with
        | none => effective
        | some .skip => trimAbove firstUserBoundary scan effective
        | some .remove => trimAbove firstUserBoundary scan (effective.eraseIdx scan)
        | some .stop => effective
      else effective

/-- The boundary that is `turns` from the end, or else the first one. -/
def rollbackCut (userBoundaries : List ℕ) (turns : ℕ) : Option ℕ :=
  (if turns ≤ userBoundaries.length then userBoundaries[userBoundaries.length - turns]? else none).or
    userBoundaries.head?

/-- One rollback marker. -/
def rollback (turns : ℕ) (effective : List NumberedItem) : List NumberedItem :=
  if turns = 0 then effective
  else
    let userBoundaries := ListCut.positions (fun entry ↦ isRollbackBoundary tests entry.2) effective
    match rollbackCut userBoundaries turns with
    | none => effective
    | some cut =>
        trimAbove tests (userBoundaries.head?.getD cut) (effective.take cut).length (effective.take cut)

def effectiveStep (effective : List NumberedItem) (entry : NumberedItem) : List NumberedItem :=
  match entry.2 with
  | .eventMsg (.threadRolledBack turns) => rollback tests turns effective
  | item => if isEffectiveItem item then effective ++ [entry] else effective

/-- `effective_rollout_from_source`. -/
def effectiveRolloutFromSource (source : List NumberedItem) : List NumberedItem :=
  source.foldl (effectiveStep tests) []

end

/-! ## The walk above a cut -/

section

variable {tests : ContentTests}

/-- The walk over the items in reverse. -/
def trimReverse (tests : ContentTests) : List NumberedItem → List NumberedItem
  | [] => []
  | entry :: rest =>
      match trimStep tests entry.2 with
      | .skip => entry :: trimReverse tests rest
      | .remove => trimReverse tests rest
      | .stop => entry :: rest

/-- What the walk leaves of the items above a cut. -/
def trimTail (tests : ContentTests) (above : List NumberedItem) : List NumberedItem :=
  (trimReverse tests above.reverse).reverse

theorem trimTail_concat_of_skip {above : List NumberedItem} {entry : NumberedItem}
    (h : trimStep tests entry.2 = .skip) :
    trimTail tests (above ++ [entry]) = trimTail tests above ++ [entry] := by
  simp [trimTail, trimReverse, h]

theorem trimTail_concat_of_remove {above : List NumberedItem} {entry : NumberedItem}
    (h : trimStep tests entry.2 = .remove) :
    trimTail tests (above ++ [entry]) = trimTail tests above := by
  simp [trimTail, trimReverse, h]

theorem trimTail_concat_of_stop {above : List NumberedItem} {entry : NumberedItem}
    (h : trimStep tests entry.2 = .stop) : trimTail tests (above ++ [entry]) = above ++ [entry] := by
  simp [trimTail, trimReverse, h]

theorem trimStep_of_isRollbackBoundary {item : RolloutItem} (h : isRollbackBoundary tests item = true) :
    trimStep tests item = .stop := by
  cases item with
  | responseItem item =>
    cases item with
    | message role content =>
      have hcontext : tests.isContextual (.message role content) = false := by
        by_contra hne
        have hno := tests.isUserTurnBoundary_of_isContextual (Bool.eq_true_of_not_eq_false hne)
        rw [isRollbackBoundary, hno] at h
        contradiction
      simp only [ContentTests.isContextual, Bool.or_eq_false_iff, Bool.and_eq_false_iff] at hcontext
      simp only [trimStep]
      split_ifs with hdeveloper hdev huser hcontextual <;> simp_all
    | agentMessage => rfl
    | other => rfl
  | interAgentCommunication => rfl
  | _ => simp [isRollbackBoundary] at h

/-- The walk does not go beyond an item that stops it. -/
theorem trimReverse_append {items rest : List NumberedItem} {entry : NumberedItem} (hmem : entry ∈ items)
    (hstop : trimStep tests entry.2 = .stop) :
    trimReverse tests (items ++ rest) = trimReverse tests items ++ rest := by
  induction items with
  | nil => simp at hmem
  | cons first items ih =>
    rw [List.cons_append, trimReverse, trimReverse]
    cases hfirst : trimStep tests first.2 with
    | stop => rfl
    | skip =>
      have hne : entry ≠ first := by
        rintro rfl
        rw [hstop] at hfirst
        contradiction
      rw [List.cons_append, ih ((List.mem_cons.mp hmem).resolve_left hne)]
    | remove =>
      have hne : entry ≠ first := by
        rintro rfl
        rw [hstop] at hfirst
        contradiction
      exact ih ((List.mem_cons.mp hmem).resolve_left hne)

variable (tests) in
/-- The loop walks the items between the first boundary and the cut. -/
theorem trimAbove_eq (front above back : List NumberedItem) :
    trimAbove tests front.length (front.length + above.length) (front ++ above ++ back) =
      front ++ trimTail tests above ++ back := by
  induction above using List.reverseRecOn generalizing back with
  | nil =>
    cases hlength : front.length with
    | zero => simp [trimAbove, trimTail, trimReverse]
    | succ k => simp [trimAbove, trimTail, trimReverse]
  | append_singleton above entry ih =>
    have hlt : front.length < front.length + above.length + 1 := by omega
    have hshift : front ++ (above ++ [entry]) ++ back = front ++ above ++ entry :: back := by simp
    have hget : (front ++ (above ++ [entry]) ++ back)[front.length + above.length]? = some entry := by
      rw [hshift, ← List.length_append, List.getElem?_append_right (le_refl _), Nat.sub_self,
        List.getElem?_cons_zero]
    have herase : (front ++ (above ++ [entry]) ++ back).eraseIdx (front.length + above.length) =
        front ++ above ++ back := by
      rw [hshift, ← List.length_append, List.eraseIdx_append_of_length_le (le_refl _), Nat.sub_self,
        List.eraseIdx_zero, List.tail_cons]
    rw [List.length_append, List.length_singleton, ← Nat.add_assoc, trimAbove, if_pos hlt, hget,
      Option.map_some]
    cases hstep : trimStep tests entry.2 with
    | skip =>
      simp only []
      rw [hshift, ih (entry :: back), trimTail_concat_of_skip hstep]
      simp
    | remove =>
      simp only []
      rw [herase, ih back, trimTail_concat_of_remove hstep]
    | stop => rw [trimTail_concat_of_stop hstep]

/-- Items before one that stops the walk are left alone. -/
theorem trimTail_append {front above : List NumberedItem} {entry : NumberedItem} (hmem : entry ∈ above)
    (hstop : trimStep tests entry.2 = .stop) :
    trimTail tests (front ++ above) = front ++ trimTail tests above := by
  rw [trimTail, List.reverse_append, trimReverse_append (List.mem_reverse.mpr hmem) hstop,
    List.reverse_append, List.reverse_reverse, trimTail]

/-! ## Rollbacks as cuts -/

/-- The items that a rollback counts, of a numbered rollout. -/
abbrev boundaryEntry (tests : ContentTests) (entry : NumberedItem) : Bool :=
  isRollbackBoundary tests entry.2

/-- What a rollback makes of the items above its cut: nothing is removed above the first turn. -/
def settled (tests : ContentTests) (above : List NumberedItem) : List NumberedItem :=
  if above.countP (boundaryEntry tests) = 0 then above else trimTail tests above

theorem rollbackCut_eq {userBoundaries : List ℕ} {turns : ℕ} (hturns : 0 < turns) :
    rollbackCut userBoundaries turns = userBoundaries[userBoundaries.length - turns]? := by
  unfold rollbackCut
  by_cases hle : turns ≤ userBoundaries.length
  · have hlt : userBoundaries.length - turns < userBoundaries.length := by omega
    rw [if_pos hle, List.getElem?_eq_getElem hlt, Option.some_or]
  · have hzero : userBoundaries.length - turns = 0 := by omega
    rw [if_neg hle, Option.none_or, hzero, List.head?_eq_getElem?]

/-- A rollback without a turn to remove changes nothing. -/
theorem rollback_of_countP_eq_zero {effective : List NumberedItem} (turns : ℕ)
    (h : effective.countP (boundaryEntry tests) = 0) : rollback tests turns effective = effective := by
  have hnil : ListCut.positions (boundaryEntry tests) effective = [] := by
    rw [← List.length_eq_zero_iff, ListCut.length_positions, h]
  simp only [rollback, hnil, rollbackCut]
  simp

/-- A rollback keeps what stands before the turns and settles it. -/
theorem rollback_of_before {turns : ℕ} {effective above : List NumberedItem}
    (h : ListCut.Before (boundaryEntry tests) turns effective above) :
    rollback tests turns effective = settled tests above := by
  obtain ⟨cut, hcut, hlt⟩ := ListCut.exists_position h.countP_pos h.pos
  obtain ⟨first, hfirst⟩ := ListCut.exists_first_position h.countP_pos
  obtain rfl := h.unique (ListCut.before_of_positions hcut)
  have hrollback : rollback tests turns effective =
      trimAbove tests first (effective.take cut).length (effective.take cut) := by
    unfold rollback
    dsimp only
    rw [if_neg (Nat.pos_iff_ne_zero.mp h.pos), rollbackCut_eq h.pos, hcut, List.head?_eq_getElem?,
      hfirst]
    rfl
  have hposition := ListCut.take_position hfirst hcut
  rw [hrollback, settled]
  split_ifs at hposition ⊢ with hcount
  · -- the cut is at the first turn, where the loop does not start
    subst hposition
    have hlength : (effective.take cut).length = cut := List.length_take_of_le hlt.le
    have hloop := trimAbove_eq tests (effective.take cut) [] []
    rw [List.length_nil, Nat.add_zero, hlength, List.append_nil, List.append_nil] at hloop
    rw [hlength, hloop]
    simp [trimTail, trimReverse]
  · obtain ⟨hfirstLt, a, middle, ha, habove⟩ := hposition
    have hlength : (effective.take first).length = first := List.length_take_of_le hfirstLt.le
    have hloop := trimAbove_eq tests (effective.take first) (a :: middle) []
    rw [List.append_nil, List.append_nil, ← habove, ← List.length_append, ← habove, hlength] at hloop
    rw [hloop, habove]
    exact (trimTail_append List.mem_cons_self (trimStep_of_isRollbackBoundary ha)).symm

/-! ## Two rollbacks -/

variable (tests) in
/-- The walk removes nothing but contextual messages behind the last item that stops it. -/
theorem trimTail_split (above : List NumberedItem) :
    ∃ shared tail, above = shared ++ tail ∧
      trimTail tests above = shared ++ tail.filter (fun entry ↦ trimStep tests entry.2 = .skip) ∧
      ∀ entry ∈ tail, trimStep tests entry.2 ≠ .stop := by
  induction above using List.reverseRecOn with
  | nil => exact ⟨[], [], rfl, rfl, by simp⟩
  | append_singleton above entry ih =>
    obtain ⟨shared, tail, habove, htrim, htail⟩ := ih
    cases hstep : trimStep tests entry.2 with
    | skip =>
      refine ⟨shared, tail ++ [entry], by rw [habove, List.append_assoc], ?_, ?_⟩
      · rw [trimTail_concat_of_skip hstep, htrim, List.filter_append, List.append_assoc]
        simp [hstep]
      · simpa [or_imp, forall_and, hstep] using htail
    | remove =>
      refine ⟨shared, tail ++ [entry], by rw [habove, List.append_assoc], ?_, ?_⟩
      · rw [trimTail_concat_of_remove hstep, htrim, List.filter_append]
        simp [hstep]
      · simpa [or_imp, forall_and, hstep] using htail
    | stop =>
      refine ⟨above ++ [entry], [], by simp, ?_, by simp⟩
      rw [trimTail_concat_of_stop hstep]
      simp

theorem countP_eq_zero_of_ne_stop {tail : List NumberedItem}
    (h : ∀ entry ∈ tail, trimStep tests entry.2 ≠ .stop) : tail.countP (boundaryEntry tests) = 0 := by
  rw [List.countP_eq_zero]
  intro entry hmem hboundary
  exact h entry hmem (trimStep_of_isRollbackBoundary hboundary)

/-- A later rollback cuts the settled items where it would have cut them before. -/
theorem before_of_before_settled {turns : ℕ} {above above' : List NumberedItem}
    (h : ListCut.Before (boundaryEntry tests) turns (settled tests above) above') :
    ListCut.Before (boundaryEntry tests) turns above above' := by
  unfold settled at h
  split_ifs at h with hcount
  · exact h
  · obtain ⟨shared, tail, habove, htrim, htail⟩ := trimTail_split tests above
    rw [htrim] at h
    rw [habove]
    refine h.change_tail (countP_eq_zero_of_ne_stop ?_) (countP_eq_zero_of_ne_stop htail)
    intro entry hmem
    exact htail entry (List.mem_of_mem_filter hmem)

/-- Settling removes no turn. -/
theorem countP_settled (above : List NumberedItem) :
    (settled tests above).countP (boundaryEntry tests) = above.countP (boundaryEntry tests) := by
  unfold settled
  split_ifs with hcount
  · rfl
  · obtain ⟨shared, tail, habove, htrim, htail⟩ := trimTail_split tests above
    have hfilter : ∀ entry ∈ tail.filter (fun entry ↦ trimStep tests entry.2 = .skip),
        trimStep tests entry.2 ≠ .stop := fun entry hmem ↦ htail entry (List.mem_of_mem_filter hmem)
    rw [htrim, List.countP_append, countP_eq_zero_of_ne_stop hfilter, habove, List.countP_append,
      countP_eq_zero_of_ne_stop htail]

theorem rollback_zero (effective : List NumberedItem) : rollback tests 0 effective = effective := by
  rw [rollback, if_pos rfl]

variable (tests) in
/-- A rollback cuts, or there is nothing that it could cut. -/
theorem rollback_cases (turns : ℕ) (effective : List NumberedItem) :
    (∃ above, ListCut.Before (boundaryEntry tests) turns effective above) ∨
      turns = 0 ∨ effective.countP (boundaryEntry tests) = 0 := by
  rcases Nat.eq_zero_or_pos turns with hzero | hturns
  · exact .inr (.inl hzero)
  · rcases Nat.eq_zero_or_pos (effective.countP (boundaryEntry tests)) with hnone | hsome
    · exact .inr (.inr hnone)
    · exact .inl (ListCut.exists_before hsome hturns)

theorem settled_sublist (above : List NumberedItem) : (settled tests above).Sublist above := by
  unfold settled
  split_ifs
  · exact List.Sublist.refl above
  · obtain ⟨shared, tail, habove, htrim, -⟩ := trimTail_split tests above
    rw [htrim, habove]
    exact (List.Sublist.refl shared).append List.filter_sublist

theorem rollback_sublist (turns : ℕ) (effective : List NumberedItem) :
    (rollback tests turns effective).Sublist effective := by
  rcases rollback_cases tests turns effective with ⟨above, habove⟩ | rfl | hnone
  · rw [rollback_of_before habove]
    obtain ⟨entry, back, rfl, -⟩ := habove
    exact (settled_sublist above).trans (List.sublist_append_left above _)
  · rw [rollback_zero]
  · rw [rollback_of_countP_eq_zero turns hnone]

variable (tests) in
/-- Rollbacks compose by adding their turns. -/
theorem rollback_rollback (a b : ℕ) (effective : List NumberedItem) :
    rollback tests b (rollback tests a effective) = rollback tests (a + b) effective := by
  rcases Nat.eq_zero_or_pos a with rfl | ha
  · rw [rollback_zero, Nat.zero_add]
  rcases Nat.eq_zero_or_pos b with rfl | hb
  · rw [rollback_zero, Nat.add_zero]
  rcases Nat.eq_zero_or_pos (effective.countP (boundaryEntry tests)) with hnone | hsome
  · rw [rollback_of_countP_eq_zero a hnone, rollback_of_countP_eq_zero b hnone,
      rollback_of_countP_eq_zero (a + b) hnone]
  obtain ⟨above, habove⟩ := ListCut.exists_before hsome ha
  rw [rollback_of_before habove]
  rcases Nat.eq_zero_or_pos (above.countP (boundaryEntry tests)) with hleft | hleft
  · -- the first rollback has removed every turn
    rw [rollback_of_before (habove.of_countP_eq_zero hleft),
      rollback_of_countP_eq_zero b ((countP_settled above).trans hleft)]
  · rw [← countP_settled] at hleft
    obtain ⟨above', habove'⟩ := ListCut.exists_before hleft hb
    rw [rollback_of_before habove',
      rollback_of_before (habove.trans (before_of_before_settled habove'))]

/-- An effective rollout is made of items of its rollout. -/
theorem mem_effectiveRolloutFromSource {source : List NumberedItem} {entry : NumberedItem}
    (h : entry ∈ effectiveRolloutFromSource tests source) :
    entry ∈ source ∧ isEffectiveItem entry.2 = true := by
  induction source using List.reverseRecOn with
  | nil => simp [effectiveRolloutFromSource] at h
  | append_singleton source last ih =>
    rw [effectiveRolloutFromSource, List.foldl_append, List.foldl_cons, List.foldl_nil,
      ← effectiveRolloutFromSource, effectiveStep] at h
    have hold : entry ∈ effectiveRolloutFromSource tests source →
        entry ∈ source ++ [last] ∧ isEffectiveItem entry.2 = true :=
      fun hmem ↦ ⟨List.mem_append_left _ (ih hmem).1, (ih hmem).2⟩
    split at h
    · exact hold ((rollback_sublist _ _).subset h)
    · split_ifs at h with heffective
      · rcases List.mem_append.mp h with hmem | hlast
        · exact hold hmem
        · rw [List.mem_singleton.mp hlast]
          exact ⟨by simp, heffective⟩
      · exact hold h

variable (tests) in
/-- Two rollback markers in a row select what one marker of all their turns selects. -/
theorem effectiveRollout_add (source rest : List NumberedItem) (a b i j k : ℕ) :
    effectiveRolloutFromSource tests (source ++
        (i, .eventMsg (.threadRolledBack a)) :: (j, .eventMsg (.threadRolledBack b)) :: rest) =
      effectiveRolloutFromSource tests
        (source ++ (k, .eventMsg (.threadRolledBack (a + b))) :: rest) := by
  have hmarkers := rollback_rollback tests a b (source.foldl (effectiveStep tests) [])
  simp only [effectiveRolloutFromSource, List.foldl_append, List.foldl_cons, effectiveStep, hmarkers]

end

end SpineCodex
