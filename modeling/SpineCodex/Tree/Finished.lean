import SpineCodex.Spine.Artifacts
import SpineCodex.Tree.Reachable

/-!
# Finished nodes

A finished node never changes again, and the memory artifacts of a projection stay.
-/

namespace SpineCodex

/-- A node that was closed, or that ended with its epoch. -/
def RuntimeNode.Finished (n : RuntimeNode) : Prop := n.status = .closed ∨ n.status = .compacted

namespace SpineReducer

open Relation

/-- The finished nodes of `r` are in `r'` as they were. -/
def Final (r r' : SpineReducer) : Prop :=
  ∀ id n, r.node id = some n → n.Finished → r'.node id = some n

variable {r r₁ r' : SpineReducer} {tip : NodeId}

theorem Final.trans (h : Final r r₁) (h' : Final r₁ r') : Final r r' :=
  fun id n hn hfin ↦ h' id n (h id n hn hfin) hfin

theorem Path.ne_tip (hpath : Path r tip) {id : NodeId} {n : RuntimeNode}
    (hn : r.node id = some n) (hfin : n.Finished) : id ≠ tip := by
  rintro rfl
  rcases hpath.tip_status n hn with h | h <;> simp [RuntimeNode.Finished, h] at hfin

theorem Updated.final {f : RuntimeNode → RuntimeNode} (hupdate : Updated r tip f r')
    (hpath : Path r tip) : Final r r' := by
  intro id n hn hfin
  rw [hupdate.node_other (hpath.ne_tip hn hfin), hn]

theorem Extended.final {m' : RuntimeNode} {more : List RuntimeNode}
    (hext : Extended r tip m' more r') (hpath : Path r tip) : Final r r' := by
  intro id n hn hfin
  rw [hext.node_eq, if_neg (hpath.ne_tip hn hfin), hn, Option.some_or]

/-- A compaction skips the closed nodes, and the compacted ones are of earlier epochs. -/
theorem EpochEnded.final {boundary : RawBoundary} (hended : EpochEnded r boundary r')
    (hinv : TreeInv r) : Final r r' := by
  intro id n hn hfin
  have hkept : n.compacting r.cursor.epoch boundary = n := by
    apply if_neg
    intro ⟨hhead, hopen⟩
    have hepoch : n.id.epoch = r.cursor.epoch := by simp [NodeId.epoch, hhead]
    rcases hinv.status_cases (node_mem hn) with ⟨-, h⟩ | ⟨-, -, h⟩ | ⟨-, ⟨h, -⟩ | ⟨-, -, hlt⟩⟩
    · simp [RuntimeNode.Finished, h] at hfin
    · simp [RuntimeNode.Finished, h] at hfin
    · exact hopen h
    · omega
  rw [hended.node_eq, hn, Option.map_some, hkept, Option.some_or]

theorem TreeInv.sampling_final {span : RawSpan} {facts : List ExecutedSpineFact}
    {tokens : Option ℕ} (hinv : TreeInv r) (h : SamplingCase r span tokens facts r') :
    Final r r' := by
  cases h with
  | plain h => exact (pushCursorEntry_spec h).final hinv.path
  | openNode _ h =>
    obtain ⟨m, hopened⟩ := openUnder_spec h
    exact hopened.ext.final hinv.path
  | closeNode _ _ h =>
    obtain ⟨n, p, memory, r₁, hclosed, -, hupdate⟩ := closeNode_spec h
    have hpath := (hinv.of_closedCursor hclosed).2
    exact (hclosed.update.final hinv.path).trans (hupdate.final hpath)
  | nextNode _ _ h =>
    obtain ⟨n, p, memory, r₁, m, hclosed, hopened⟩ := nextNode_spec h
    have hpath := (hinv.of_closedCursor hclosed).2
    exact (hclosed.update.final hinv.path).trans (hopened.ext.final hpath)
  | spawn _ _ h =>
    obtain ⟨m, hspawned⟩ := spawn_spec h
    exact hspawned.ext.final hinv.path

theorem TreeInv.step_final (hinv : TreeInv r) (hstep : Step r r') (hbound : Bounded r') :
    Final r r' := by
  cases hstep with
  | event event h =>
    have hinv' : TreeInv { r with lastBoundary := some event.boundary } := hinv.congr rfl rfl rfl
    replace h := (apply_eq_some h).1
    cases event with
    | message m =>
      obtain ⟨anchor, next, heq⟩ := applyMessage_eq _ m
      rw [SpineReducer.transition, heq] at h
      exact (pushCursorEntry_spec h).final (TreeInv.path (hinv.congr rfl rfl rfl))
    | sourceSpan | opaqueItem | synthetic => exact (pushCursorEntry_spec h).final hinv'.path
    | compact boundary history => exact (hinv'.epochEnded h hbound).final hinv'
  | sampling span facts tokens _ h =>
    have hinv' : TreeInv { r with lastBoundary := some span.stop } := hinv.congr rfl rfl rfl
    exact hinv'.sampling_final (applySampling_eq_ok h).1

theorem TreeInv.run_final (hinv : TreeInv r)
    (hrun : ReflTransGen (fun r r' ↦ Step r r' ∧ Bounded r') r r') :
    TreeInv r' ∧ Final r r' := by
  induction hrun with
  | refl => exact ⟨hinv, fun _ _ hn _ ↦ hn⟩
  | tail _ hstep ih =>
    obtain ⟨hinv₁, hfinal⟩ := ih
    exact ⟨hinv₁.step hstep.1 hstep.2, hfinal.trans (hinv₁.step_final hstep.1 hstep.2)⟩

/-- However the run goes on, no finished node is changed and no memory artifact lost. -/
theorem finished_nodes_final {projection projection' : SpineProjection}
    (hr : ReachableBounded r) (hrun : ReflTransGen (fun r r' ↦ Step r r' ∧ Bounded r') r r')
    (h : r.projection = some projection) (h' : r'.projection = some projection') :
    (∀ n ∈ r.nodes, n.Finished → n ∈ r'.nodes) ∧
      closedMemoryArtifacts projection ⊆ closedMemoryArtifacts projection' := by
  have hinv := hr.treeInv
  obtain ⟨hinv', hfinal⟩ := hinv.run_final hrun
  have hkept : ∀ n ∈ r.nodes, n.Finished → n ∈ r'.nodes := fun n hn hfin ↦
    node_mem (hfinal n.id n (node_of_mem hinv.shape.ids_nodup hn) hfin)
  rw [hinv.projection_eq, Option.some.injEq] at h
  rw [hinv'.projection_eq, Option.some.injEq] at h'
  subst h h'
  refine ⟨hkept, fun artifact hartifact ↦ ?_⟩
  simp only [closedMemoryArtifacts, List.mem_filterMap, List.mem_filter, List.mem_map] at hartifact ⊢
  obtain ⟨node, ⟨⟨n, hn, rfl⟩, hclosed⟩, hsome⟩ := hartifact
  have hstatus : n.status = .closed := (of_decide_eq_true hclosed).2
  exact ⟨_, ⟨⟨n, hkept n hn (.inl hstatus), rfl⟩, hclosed⟩, hsome⟩

/-- A task is closed, then its epoch is compacted. -/
theorem artifacts_after_compaction : ∃ r r' projection projection', ReachableBounded r ∧
    r.apply (.compact 5 []) = some (r', projection') ∧ r.projection = some projection ∧
    closedMemoryArtifacts projection = [⟨⟨[1, 1]⟩, "a task", "done"⟩] ∧
    closedMemoryArtifacts projection ⊆ closedMemoryArtifacts projection' := by
  let fact (operation : SpineOperationFact) : ExecutedSpineFact :=
    ⟨⟨⟨"t", by decide⟩, "t-execution-0", by decide⟩, 0, .direct "call", operation⟩
  have hreach : ReachableBounded _ := .tail (.tail .refl
    ⟨.sampling ⟨2, 3⟩ [fact (.openNode "a task")] none (.inl (by decide)) rfl, by decide⟩)
    ⟨.sampling ⟨3, 4⟩ [fact (.closeNode "done")] none (.inl (by decide)) rfl, by decide⟩
  exact ⟨_, _, _, _, hreach, rfl, rfl, rfl,
    (finished_nodes_final hreach (.single ⟨.event (.compact 5 []) rfl, by decide⟩) rfl rfl).2⟩

end SpineReducer

end SpineCodex
