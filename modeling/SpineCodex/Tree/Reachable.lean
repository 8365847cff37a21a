import SpineCodex.Tree.FlatLaws

/-!
# Reachable trees

Every tree that the reducer reaches while its 32-bit ordinals last is well
formed, and no call on it aborts.
-/

namespace SpineCodex.SpineReducer

open Relation

/-- The facts that one sampling may carry: at most one, or only spawns. -/
def StructuralFacts (facts : List ExecutedSpineFact) : Prop :=
  facts.length ≤ 1 ∨ ∀ fact ∈ facts, fact.operation.spawnBatch?.isSome

/-- One call of the reducer that returns: an event, or the facts of one sampling. -/
inductive Step (r : SpineReducer) : SpineReducer → Prop
  | event (event : RolloutEvent) {r' : SpineReducer} {projection : SpineProjection}
      (h : r.apply event = some (r', projection)) : Step r r'
  | sampling (span : RawSpan) (facts : List ExecutedSpineFact) (tokens : Option ℕ)
      {r' : SpineReducer} {projection : SpineProjection} (hfacts : StructuralFacts facts)
      (h : r.applySampling span facts tokens = .ok (r', projection)) : Step r r'

/-- The states of a run in which the ordinals never run out. -/
def ReachableBounded : SpineReducer → Prop :=
  ReflTransGen (fun r r' ↦ Step r r' ∧ Bounded r') new

/-! ## What a call does -/

/-- The five ways a successful sampling changes the tree. -/
inductive SamplingCase (r : SpineReducer) (span : RawSpan) (tokens : Option ℕ) :
    List ExecutedSpineFact → SpineReducer → Prop
  | plain {r' : SpineReducer} (h : r.pushSourceSpan span = some r') : SamplingCase r span tokens [] r'
  | openNode {fact : ExecutedSpineFact} {summary : String} {r' : SpineReducer}
      (hfact : fact.operation = .openNode summary) (h : r.openNode span summary tokens = some r') :
      SamplingCase r span tokens [fact] r'
  | closeNode {fact : ExecutedSpineFact} {memory : String} {r' : SpineReducer}
      (hfact : fact.operation = .closeNode memory) (hkind : r.cursorKind = some .task)
      (h : r.closeNode span memory = some r') : SamplingCase r span tokens [fact] r'
  | nextNode {fact : ExecutedSpineFact} {memory summary : String} {r' : SpineReducer}
      (hfact : fact.operation = .nextNode memory summary) (hkind : r.cursorKind = some .task)
      (h : r.nextNode span summary memory tokens = some r') : SamplingCase r span tokens [fact] r'
  | spawn {facts : List ExecutedSpineFact} {r' : SpineReducer} (hne : facts ≠ [])
      (hfacts : ∀ fact ∈ facts, fact.operation.spawnBatch?.isSome)
      (h : r.spawn span (facts.filterMap (·.operation.spawnBatch?)) = some r') :
      SamplingCase r span tokens facts r'

/-- Every successful sampling is one of the five cases. -/
theorem samplingTransition_cases {r r' : SpineReducer} {span : RawSpan}
    {facts : List ExecutedSpineFact} {tokens : Option ℕ}
    (h : r.samplingTransition span facts tokens = .ok r') : SamplingCase r span tokens facts r' := by
  match facts, h with
  | [], h => exact .plain (Outcome.expect_eq_ok.mp h)
  | [fact], h =>
    simp only [samplingTransition] at h
    split at h
    · rename_i summary hfact
      exact .openNode hfact (Outcome.expect_eq_ok.mp h)
    · rename_i memory hfact
      obtain ⟨kind, hkind, h⟩ := Outcome.bind_eq_ok.mp h
      obtain ⟨_, htask, h⟩ := Outcome.bind_eq_ok.mp h
      obtain rfl := Outcome.require_eq_ok.mp htask
      exact .closeNode hfact (Outcome.expect_eq_ok.mp hkind) (Outcome.expect_eq_ok.mp h)
    · rename_i memory summary hfact
      obtain ⟨kind, hkind, h⟩ := Outcome.bind_eq_ok.mp h
      obtain ⟨_, htask, h⟩ := Outcome.bind_eq_ok.mp h
      obtain rfl := Outcome.require_eq_ok.mp htask
      exact .nextNode hfact (Outcome.expect_eq_ok.mp hkind) (Outcome.expect_eq_ok.mp h)
    · rename_i tasks results hfact
      refine .spawn (by simp) (by simp [hfact, SpineOperationFact.spawnBatch?]) ?_
      simpa [hfact, SpineOperationFact.spawnBatch?] using Outcome.expect_eq_ok.mp h
  | first :: second :: rest, h =>
    simp only [samplingTransition] at h
    split_ifs at h with hall
    exact .spawn (by simp) (List.all_eq_true.mp hall) (Outcome.expect_eq_ok.mp h)

theorem TreeInv.sampling {r r' : SpineReducer} {span : RawSpan} {facts : List ExecutedSpineFact}
    {tokens : Option ℕ} (hinv : TreeInv r) (h : SamplingCase r span tokens facts r')
    (hbound : Bounded r') : TreeInv r' := by
  cases h with
  | plain h => exact hinv.pushCursorEntry h
  | openNode _ h => exact hinv.openNode h hbound
  | closeNode _ _ h => exact hinv.closeNode h
  | nextNode _ _ h => exact hinv.nextNode h hbound
  | spawn _ _ h => exact hinv.spawn h hbound

theorem TreeInv.transition {r r' : SpineReducer} {event : RolloutEvent} (hinv : TreeInv r)
    (h : r.transition event = some r') (hbound : Bounded r') : TreeInv r' := by
  cases event with
  | message m =>
    obtain ⟨anchor, next, heq⟩ := applyMessage_eq r m
    rw [SpineReducer.transition, heq] at h
    have hinv' : TreeInv { r with nextUserAnchor := next } := hinv.congr rfl rfl rfl
    exact hinv'.pushCursorEntry h
  | sourceSpan span bytes => exact hinv.pushCursorEntry h
  | opaqueItem boundary => exact hinv.pushCursorEntry h
  | synthetic boundary item => exact hinv.pushCursorEntry h
  | compact boundary history => exact hinv.applyCompact h hbound

/-- What one call of the reducer returns, without the projection. -/
theorem apply_eq_some {r r' : SpineReducer} {event : RolloutEvent} {projection : SpineProjection}
    (h : r.apply event = some (r', projection)) :
    { r with lastBoundary := some event.boundary }.transition event = some r' ∧
      r'.projection = some projection := by
  obtain ⟨r₁, hr₁, h⟩ := Option.bind_eq_some_iff.mp h
  obtain ⟨proj, hproj, h⟩ := Option.bind_eq_some_iff.mp h
  obtain ⟨rfl, rfl⟩ := Prod.mk.inj (Option.some.inj h)
  exact ⟨hr₁, hproj⟩

theorem applySampling_eq_ok {r r' : SpineReducer} {span : RawSpan}
    {facts : List ExecutedSpineFact} {tokens : Option ℕ} {projection : SpineProjection}
    (h : r.applySampling span facts tokens = .ok (r', projection)) :
    SamplingCase { r with lastBoundary := some span.stop } span tokens facts r' ∧
      r'.projection = some projection := by
  obtain ⟨r₁, hr₁, h⟩ := Outcome.bind_eq_ok.mp h
  obtain ⟨proj, hproj, h⟩ := Outcome.bind_eq_ok.mp h
  obtain ⟨rfl, rfl⟩ := Prod.mk.inj (Outcome.ok.inj h)
  exact ⟨samplingTransition_cases hr₁, Outcome.expect_eq_ok.mp hproj⟩

theorem TreeInv.step {r r' : SpineReducer} (hinv : TreeInv r) (hstep : Step r r')
    (hbound : Bounded r') : TreeInv r' := by
  cases hstep with
  | event event h =>
    have hinv' : TreeInv { r with lastBoundary := some event.boundary } := hinv.congr rfl rfl rfl
    exact hinv'.transition (apply_eq_some h).1 hbound
  | sampling span facts tokens _ h =>
    have hinv' : TreeInv { r with lastBoundary := some span.stop } := hinv.congr rfl rfl rfl
    exact hinv'.sampling (applySampling_eq_ok h).1 hbound

theorem ReachableBounded.treeInv {r : SpineReducer} (h : ReachableBounded r) : TreeInv r := by
  induction h with
  | refl => exact treeInv_new
  | tail _ hstep ih => exact ih.step hstep.1 hstep.2

/-! ## No call aborts -/

/-- No call on the reducer meets a missing node or a task without a parent. -/
structure NeverAborts (r : SpineReducer) : Prop where
  transition : ∀ event, (r.transition event).isSome
  sampling : ∀ span facts tokens, r.samplingTransition span facts tokens ≠ .crash
  projection : r.projection.isSome

theorem expect_ne_crash {α : Type} {o : Option α} (h : o.isSome) :
    (Outcome.expect o : Outcome TypedTransitionError α) ≠ .crash := by
  obtain ⟨a, rfl⟩ := Option.isSome_iff_exists.mp h
  simp [Outcome.expect]

theorem TreeInv.assembleMemory_isSome {r : SpineReducer} (hinv : TreeInv r) {id : NodeId}
    {n : RuntimeNode} (hn : r.node id = some n) (memory : String) (span : RawSpan) :
    ∃ slots, r.assembleMemory n memory span = some slots := by
  obtain ⟨slots, hslots⟩ := Option.isSome_iff_exists.mp
    (entryMemory_isSome n.id (hinv.shape.child_mem id n hn))
  exact ⟨slots ++ [.summary n.id span memory], by simp [assembleMemory, hslots]⟩

/-- A task cursor closes: its node, its parent and its children all exist. -/
theorem TreeInv.closeCursor_isSome {r : SpineReducer} (hinv : TreeInv r)
    (hkind : r.cursorKind = some .task) (span : RawSpan) (memory : String) :
    ∃ r₁ p, r.closeCursor span memory = some (r₁, p) ∧ p ∈ r₁.ids := by
  obtain ⟨n, hn, -, -⟩ := hinv.cursor_node
  obtain ⟨p, hp⟩ : ∃ p, n.parent = some p := by
    cases hparent : n.parent with
    | none => simp [cursorKind, hn, hparent] at hkind
    | some p => exact ⟨p, rfl⟩
  obtain ⟨slots, hslots⟩ := hinv.assembleMemory_isSome hn memory span
  obtain ⟨r₁, hr₁⟩ := SpineReducer.closeCursor_isSome hn hp hslots
  obtain ⟨n', slots', hclosed⟩ := closeCursor_spec hr₁
  exact ⟨r₁, p, hr₁, (hinv.of_closedCursor hclosed).2.tip_mem⟩

/-- The guard that `close` and `next` share passes or returns an error. -/
theorem TreeInv.taskGuard_ne_crash {r : SpineReducer} (hinv : TreeInv r) (tool : String)
    {o : Option SpineReducer} (ho : r.cursorKind = some .task → o.isSome) :
    (do
      let kind ← .expect r.cursorKind
      .require (kind = .task) (.taskCursorRequired tool)
      .expect o : Outcome TypedTransitionError SpineReducer) ≠ .crash := by
  obtain ⟨n, hn, -, -⟩ := hinv.cursor_node
  have hkind : r.cursorKind = some (if n.parent.isNone then .rootEpoch else .task) := by
    simp [cursorKind, hn]
  by_cases htask : r.cursorKind = some .task
  · obtain ⟨r', hr'⟩ := Option.isSome_iff_exists.mp (ho htask)
    simp [htask, hr', Outcome.expect, Outcome.require]
  · rw [hkind] at htask ⊢
    split_ifs at htask ⊢ with hroot
    · simp [Outcome.expect, Outcome.require]
    · exact absurd rfl htask

theorem TreeInv.neverAborts {r : SpineReducer} (hinv : TreeInv r) : NeverAborts r := by
  have hcursor : (r.node r.cursor).isSome := node_isSome.mpr hinv.path.tip_mem
  refine ⟨?_, ?_, by simp [hinv.projection_eq]⟩
  · intro event
    cases event with
    | message m =>
      obtain ⟨anchor, next, heq⟩ := applyMessage_eq r m
      rw [SpineReducer.transition, heq]
      have hinv' : TreeInv { r with nextUserAnchor := next } := hinv.congr rfl rfl rfl
      exact hinv'.pushCursorEntry_isSome _
    | sourceSpan span bytes => exact hinv.pushCursorEntry_isSome _
    | opaqueItem boundary => exact hinv.pushCursorEntry_isSome _
    | synthetic boundary item => exact hinv.pushCursorEntry_isSome _
    | compact boundary history =>
      simp [SpineReducer.transition, SpineReducer.applyCompact, hinv.path.root_eq]
  · intro span facts tokens
    match facts with
    | [] => exact expect_ne_crash (hinv.pushCursorEntry_isSome _)
    | [fact] =>
      simp only [samplingTransition]
      split
      · exact expect_ne_crash ((openUnder_isSome r _ _ _ _).trans hcursor)
      · rename_i memory hfact
        refine hinv.taskGuard_ne_crash "close" fun hkind ↦ ?_
        obtain ⟨r₁, p, hclose, hp⟩ := hinv.closeCursor_isSome hkind span memory
        have hupdate := updateNode_isSome r₁ p (.resuming span)
        rw [node_isSome.mpr hp] at hupdate
        obtain ⟨r₂, hr₂⟩ := Option.isSome_iff_exists.mp hupdate
        simp [SpineReducer.closeNode, hclose, hr₂]
      · rename_i memory summary hfact
        refine hinv.taskGuard_ne_crash "next" fun hkind ↦ ?_
        obtain ⟨r₁, p, hclose, hp⟩ := hinv.closeCursor_isSome hkind span memory
        have hopen := openUnder_isSome r₁ p span summary tokens
        rw [node_isSome.mpr hp] at hopen
        simpa [SpineReducer.nextNode, hclose] using hopen
      · exact expect_ne_crash ((spawn_isSome r _ _).trans hcursor)
    | first :: second :: rest =>
      simp only [samplingTransition]
      split_ifs
      · exact expect_ne_crash ((spawn_isSome r _ _).trans hcursor)
      · simp

/-! ## Well-formedness in terms of links -/

/-- `p` is the parent of `c` by the parent link of `c`. -/
def ParentLink (r : SpineReducer) (p c : NodeId) : Prop :=
  ∃ n ∈ r.nodes, n.id = c ∧ n.parent = some p

/-- `a` is reached from `c` by following parent links at least once. -/
def ProperAncestor (r : SpineReducer) (a c : NodeId) : Prop := TransGen (ParentLink r) a c

/-- The tree, its links and its statuses fit together. -/
structure WellFormed (r : SpineReducer) : Prop where
  ids_nodup : (r.nodes.map (·.id)).Nodup
  cursor_exists : ∃ n ∈ r.nodes, n.id = r.cursor
  live_iff : ∀ n ∈ r.nodes, n.status = .live ↔ n.id = r.cursor
  opened_iff : ∀ n ∈ r.nodes, n.status = .opened ↔ ProperAncestor r n.id r.cursor
  root_top : ∃ n ∈ r.nodes, n.id = r.currentRoot ∧ n.parent = none ∧
    (r.currentRoot = r.cursor ∨ ProperAncestor r r.currentRoot r.cursor)
  other : ∀ n ∈ r.nodes, n.id ≠ r.cursor → ¬ProperAncestor r n.id r.cursor →
    (n.status = .closed ∧ n.memory.isSome ∧ n.stop.isSome) ∨
      (n.status = .compacted ∧ n.stop.isSome ∧ n.id.epoch < r.currentRoot.epoch)
  child_parent : ∀ n ∈ r.nodes, ∀ c ∈ n.children, ∃ m ∈ r.nodes, m.id = c ∧ m.parent = some n.id
  parent_child : ∀ m ∈ r.nodes, ∀ p, m.parent = some p →
    ∃ n ∈ r.nodes, n.id = p ∧ n.children.count m.id = 1
  child_ordinal : ∀ n ∈ r.nodes, ∀ k (hk : k < n.children.length),
    n.children[k] = n.id.child (k + 1)

/-- By its links, a proper ancestor is a proper prefix. -/
theorem TreeInv.properAncestor_iff {r : SpineReducer} (hinv : TreeInv r) {a : NodeId} :
    ProperAncestor r a r.cursor ↔ a.parts ≠ [] ∧ a ≠ r.cursor ∧ a.parts <+: r.cursor.parts := by
  have hlink : ∀ p c, ParentLink r p c → p.parts ≠ [] ∧ ∃ k, c = p.child k := by
    rintro p c ⟨n, hn, rfl, hparent⟩
    have hnode := node_of_mem hinv.shape.ids_nodup hn
    exact NodeId.eq_child_of_parent? ((hinv.shape.parent_eq _ n hnode).2 ▸ hparent)
  constructor
  · intro h
    have hstrict : ∀ c, TransGen (ParentLink r) a c →
        a.parts ≠ [] ∧ a.parts.length < c.parts.length ∧ a.parts <+: c.parts := by
      intro c hc
      induction hc with
      | single hstep =>
        obtain ⟨hne, k, rfl⟩ := hlink _ _ hstep
        exact ⟨hne, by simp, by simp⟩
      | tail _ hstep ih =>
        obtain ⟨-, k, rfl⟩ := hlink _ _ hstep
        refine ⟨ih.1, ?_, ih.2.2.trans (by simp)⟩
        have := ih.2.1
        simp only [NodeId.parts_child, List.length_append, List.length_singleton]
        omega
    obtain ⟨hne, hlt, hpre⟩ := hstrict _ h
    exact ⟨hne, fun heq ↦ by simp [heq] at hlt, hpre⟩
  · rintro ⟨hne, hcursor, more, hmore⟩
    -- from the bottom up: every node on the way has the previous one as its parent
    have hup : ∀ more : List ℕ, more ≠ [] → (⟨a.parts ++ more⟩ : NodeId) ∈ r.ids →
        TransGen (ParentLink r) a ⟨a.parts ++ more⟩ := by
      intro more
      induction more using List.reverseRecOn with
      | nil => intro h; exact absurd rfl h
      | append_singleton more k ih =>
        intro _ hmem
        have hchild : (⟨a.parts ++ (more ++ [k])⟩ : NodeId) = NodeId.child ⟨a.parts ++ more⟩ k := by
          simp [NodeId.child]
        have hlink' : ParentLink r ⟨a.parts ++ more⟩ ⟨a.parts ++ (more ++ [k])⟩ := by
          obtain ⟨n, hn⟩ := exists_node hmem
          refine ⟨n, node_mem hn, node_id hn, ?_⟩
          rw [(hinv.shape.parent_eq _ n hn).2, hchild]
          exact NodeId.parent?_child (by simp [hne]) k
        rw [hchild] at hmem
        obtain ⟨m, hm, -⟩ := hinv.shape.parent_mem ⟨a.parts ++ more⟩ k (by simp [hne]) hmem
        cases more with
        | nil => exact .single (by simpa using hlink')
        | cons j more => exact (ih (by simp) (node_mem_ids hm)).tail hlink'
    have hcursor' : r.cursor = ⟨a.parts ++ more⟩ := NodeId.ext_parts hmore.symm
    rw [hcursor']
    refine hup more ?_ (hcursor' ▸ hinv.path.tip_mem)
    rintro rfl
    exact hcursor (NodeId.ext_parts (by simpa using hmore))

/-- The status of a node is decided by its place relative to the path. -/
theorem TreeInv.status_cases {r : SpineReducer} (hinv : TreeInv r) {n : RuntimeNode}
    (hn : n ∈ r.nodes) :
    (n.id = r.cursor ∧ n.status = .live) ∨
      (n.id ≠ r.cursor ∧ n.id.parts <+: r.cursor.parts ∧ n.status = .opened) ∨
      (¬n.id.parts <+: r.cursor.parts ∧ Done r.cursor.epoch n) := by
  have hnode := node_of_mem hinv.shape.ids_nodup hn
  by_cases hcursor : n.id = r.cursor
  · exact .inl ⟨hcursor, hinv.live n (hcursor ▸ hnode)⟩
  · by_cases hpre : n.id.parts <+: r.cursor.parts
    · exact .inr (.inl ⟨hcursor, hpre, hinv.path.opened _ n hnode hcursor hpre⟩)
    · exact .inr (.inr ⟨hpre, hinv.path.done _ n hnode hpre⟩)

theorem TreeInv.currentRoot_prefix {r : SpineReducer} (hinv : TreeInv r) :
    r.currentRoot.parts <+: r.cursor.parts := by
  obtain ⟨-, -, hne, -⟩ := hinv.cursor_node
  cases hparts : r.cursor.parts with
  | nil => exact absurd hparts hne
  | cons e rest => simp [hinv.path.root_eq, NodeId.epoch, hparts]

theorem TreeInv.wellFormed {r : SpineReducer} (hinv : TreeInv r) : WellFormed r := by
  have hnode : ∀ n ∈ r.nodes, r.node n.id = some n := fun n hn ↦
    node_of_mem hinv.shape.ids_nodup hn
  have hne : ∀ n ∈ r.nodes, n.id.parts ≠ [] := fun n hn ↦
    (hinv.shape.parent_eq _ n (hnode n hn)).1
  have hself : ∀ n ∈ r.nodes, n.id = r.cursor → n.id.parts <+: r.cursor.parts := fun n _ h ↦
    h ▸ List.prefix_refl _
  refine ⟨hinv.shape.ids_nodup, ?_, ?_, ?_, ?_, ?_, ?_, ?_, ?_⟩
  · obtain ⟨n, hn, -, -⟩ := hinv.cursor_node
    exact ⟨n, node_mem hn, node_id hn⟩
  · intro n hn
    rcases hinv.status_cases hn with ⟨hcursor, hlive⟩ | ⟨hcursor, -, hopened⟩ | ⟨hpre, hdone⟩
    · simp [hcursor, hlive]
    · simp [hcursor, hopened]
    · have hcursor : n.id ≠ r.cursor := fun h ↦ hpre (hself n hn h)
      rcases hdone with ⟨h, -⟩ | ⟨h, -⟩ <;> simp [hcursor, h]
  · intro n hn
    rw [hinv.properAncestor_iff]
    rcases hinv.status_cases hn with ⟨hcursor, hlive⟩ | ⟨hcursor, hpre, hopened⟩ | ⟨hpre, hdone⟩
    · simp [hcursor, hlive]
    · simp [hcursor, hpre, hopened, hne n hn]
    · rcases hdone with ⟨h, -⟩ | ⟨h, -⟩ <;> simp [hpre, h]
  · have hroot := hinv.path.root_eq
    have hpre := hinv.currentRoot_prefix
    have hmem : r.currentRoot ∈ r.ids := by
      refine hinv.shape.pathIds_subset hinv.path.tip_mem _ (mem_pathIds.mpr ⟨?_, hpre⟩)
      simp [hroot]
    obtain ⟨n, hn⟩ := exists_node hmem
    refine ⟨n, node_mem hn, node_id hn, ?_, ?_⟩
    · rw [(hinv.shape.parent_eq _ n hn).2, hroot]
      rfl
    · rw [hinv.properAncestor_iff]
      by_cases heq : r.currentRoot = r.cursor
      · exact .inl heq
      · exact .inr ⟨by simp [hroot], heq, hpre⟩
  · intro n hn hcursor hancestor
    rw [hinv.properAncestor_iff] at hancestor
    rcases hinv.status_cases hn with ⟨h, -⟩ | ⟨-, hpre, -⟩ | ⟨-, hdone⟩
    · exact absurd h hcursor
    · exact absurd ⟨hne n hn, hcursor, hpre⟩ hancestor
    · simpa [Done, hinv.path.root_eq] using hdone
  · intro n hn c hc
    obtain ⟨m, hm⟩ := exists_node (hinv.shape.child_mem _ n (hnode n hn) c hc)
    refine ⟨m, node_mem hm, node_id hm, ?_⟩
    rw [hinv.shape.children_eq _ n (hnode n hn)] at hc
    obtain ⟨k, -, rfl⟩ := mem_childIds.mp hc
    rw [(hinv.shape.parent_eq _ m hm).2, NodeId.parent?_child (hne n hn)]
  · intro m hm p hp
    have hparent := (hinv.shape.parent_eq _ m (hnode m hm)).2 ▸ hp
    obtain ⟨hpne, k, hk⟩ := NodeId.eq_child_of_parent? hparent
    have hmem : p.child k ∈ r.ids := hk ▸ node_mem_ids (hnode m hm)
    obtain ⟨n, hn, hchild⟩ := hinv.shape.parent_mem p k hpne hmem
    refine ⟨n, node_mem hn, node_id hn, ?_⟩
    rw [hk]
    refine List.count_eq_one_of_mem ?_ hchild
    rw [hinv.shape.children_eq p n hn]
    exact nodup_childIds p _
  · intro n hn k hk
    have hchildren := hinv.shape.children_eq _ n (hnode n hn)
    have hlen : k < (childIds n.id n.children.length).length := by simpa using hk
    have : n.children[k] = (childIds n.id n.children.length)[k] := by
      congr 1
    rw [this]
    simp [childIds]

/-- Every state of a run in which the 32-bit ordinals last is well formed, and no call on it
aborts. -/
theorem wellFormed_of_reachableBounded {r : SpineReducer} (h : ReachableBounded r) :
    WellFormed r ∧ NeverAborts r :=
  ⟨h.treeInv.wellFormed, h.treeInv.neverAborts⟩

instance (r : SpineReducer) : Decidable (Bounded r) := inferInstanceAs (Decidable (_ ∧ _))

/-- A run that opens a task meets the bound, and its state is well formed. -/
theorem wellFormed_after_open :
    ∃ r, r.cursor = ⟨[1, 1]⟩ ∧ ReachableBounded r ∧ WellFormed r ∧ NeverAborts r := by
  have hreach : ReachableBounded _ := .tail .refl
    ⟨.sampling ⟨3, 4⟩ [⟨⟨⟨"t", by decide⟩, "t-execution-0", by decide⟩, 0, .direct "call",
      .openNode "task"⟩] none (.inl (by decide)) rfl, by decide⟩
  exact ⟨_, rfl, hreach, wellFormed_of_reachableBounded hreach⟩

/-! ## Without the bound

Root epochs are numbered with a saturating addition, so that enough compactions give two roots
one id. -/

/-- After `n` compactions at boundary zero the roots are numbered up to saturation. -/
theorem exists_compacted (n : ℕ) : ∃ r, ReflTransGen Step new r ∧ r.baseline = [] ∧
    (∀ m ∈ r.nodes, m.entries = []) ∧
    r.currentRoot = .rootEpoch (min (n + 1) (u32Size - 1)) ∧
    r.ids = (List.range (n + 1)).map fun k ↦ .rootEpoch (min (k + 1) (u32Size - 1)) := by
  induction n with
  | zero => exact ⟨new, .refl, rfl, by simp [new, RuntimeNode.root], rfl, rfl⟩
  | succ n ih =>
    obtain ⟨r, hreach, hbase, hentries, hroot, hids⟩ := ih
    have hepoch : ({ r with lastBoundary := some 0 } : SpineReducer).currentRoot.parts.head? =
        some (min (n + 1) (u32Size - 1)) := by simp [hroot]
    obtain ⟨r', hr'⟩ : ∃ r', { r with lastBoundary := some 0 }.applyCompact 0 [] = some r' :=
      ⟨_, by rw [applyCompact, hepoch]; rfl⟩
    obtain ⟨epoch, hcompact⟩ := applyCompact_spec hr'
    obtain rfl : epoch = min (n + 1) (u32Size - 1) := by
      have := hcompact.epoch_eq
      rw [hepoch] at this
      exact (Option.some.inj this).symm
    have hnext : u32SaturatingAdd (min (n + 1) (u32Size - 1)) 1 = min (n + 2) (u32Size - 1) := by
      unfold u32SaturatingAdd
      omega
    have hentries' : ∀ m ∈ r'.nodes, m.entries = [] := by
      intro m hm
      rw [hcompact.nodes_eq, List.mem_append, List.mem_map] at hm
      rcases hm with ⟨m₀, hm₀, rfl⟩ | hm
      · rw [RuntimeNode.entries_compacting]
        exact hentries m₀ hm₀
      · obtain rfl := List.mem_singleton.mp hm
        rfl
    have hroot' : r'.currentRoot = .rootEpoch (min (n + 2) (u32Size - 1)) := by
      rw [hcompact.frame, hnext]
    have hids' : r'.ids = (List.range (n + 2)).map fun k ↦
        .rootEpoch (min (k + 1) (u32Size - 1)) := by
      rw [hcompact.ids_eq, hnext, List.range_succ, List.map_append]
      exact congrArg (· ++ _) hids
    -- the compacted state renders, so that the call returns
    obtain ⟨m, hm⟩ : ∃ m, r'.node r'.currentRoot = some m := by
      apply exists_node
      rw [hids', hroot']
      exact List.mem_map.mpr ⟨n + 1, by simp, rfl⟩
    have hrender : r'.renderCurrentEpoch = some (r'.baseline ++ []) := by
      simp [renderCurrentEpoch, hm, hentries' m (node_mem hm), renderEntries]
    obtain ⟨proj, hproj⟩ := Option.isSome_iff_exists.mp
      (show r'.projection.isSome by simp [projection, hrender])
    have happly : r.apply (.compact 0 []) = some (r', proj) := by
      simp [apply, RolloutEvent.boundary, transition, hr', hproj]
    exact ⟨r', hreach.tail (.event _ happly), by rw [hcompact.frame], hentries', hroot', hids'⟩

/-- The reducer reaches a tree with two nodes of one id. -/
theorem exists_reachable_duplicate_ids :
    ∃ r, ReflTransGen Step new r ∧ ¬(r.nodes.map (·.id)).Nodup := by
  obtain ⟨r, hreach, -, -, -, hids⟩ := exists_compacted (u32Size - 1)
  refine ⟨r, hreach, fun hnodup ↦ ?_⟩
  change r.ids.Nodup at hnodup
  rw [hids, List.nodup_map_iff_inj_on List.nodup_range] at hnodup
  have hpos : 2 ≤ u32Size := by decide
  have := hnodup (u32Size - 2) (by rw [List.mem_range]; omega) (u32Size - 1)
    (by rw [List.mem_range]; omega) (by congr 1)
  omega

end SpineCodex.SpineReducer
