import SpineCodex.Spine.Artifacts
import SpineCodex.Tree.Reachable

/-!
# The own memory of a closed task

The memory of a closed task starts with the memories of its children, copied upward, and ends
with its own summary.  A run is followed together with the text that each node was given when
it was closed or spawned, in node order; the artifacts and the status tree report this text.
Nothing here depends on the 32-bit ordinals: a child's id is longer than its parent's even
where two nodes have one id.
-/

namespace SpineCodex.SpineReducer

/-! ## Runs with the supplied texts -/

/-- The texts after the cursor node is closed with `memory`. -/
def supplyCursor (r : SpineReducer) (memory : String) (texts : List (Option String)) :
    List (Option String) :=
  match r.nodeIndex r.cursor with
  | some i => texts.modify i fun _ ↦ some memory
  | none => texts

/-- The texts that the facts of one sampling supply. -/
def supplySampling (r : SpineReducer) (facts : List ExecutedSpineFact)
    (texts : List (Option String)) : List (Option String) :=
  match facts.map ExecutedSpineFact.operation with
  | [.openNode _] => texts ++ [none]
  | [.closeNode memory] => r.supplyCursor memory texts
  | [.nextNode memory _] => r.supplyCursor memory texts ++ [none]
  | _ => texts ++ (spawnPairs (facts.filterMap (·.operation.spawnBatch?))).map
      fun pair ↦ some pair.2.memoryBody

/-- A compaction adds a root, which has no text. -/
def supplyEvent (event : RolloutEvent) (texts : List (Option String)) : List (Option String) :=
  match event with
  | .compact _ _ => texts ++ [none]
  | _ => texts

/-- The states of all runs, each with the text that every node was given last. -/
inductive Supplied : SpineReducer → List (Option String) → Prop
  | new : Supplied new [none]
  | event {r r' : SpineReducer} {texts : List (Option String)} (event : RolloutEvent)
      {projection : SpineProjection} (hrun : Supplied r texts)
      (h : r.apply event = some (r', projection)) : Supplied r' (supplyEvent event texts)
  | sampling {r r' : SpineReducer} {texts : List (Option String)} (span : RawSpan)
      (facts : List ExecutedSpineFact) (tokens : Option ℕ) {projection : SpineProjection}
      (hrun : Supplied r texts) (h : r.applySampling span facts tokens = .ok (r', projection)) :
      Supplied r' (r.supplySampling facts texts)

/-! ## What every node keeps -/

/-- A summary slot in here belongs to a node below `id`. -/
def Deeper (id : NodeId) (slots : List MemorySlot) : Prop :=
  ∀ owner source body, .summary owner source body ∈ slots → id.parts.length < owner.parts.length

/-- The memory ends with the node's own summary, whose body is the supplied text. -/
def OwnSummaryLast (id : NodeId) (memory : Option (List MemorySlot)) : Option String → Prop
  | none => memory = none
  | some text => ∃ front source,
      memory = some (front ++ [.summary id source text]) ∧ Deeper id front

/-- What holds of a node and the text that it was given. -/
structure Keeps (n : RuntimeNode) (text : Option String) : Prop where
  memory : OwnSummaryLast n.id n.memory text
  children : ∀ c ∈ n.children, n.id.parts.length < c.parts.length
  closed : n.status = .closed → n.parent.isSome ∧ text.isSome

theorem OwnSummaryLast.le_length {id : NodeId} {memory : Option (List MemorySlot)}
    {text : Option String} (h : OwnSummaryLast id memory text) {owner : NodeId} {source : RawSpan}
    {body : String} (hslot : .summary owner source body ∈ memory.getD []) :
    id.parts.length ≤ owner.parts.length := by
  cases text with
  | none =>
    rw [show memory = none from h] at hslot
    simp at hslot
  | some text =>
    obtain ⟨front, source', rfl, hdeeper⟩ := h
    rw [Option.getD_some, List.mem_append, List.mem_singleton] at hslot
    rcases hslot with hfront | hlast
    · exact (hdeeper owner source body hfront).le
    · cases hlast
      exact le_rfl

namespace Keeps

variable {n : RuntimeNode} {text : Option String}

theorem push_leaf (h : Keeps n text) (item : ContextItem) : Keeps (n.push (.leaf item)) text := by
  refine ⟨h.memory, ?_, h.closed⟩
  rw [RuntimeNode.children_push_leaf]
  exact h.children

theorem opening (h : Keeps n text) {c : NodeId} (hc : n.id.parts.length < c.parts.length) :
    Keeps (n.opening c) text := by
  refine ⟨h.memory, ?_, fun hclosed ↦ by cases hclosed⟩
  intro c' hc'
  change c' ∈ (n.push (.child c)).children at hc'
  rw [RuntimeNode.children_push_child, List.mem_append, List.mem_singleton] at hc'
  rcases hc' with hc' | rfl
  · exact h.children c' hc'
  · exact hc

theorem resuming (h : Keeps n text) (span : RawSpan) : Keeps (n.resuming span) text := by
  refine ⟨h.memory, ?_, fun hclosed ↦ by cases hclosed⟩
  intro c hc
  change c ∈ (n.push (.leaf (.sourceSpan span))).children at hc
  rw [RuntimeNode.children_push_leaf] at hc
  exact h.children c hc

theorem spawning (h : Keeps n text) (span : RawSpan) {children : List RuntimeNode}
    (hchildren : ∀ child ∈ children, n.id.parts.length < child.id.parts.length) :
    Keeps (n.spawning span children) text := by
  refine ⟨h.memory, ?_, h.closed⟩
  intro c hc
  rw [RuntimeNode.children_spawning, List.mem_append, List.mem_map] at hc
  obtain hc | ⟨child, hchild, rfl⟩ := hc
  · exact h.children c hc
  · exact hchildren child hchild

theorem compacting (h : Keeps n text) (epoch : ℕ) (boundary : RawBoundary) :
    Keeps (n.compacting epoch boundary) text := by
  unfold RuntimeNode.compacting
  by_cases hc : n.id.parts.head? = some epoch ∧ n.status ≠ .closed
  · rw [if_pos hc]
    exact ⟨h.memory, h.children, fun hclosed ↦ by cases hclosed⟩
  · rw [if_neg hc]
    exact h

/-- Closing a task with its assembled memory. -/
theorem closing (h : Keeps n text) {front : List MemorySlot} (hdeeper : Deeper n.id front)
    (hparent : n.parent.isSome) (source : RawSpan) (body : String) (stop : RawBoundary) :
    Keeps (n.closing (front ++ [.summary n.id source body]) stop) (some body) :=
  ⟨⟨front, source, rfl, hdeeper⟩, h.children, fun _ ↦ ⟨hparent, rfl⟩⟩

theorem task (id p : NodeId) (span : RawSpan) (summary : String) (tokens : Option ℕ) :
    Keeps (.task id p span summary tokens) none := by
  refine ⟨rfl, ?_, fun hclosed ↦ by cases hclosed⟩
  simp

theorem root (epoch : ℕ) (start : RawBoundary) : Keeps (.root epoch start) none := by
  refine ⟨rfl, ?_, fun hclosed ↦ by cases hclosed⟩
  simp

/-- A spawned task is closed from the start, with the result as its text. -/
theorem spawned (id p : NodeId) (span : RawSpan) (task : SpawnTask) (result : SpawnResult) :
    Keeps (.spawned id p span task result) (some result.memoryBody) := by
  refine ⟨⟨[.spawnEvidence id span task result.outcome result.diagnostic result.executionRef],
    span, rfl, ?_⟩, ?_, fun _ ↦ ⟨rfl, rfl⟩⟩
  · intro owner source body hslot
    simp at hslot
  · simp

end Keeps

/-! ## What every call keeps -/

/-- Every node keeps its text. -/
def AllKeep (r : SpineReducer) (texts : List (Option String)) : Prop :=
  List.Forall₂ Keeps r.nodes texts

namespace AllKeep

variable {r r' : SpineReducer} {texts : List (Option String)}

theorem exists_text (h : AllKeep r texts) {n : RuntimeNode} (hn : n ∈ r.nodes) :
    ∃ text, Keeps n text := by
  obtain ⟨i, hi, rfl⟩ := List.getElem_of_mem hn
  have hi' : i < texts.length := by
    rw [← h.length_eq]
    exact hi
  exact ⟨texts[i], h.get hi hi'⟩

/-- The slots copied from below belong to nodes below. -/
theorem deeper_entryMemory (h : AllKeep r texts) {id owner : NodeId} {entries : List NodeEntry}
    {slots : List MemorySlot} (hslots : r.entryMemory owner entries = some slots)
    (hchildren : ∀ c ∈ entries.filterMap NodeEntry.child?, id.parts.length < c.parts.length) :
    Deeper id slots := by
  induction entries generalizing slots with
  | nil =>
    cases hslots
    intro _ _ _ hslot
    cases hslot
  | cons entry rest ih =>
    cases entry with
    | leaf item =>
      obtain ⟨tail, htail, hslots⟩ := Option.bind_eq_some_iff.1 hslots
      cases hslots
      intro node source body hslot
      rw [List.mem_append, Option.mem_toList] at hslot
      rcases hslot with hitem | hrest
      · -- a leaf only contributes a user slot
        cases item with
        | message m anchor => 
          cases anchor with
          | none => simp [userSlot] at hitem
          | some anchor => 
            simp only [userSlot] at hitem
            split_ifs at hitem
            simp at hitem
        | _ => simp [userSlot] at hitem
      · exact ih htail hchildren node source body hrest
    | child c =>
      obtain ⟨child, hchild, hslots⟩ := Option.bind_eq_some_iff.1 hslots
      obtain ⟨tail, htail, hslots⟩ := Option.bind_eq_some_iff.1 hslots
      cases hslots
      intro node source body hslot
      rw [List.mem_append] at hslot
      rcases hslot with hcopied | hrest
      · obtain ⟨text, hkeeps⟩ := h.exists_text (node_mem hchild)
        have hle := hkeeps.memory.le_length hcopied
        have hlt : id.parts.length < c.parts.length := hchildren c (by simp [NodeEntry.child?])
        rw [node_id hchild] at hle
        exact hlt.trans_le hle
      · exact ih htail (fun c' hc' ↦ hchildren c' (by simp [NodeEntry.child?, hc'])) node source body hrest

/-- A change of one node that keeps every text. -/
theorem update (h : AllKeep r texts) {id : NodeId} {f : RuntimeNode → RuntimeNode}
    (hf : ∀ n text, r.node id = some n → Keeps n text → Keeps (f n) text)
    (hr : r.updateNode id f = some r') : AllKeep r' texts := by
  obtain ⟨i, hi, hr⟩ := Option.bind_eq_some_iff.1 hr
  cases hr
  have hnode : r.node id = r.nodes[i]? := by
    simp [node, hi]
  have hsame : texts = texts.modify i fun text ↦ text := (List.modify_id i texts).symm
  unfold AllKeep
  rw [hsame]
  exact KeyedList.forall₂_modify h fun n text hn hkeeps ↦ hf n text (hnode ▸ hn) hkeeps

/-- The nodes of the reducer, with more nodes at the end. -/
theorem append (h : AllKeep r texts) {more : List RuntimeNode} {moreTexts : List (Option String)}
    (hmore : List.Forall₂ Keeps more moreTexts) (hnodes : r'.nodes = r.nodes ++ more) :
    AllKeep r' (texts ++ moreTexts) := by
  unfold AllKeep
  rw [hnodes]
  exact List.rel_append h hmore

theorem congr (h : AllKeep r texts) (hnodes : r'.nodes = r.nodes) : AllKeep r' texts := by
  unfold AllKeep
  rw [hnodes]
  exact h

theorem pushLeaf (h : AllKeep r texts) {item : ContextItem}
    (hr : r.pushCursorEntry (.leaf item) = some r') : AllKeep r' texts :=
  h.update (fun _ _ _ hkeeps ↦ hkeeps.push_leaf item) hr

theorem openUnder (h : AllKeep r texts) {p : NodeId} {span : RawSpan} {summary : String}
    {tokens : Option ℕ} (hr : r.openUnder p span summary tokens = some r') :
    AllKeep r' (texts ++ [none]) := by
  obtain ⟨parent, hparent, hr⟩ := Option.bind_eq_some_iff.1 hr
  obtain ⟨r₁, hr₁, hr⟩ := Option.bind_eq_some_iff.1 hr
  cases hr
  have hkeep : AllKeep r₁ texts := by
    apply h.update ?_ hr₁
    intro n text hn hkeeps
    apply hkeeps.opening
    rw [node_id hn]
    simp [nextChild]
  exact hkeep.append (.cons (Keeps.task _ _ _ _ _) .nil) rfl

theorem closeCursor (h : AllKeep r texts) {span : RawSpan} {memory : String} {p : NodeId}
    (hr : r.closeCursor span memory = some (r', p)) :
    AllKeep r' (r.supplyCursor memory texts) := by
  obtain ⟨n, hn, hr⟩ := Option.bind_eq_some_iff.1 hr
  obtain ⟨parent, hparent, hr⟩ := Option.bind_eq_some_iff.1 hr
  obtain ⟨slots, hslots, hr⟩ := Option.bind_eq_some_iff.1 hr
  obtain ⟨r₁, hr₁, hr⟩ := Option.bind_eq_some_iff.1 hr
  cases hr
  obtain ⟨front, hfront, hslots⟩ := Option.bind_eq_some_iff.1 hslots
  cases hslots
  obtain ⟨i, hi, hr₁⟩ := Option.bind_eq_some_iff.1 hr₁
  cases hr₁
  have hnode : r.node r.cursor = r.nodes[i]? := by
    simp [node, hi]
  unfold AllKeep supplyCursor
  rw [hi]
  apply KeyedList.forall₂_modify h
  intro n' text hn' hkeeps
  obtain rfl : n = n' := by
    rw [hnode, hn'] at hn
    exact (Option.some.inj hn).symm
  have hdeeper : Deeper n.id front := h.deeper_entryMemory hfront hkeeps.children
  exact hkeeps.closing hdeeper (by rw [hparent]; rfl) span memory span.start

theorem spawn (h : AllKeep r texts) {span : RawSpan}
    {batches : List (List SpawnTask × List SpawnResult)} (hr : r.spawn span batches = some r') :
    AllKeep r' (texts ++ (spawnPairs batches).map fun pair ↦ some pair.2.memoryBody) := by
  obtain ⟨parent, hparent, hr⟩ := Option.bind_eq_some_iff.1 hr
  obtain ⟨r₁, hr₁, hr⟩ := Option.bind_eq_some_iff.1 hr
  cases hr
  have hkeep : AllKeep r₁ texts := by
    apply h.update ?_ hr₁
    intro n text hn hkeeps
    apply hkeeps.spawning
    intro child hchild
    obtain ⟨i, hi, rfl⟩ := List.getElem_of_mem hchild
    rw [node_id hn]
    simp [spawnChildren, RuntimeNode.spawned]
  apply hkeep.append _ rfl
  rw [List.forall₂_iff_get]
  refine ⟨by simp [spawnChildren], ?_⟩
  intro i hi hi'
  simp only [spawnChildren, List.get_eq_getElem, List.getElem_mapIdx, List.getElem_map]
  exact Keeps.spawned _ _ _ _ _

theorem applyCompact (h : AllKeep r texts) {boundary : RawBoundary} {history : List ContextItem}
    (hr : r.applyCompact boundary history = some r') : AllKeep r' (texts ++ [none]) := by
  obtain ⟨epoch, hcompact⟩ := applyCompact_spec hr
  unfold AllKeep
  rw [hcompact.nodes_eq]
  apply List.rel_append
  · rw [List.forall₂_map_left_iff]
    exact h.imp fun n text hkeeps ↦ hkeeps.compacting epoch boundary
  · exact .cons (Keeps.root _ _) .nil

theorem transition (h : AllKeep r texts) {event : RolloutEvent}
    (hr : r.transition event = some r') : AllKeep r' (supplyEvent event texts) := by
  cases event with
  | message m =>
    obtain ⟨anchor, next, heq⟩ := applyMessage_eq r m
    rw [SpineReducer.transition, heq] at hr
    have hkeep : AllKeep { r with nextUserAnchor := next } texts := h.congr rfl
    exact hkeep.pushLeaf hr
  | sourceSpan span bytes => exact h.pushLeaf hr
  | opaqueItem boundary => exact h.pushLeaf hr
  | synthetic boundary item => exact h.pushLeaf hr
  | compact boundary history => exact h.applyCompact hr

theorem sampling (h : AllKeep r texts) {span : RawSpan} {tokens : Option ℕ}
    {facts : List ExecutedSpineFact} (hcase : SamplingCase r span tokens facts r') :
    AllKeep r' (r.supplySampling facts texts) := by
  cases hcase with
  | plain hr =>
    have hkeep := h.pushLeaf hr
    simpa [supplySampling, spawnPairs] using hkeep
  | openNode hfact hr =>
    simp only [supplySampling, List.map_cons, List.map_nil, hfact]
    exact h.openUnder hr
  | closeNode hfact _ hr =>
    simp only [supplySampling, List.map_cons, List.map_nil, hfact]
    obtain ⟨⟨r₁, p⟩, hclose, hr⟩ := Option.bind_eq_some_iff.1 hr
    obtain ⟨r₂, hr₂, hr⟩ := Option.bind_eq_some_iff.1 hr
    cases hr
    have hkeep := (h.closeCursor hclose).update (fun _ _ _ hkeeps ↦ hkeeps.resuming span) hr₂
    exact hkeep.congr rfl
  | nextNode hfact _ hr =>
    simp only [supplySampling, List.map_cons, List.map_nil, hfact]
    obtain ⟨⟨r₁, p⟩, hclose, hr⟩ := Option.bind_eq_some_iff.1 hr
    exact (h.closeCursor hclose).openUnder hr
  | spawn hne hfacts hr =>
    have hspawn : ∀ operation : SpineOperationFact, operation.spawnBatch? = none →
        facts.map ExecutedSpineFact.operation ≠ [operation] := by
      intro operation hnone heq
      obtain ⟨fact, rfl, rfl⟩ := List.map_eq_singleton_iff.1 heq
      have hsome := hfacts fact List.mem_cons_self
      rw [hnone] at hsome
      cases hsome
    have hsupply : r.supplySampling facts texts = texts ++
        (spawnPairs (facts.filterMap (·.operation.spawnBatch?))).map
          fun pair ↦ some pair.2.memoryBody := by
      unfold supplySampling
      split
      · next summary heq => exact absurd heq (hspawn _ rfl)
      · next memory heq => exact absurd heq (hspawn _ rfl)
      · next memory summary heq => exact absurd heq (hspawn _ rfl)
      · rfl
    rw [hsupply]
    exact h.spawn hr

end AllKeep

namespace Supplied

variable {r : SpineReducer} {texts : List (Option String)}

theorem allKeep (h : Supplied r texts) : AllKeep r texts := by
  induction h with
  | new => exact .cons (Keeps.root 1 0) .nil
  | @event r _ texts event _ _ h ih =>
    have hkeep : AllKeep { r with lastBoundary := some event.boundary } texts := ih.congr rfl
    exact hkeep.transition (apply_eq_some h).1
  | @sampling r _ texts span facts tokens _ _ h ih =>
    have hkeep : AllKeep { r with lastBoundary := some span.stop } texts := ih.congr rfl
    exact hkeep.sampling (applySampling_eq_ok h).1

theorem projection_isSome (h : Supplied r texts) : ∃ projection, r.projection = some projection := by
  cases h with
  | new => exact ⟨_, rfl⟩
  | event event _ h => exact ⟨_, (apply_eq_some h).2⟩
  | sampling span facts tokens _ h => exact ⟨_, (applySampling_eq_ok h).2⟩

end Supplied

/-! ## What the host reports -/

theorem bodyOf?_eq_none {id : NodeId} {front : List MemorySlot} (h : Deeper id front) :
    front.findSome? (MemorySlot.bodyOf? id) = none := by
  rw [List.findSome?_eq_none_iff]
  intro slot hslot
  cases slot with
  | summary owner source body =>
    have hlt := h owner source body hslot
    have hne : owner ≠ id := by
      rintro rfl
      exact lt_irrefl _ hlt
    simp [MemorySlot.bodyOf?, hne]
  | _ => rfl

namespace Keeps

variable {n : RuntimeNode} {text : String}

/-- The first summary of its own is the last slot. -/
theorem artifact (h : Keeps n (some text)) :
    n.snapshot.artifact? = some ⟨n.id, n.summary.getD "node", text⟩ := by
  obtain ⟨front, source, hmemory, hdeeper⟩ := h.memory
  have hfront := bodyOf?_eq_none hdeeper
  simp [NodeSnapshot.artifact?, RuntimeNode.snapshot, hmemory, List.findSome?_append, hfront,
    MemorySlot.bodyOf?]

/-- The last summary of all is the last slot. -/
theorem memorySummary (h : Keeps n (some text)) :
    n.memory.bind (fun slots ↦ slots.reverse.findSome? MemorySlot.body?) = some text := by
  obtain ⟨front, source, hmemory, -⟩ := h.memory
  simp [hmemory, List.findSome?_cons, MemorySlot.body?]

end Keeps

/-- The closed tasks of a list of nodes, with their texts. -/
def closedTexts (nodes : List NodeSnapshot) (texts : List (Option String)) : List MemoryArtifact :=
  ((nodes.zip texts).filter fun pair ↦ pair.1.IsClosedTask).map fun pair ↦
    ⟨pair.1.id, pair.1.summary.getD "node", pair.2.getD ""⟩

theorem artifacts_eq {nodes : List RuntimeNode} {texts : List (Option String)}
    (h : List.Forall₂ Keeps nodes texts) :
    ((nodes.map RuntimeNode.snapshot).filter fun node ↦ node.IsClosedTask).filterMap
        NodeSnapshot.artifact? =
      closedTexts (nodes.map RuntimeNode.snapshot) texts := by
  induction h with
  | nil => rfl
  | @cons n text nodes texts hkeeps _ ih =>
    unfold closedTexts at ih ⊢
    by_cases hclosed : n.snapshot.IsClosedTask
    · obtain ⟨body, rfl⟩ := Option.isSome_iff_exists.1 (hkeeps.closed hclosed.2).2
      simp only [List.map_cons, List.zip_cons_cons, List.filter_cons, hclosed, decide_true, if_true,
        List.filterMap_cons, hkeeps.artifact, ih]
      rfl
    · simpa only [List.map_cons, List.zip_cons_cons, List.filter_cons, hclosed, decide_false,
        Bool.false_eq_true, if_false] using ih

/-- The host reports every closed task, in node order, with the text supplied for it. -/
structure ReportsOwnMemory (projection : SpineProjection) (samples : List TokenUsageSample)
    (texts : List (Option String)) : Prop where
  length_eq : projection.nodes.length = texts.length
  supplied : ∀ pair ∈ projection.nodes.zip texts, pair.1.IsClosedTask → pair.2.isSome
  artifacts : closedMemoryArtifacts projection = closedTexts projection.nodes texts
  summaries : ∀ pair ∈ (treeSnapshot projection samples).nodes.zip texts,
    pair.1.kind = .task → pair.1.status = .closed → pair.1.memorySummary = pair.2

/-- In every state of a run the artifacts are those of the closed tasks, in node order, each
with the text supplied for that node, which the status tree shows too. -/
theorem reportsOwnMemory_of_supplied {r : SpineReducer} {texts : List (Option String)}
    (h : Supplied r texts) (samples : List TokenUsageSample) :
    ∃ projection, r.projection = some projection ∧ ReportsOwnMemory projection samples texts := by
  obtain ⟨projection, hprojection⟩ := h.projection_isSome
  have hkeep := h.allKeep
  have hnodes : projection.nodes = r.nodes.map RuntimeNode.snapshot := by
    obtain ⟨items, -, heq⟩ := Option.bind_eq_some_iff.1 hprojection
    cases heq
    rfl
  refine ⟨projection, hprojection, ?_, ?_, ?_, ?_⟩
  · rw [hnodes, List.length_map]
    exact hkeep.length_eq
  · rw [hnodes]
    intro pair hpair hclosed
    rw [List.zip_map_left, List.mem_map] at hpair
    obtain ⟨⟨n, text⟩, hmem, rfl⟩ := hpair
    have hkeeps := List.forall₂_zip hkeep hmem
    exact (hkeeps.closed hclosed.2).2
  · unfold closedMemoryArtifacts
    rw [hnodes]
    exact artifacts_eq hkeep
  · intro pair hpair hkind hstatus
    simp only [treeSnapshot, hnodes, List.map_map] at hpair
    rw [List.zip_map_left, List.mem_map] at hpair
    obtain ⟨⟨n, text⟩, hmem, rfl⟩ := hpair
    have hkeeps := List.forall₂_zip hkeep hmem
    obtain ⟨body, rfl⟩ := Option.isSome_iff_exists.1 (hkeeps.closed hstatus).2
    exact hkeeps.memorySummary

/-- A task closed inside another one: both report their own text. -/
theorem own_memory_of_nested_tasks : ∃ r projection, Supplied r [none, some "outer", some "inner"] ∧
    r.projection = some projection ∧
    ReportsOwnMemory projection [] [none, some "outer", some "inner"] ∧
    closedMemoryArtifacts projection =
      [⟨⟨[1, 1]⟩, "a task", "outer"⟩, ⟨⟨[1, 1, 1]⟩, "a part of it", "inner"⟩] := by
  let fact (operation : SpineOperationFact) : ExecutedSpineFact :=
    ⟨⟨⟨"t", by decide⟩, "t-execution-0", by decide⟩, 0, .direct "call", operation⟩
  have hrun : Supplied _ _ := .sampling ⟨5, 6⟩ [fact (.closeNode "outer")] none
    (.sampling ⟨4, 5⟩ [fact (.closeNode "inner")] none
      (.sampling ⟨3, 4⟩ [fact (.openNode "a part of it")] none
        (.sampling ⟨2, 3⟩ [fact (.openNode "a task")] none .new rfl) rfl) rfl) rfl
  obtain ⟨projection, hprojection, hreports⟩ := reportsOwnMemory_of_supplied hrun []
  refine ⟨_, projection, hrun, hprojection, hreports, ?_⟩
  cases hprojection
  rfl

end SpineCodex.SpineReducer
