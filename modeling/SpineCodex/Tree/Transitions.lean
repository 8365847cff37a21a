import SpineCodex.Tree.Invariant

/-!
# What each tree transition does

One specification for each transition of the reducer: when it returns, and the
state it returns in terms of lookups.  The invariant and the visible context are
both derived from these.
-/

namespace SpineCodex.SpineReducer

/-! ## Appending an entry at the cursor -/

theorem pushCursorEntry_spec {r r' : SpineReducer} {entry : NodeEntry}
    (h : r.pushCursorEntry entry = some r') : Updated r r.cursor (·.push entry) r' :=
  updateNode_spec h (fun _ ↦ rfl) (fun _ ↦ rfl)

theorem pushCursorEntry_isSome (r : SpineReducer) (entry : NodeEntry) :
    (r.pushCursorEntry entry).isSome = (r.node r.cursor).isSome :=
  updateNode_isSome r r.cursor _

/-! ## Opening a task -/

/-- Updating the node of `p` and then appending nodes extends the tree at `p`. -/
theorem Updated.append {r r₁ r' : SpineReducer} {p : NodeId} {f : RuntimeNode → RuntimeNode}
    {m : RuntimeNode} {added : List RuntimeNode} (hupdate : Updated r p f r₁)
    (hm : r.node p = some m) (hnodes : r'.nodes = r₁.nodes ++ added) :
    r'.parents = r.parents ++ added.map (·.parent) ∧
      r'.nodes.length = r.nodes.length + added.length ∧ Extended r p (f m) added r' := by
  refine ⟨?_, ?_, ?_, ?_⟩
  · rw [← hupdate.parents_eq, parents, hnodes, List.map_append]
    rfl
  · rw [hnodes, List.length_append, hupdate.length_eq]
  · rw [← hupdate.ids_eq, ids, hnodes, List.map_append]
    rfl
  · intro id
    rw [node_append r₁ r' added hnodes]
    by_cases hid : id = p
    · rw [hid, hupdate.node_self hm, if_pos rfl, Option.some_or]
    · rw [hupdate.node_other hid, if_neg hid]

/-- `r'` is `r` after a task was opened under `p`, whose node was `m`. -/
structure OpenedUnder (r : SpineReducer) (p : NodeId) (span : RawSpan) (summary : String)
    (tokens : Option ℕ) (m : RuntimeNode) (r' : SpineReducer) : Prop where
  node : r.node p = some m
  frame : r' = { r with nodes := r'.nodes, cursor := nextChild p m }
  parents_eq : r'.parents = r.parents ++ [some p]
  length_eq : r'.nodes.length = r.nodes.length + 1
  ext : Extended r p (m.opening (nextChild p m))
    [.task (nextChild p m) p span summary tokens] r'

theorem openUnder_spec {r r' : SpineReducer} {p : NodeId} {span : RawSpan} {summary : String}
    {tokens : Option ℕ} (h : r.openUnder p span summary tokens = some r') :
    ∃ m, OpenedUnder r p span summary tokens m r' := by
  unfold openUnder at h
  cases hm : r.node p with
  | none => simp [hm] at h
  | some m =>
    simp only [hm, Option.bind_eq_bind, Option.bind_some] at h
    obtain ⟨r₁, hr₁, hr'⟩ := Option.bind_eq_some_iff.mp h
    have hupdate := updateNode_spec hr₁ (fun _ ↦ rfl) (fun _ ↦ rfl)
    have hnodes : r'.nodes = r₁.nodes ++ [.task (nextChild p m) p span summary tokens] := by
      rw [← Option.some.inj hr']
    obtain ⟨hparents, hlength, hext⟩ := hupdate.append hm hnodes
    refine ⟨m, hm, ?_, hparents, hlength, hext⟩
    rw [← Option.some.inj hr', hupdate.frame]

theorem openUnder_isSome (r : SpineReducer) (p : NodeId) (span : RawSpan) (summary : String)
    (tokens : Option ℕ) : (r.openUnder p span summary tokens).isSome = (r.node p).isSome := by
  unfold openUnder
  cases hm : r.node p with
  | none => rfl
  | some m =>
    have hupdate := updateNode_isSome r p (.opening (nextChild p m))
    rw [hm] at hupdate
    obtain ⟨r₁, hr₁⟩ := Option.isSome_iff_exists.mp hupdate
    simp [hr₁]

/-! ## Closing the cursor -/

/-- `r'` is `r` after the cursor node `n`, a child of `p`, was closed with `memory`. -/
structure ClosedCursor (r : SpineReducer) (span : RawSpan) (modelMemory : String) (n : RuntimeNode)
    (p : NodeId) (memory : List MemorySlot) (r' : SpineReducer) : Prop where
  node : r.node r.cursor = some n
  parent : n.parent = some p
  memory_eq : r.assembleMemory n modelMemory span = some memory
  update : Updated r r.cursor (.closing memory span.start) r'

theorem closeCursor_spec {r r' : SpineReducer} {span : RawSpan} {modelMemory : String} {p : NodeId}
    (h : r.closeCursor span modelMemory = some (r', p)) :
    ∃ n memory, ClosedCursor r span modelMemory n p memory r' := by
  unfold closeCursor at h
  obtain ⟨n, hn, h⟩ := Option.bind_eq_some_iff.mp h
  obtain ⟨q, hq, h⟩ := Option.bind_eq_some_iff.mp h
  obtain ⟨memory, hmemory, h⟩ := Option.bind_eq_some_iff.mp h
  obtain ⟨r₁, hr₁, h⟩ := Option.bind_eq_some_iff.mp h
  obtain ⟨rfl, rfl⟩ := Prod.mk.inj (Option.some.inj h)
  exact ⟨n, memory, hn, hq, hmemory, updateNode_spec hr₁ (fun _ ↦ rfl) (fun _ ↦ rfl)⟩

theorem closeCursor_isSome {r : SpineReducer} {n : RuntimeNode} {p : NodeId}
    {memory : List MemorySlot} {span : RawSpan} {modelMemory : String}
    (hn : r.node r.cursor = some n) (hp : n.parent = some p)
    (hmemory : r.assembleMemory n modelMemory span = some memory) :
    ∃ r', r.closeCursor span modelMemory = some (r', p) := by
  have hupdate := updateNode_isSome r r.cursor (.closing memory span.start)
  rw [hn] at hupdate
  obtain ⟨r', hr'⟩ := Option.isSome_iff_exists.mp hupdate
  exact ⟨r', by simp [closeCursor, hn, hp, hmemory, hr']⟩

theorem closeNode_spec {r r' : SpineReducer} {span : RawSpan} {modelMemory : String}
    (h : r.closeNode span modelMemory = some r') :
    ∃ n p memory r₁, ClosedCursor r span modelMemory n p memory r₁ ∧
      r' = { r₁ with nodes := r'.nodes, cursor := p } ∧
      Updated r₁ p (.resuming span) { r' with cursor := r₁.cursor } := by
  unfold closeNode at h
  obtain ⟨⟨r₁, p⟩, hclose, h⟩ := Option.bind_eq_some_iff.mp h
  obtain ⟨r₂, hr₂, h⟩ := Option.bind_eq_some_iff.mp h
  obtain rfl := Option.some.inj h
  obtain ⟨n, memory, hclosed⟩ := closeCursor_spec hclose
  have hupdate := updateNode_spec hr₂ (fun _ ↦ rfl) (fun _ ↦ rfl)
  have hframe := hupdate.frame
  refine ⟨n, p, memory, r₁, hclosed, ?_, ?_⟩
  · rw [hframe]
  · have hcursor : r₂.cursor = r₁.cursor := by rw [hframe]
    have hsame : ({ r₂ with cursor := r₁.cursor } : SpineReducer) = r₂ := by rw [← hcursor]
    change Updated r₁ p (.resuming span) { r₂ with cursor := r₁.cursor }
    rw [hsame]
    exact hupdate

theorem nextNode_spec {r r' : SpineReducer} {span : RawSpan} {summary modelMemory : String}
    {tokens : Option ℕ} (h : r.nextNode span summary modelMemory tokens = some r') :
    ∃ n p memory r₁ m, ClosedCursor r span modelMemory n p memory r₁ ∧
      OpenedUnder r₁ p span summary tokens m r' := by
  unfold nextNode at h
  obtain ⟨⟨r₁, p⟩, hclose, h⟩ := Option.bind_eq_some_iff.mp h
  obtain ⟨n, memory, hclosed⟩ := closeCursor_spec hclose
  obtain ⟨m, hopened⟩ := openUnder_spec h
  exact ⟨n, p, memory, r₁, m, hclosed, hopened⟩

/-! ## Spawning -/

/-- `r'` is `r` after a spawn of `children` at the cursor, whose node was `m`. -/
structure Spawned (r : SpineReducer) (span : RawSpan) (m : RuntimeNode)
    (children : List RuntimeNode) (r' : SpineReducer) : Prop where
  node : r.node r.cursor = some m
  frame : r' = { r with nodes := r'.nodes }
  parents_eq : r'.parents = r.parents ++ children.map (·.parent)
  length_eq : r'.nodes.length = r.nodes.length + children.length
  ext : Extended r r.cursor (m.spawning span children) children r'

theorem spawn_spec {r r' : SpineReducer} {span : RawSpan}
    {batches : List (List SpawnTask × List SpawnResult)} (h : r.spawn span batches = some r') :
    ∃ m, Spawned r span m (spawnChildren r.cursor (u32Succ m.children.length) span
      (spawnPairs batches)) r' := by
  unfold spawn at h
  obtain ⟨m, hm, h⟩ := Option.bind_eq_some_iff.mp h
  obtain ⟨r₁, hr₁, h⟩ := Option.bind_eq_some_iff.mp h
  have hupdate := updateNode_spec hr₁ (fun _ ↦ rfl) (fun _ ↦ rfl)
  have hnodes : r'.nodes = r₁.nodes ++ spawnChildren r.cursor (u32Succ m.children.length) span
      (spawnPairs batches) := by
    rw [← Option.some.inj h]
  obtain ⟨hparents, hlength, hext⟩ := hupdate.append hm hnodes
  refine ⟨m, hm, ?_, hparents, hlength, hext⟩
  rw [← Option.some.inj h, hupdate.frame]

theorem spawn_isSome (r : SpineReducer) (span : RawSpan)
    (batches : List (List SpawnTask × List SpawnResult)) :
    (r.spawn span batches).isSome = (r.node r.cursor).isSome := by
  unfold spawn
  cases hm : r.node r.cursor with
  | none => rfl
  | some m =>
    have hupdate := updateNode_isSome r r.cursor (.spawning span
      (spawnChildren r.cursor (u32Succ m.children.length) span (spawnPairs batches)))
    rw [hm] at hupdate
    obtain ⟨r₁, hr₁⟩ := Option.isSome_iff_exists.mp hupdate
    simp [hr₁]

/-! ## Compacting -/

/-- `r'` is `r` after the epoch of the current root was compacted. -/
structure CompactedTo (r : SpineReducer) (boundary : RawBoundary) (history : List ContextItem)
    (epoch : ℕ) (r' : SpineReducer) : Prop where
  epoch_eq : r.currentRoot.parts.head? = some epoch
  frame : r' = { r with
    nodes := r'.nodes
    baseline := history
    currentRoot := .rootEpoch (u32SaturatingAdd epoch 1)
    cursor := .rootEpoch (u32SaturatingAdd epoch 1) }
  nodes_eq : r'.nodes = r.nodes.map (.compacting epoch boundary) ++
    [.root (u32SaturatingAdd epoch 1) boundary]
  ids_eq : r'.ids = r.ids ++ [.rootEpoch (u32SaturatingAdd epoch 1)]
  parents_eq : r'.parents = r.parents ++ [none]
  node_eq : ∀ id, r'.node id = ((r.node id).map (.compacting epoch boundary)).or
    (if id = .rootEpoch (u32SaturatingAdd epoch 1) then
      some (.root (u32SaturatingAdd epoch 1) boundary) else none)

theorem applyCompact_spec {r r' : SpineReducer} {boundary : RawBoundary}
    {history : List ContextItem} (h : r.applyCompact boundary history = some r') :
    ∃ epoch, CompactedTo r boundary history epoch r' := by
  unfold applyCompact at h
  obtain ⟨epoch, hepoch, h⟩ := Option.bind_eq_some_iff.mp h
  obtain rfl := Option.some.inj h
  refine ⟨epoch, hepoch, rfl, rfl, ?_, ?_, ?_⟩
  · change (r.nodes.map (RuntimeNode.compacting epoch boundary) ++ _).map _ = _
    rw [List.map_append, List.map_map]
    exact congrArg (· ++ _) (List.map_congr_left fun n _ ↦ RuntimeNode.id_compacting epoch boundary n)
  · change (r.nodes.map (RuntimeNode.compacting epoch boundary) ++ _).map _ = _
    rw [List.map_append, List.map_map]
    exact congrArg (· ++ _) (List.map_congr_left fun n _ ↦ RuntimeNode.parent_compacting epoch boundary n)
  · intro id
    rw [node_eq_lookup, node_eq_lookup]
    change KeyedList.lookup RuntimeNode.id
      (r.nodes.map (RuntimeNode.compacting epoch boundary) ++ _) id = _
    rw [KeyedList.lookup_append, KeyedList.lookup_map (RuntimeNode.id_compacting epoch boundary)]
    congr 1
    by_cases hid : id = .rootEpoch (u32SaturatingAdd epoch 1)
    · simp [KeyedList.lookup, RuntimeNode.root, hid]
    · have hne : ¬NodeId.rootEpoch (u32SaturatingAdd epoch 1) = id := fun h ↦ hid h.symm
      simp [KeyedList.lookup, RuntimeNode.root, hid, hne]

end SpineCodex.SpineReducer
