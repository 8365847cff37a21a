import SpineCodex.Tree.Transitions

/-!
# Well-formed trees

Every transition keeps the tree invariant as long as the 32-bit ordinals do not
run out, and from a tree with the invariant no transition aborts.
-/

namespace SpineCodex.SpineReducer

/-- The invariant of a reducer between two calls. -/
structure TreeInv (r : SpineReducer) : Prop where
  shape : Shape r
  path : Path r r.cursor
  live : ∀ n, r.node r.cursor = some n → n.status = .live

/-- The 32-bit ordinals have not run out: fewer than `2 ^ 32` root epochs, and fewer than
`2 ^ 32` children of any node. -/
def Bounded (r : SpineReducer) : Prop :=
  r.parents.count none < u32Size ∧ ∀ n ∈ r.nodes, n.children.length < u32Size

theorem TreeInv.congr {r r' : SpineReducer} (hinv : TreeInv r) (hnodes : r'.nodes = r.nodes)
    (hcursor : r'.cursor = r.cursor) (hroot : r'.currentRoot = r.currentRoot) : TreeInv r' := by
  have hnode := node_congr hnodes
  have hids : r'.ids = r.ids := congrArg (List.map RuntimeNode.id) hnodes
  have hparents : r'.parents = r.parents := congrArg (List.map RuntimeNode.parent) hnodes
  refine ⟨hinv.shape.congr hids fun id n hn ↦ ⟨n, hnode id ▸ hn, rfl, rfl⟩, ?_, ?_⟩
  · rw [hcursor]
    refine hinv.path.update_tip hroot hids hparents (fun id _ ↦ hnode id) fun n hn ↦ ?_
    exact hinv.path.tip_status n (hnode _ ▸ hn)
  · rw [hcursor]
    exact fun n hn ↦ hinv.live n (hnode _ ▸ hn)

theorem TreeInv.cursor_node {r : SpineReducer} (hinv : TreeInv r) :
    ∃ n, r.node r.cursor = some n ∧ r.cursor.parts ≠ [] ∧ n.parent = r.cursor.parent? := by
  obtain ⟨n, hn⟩ := exists_node hinv.path.tip_mem
  exact ⟨n, hn, hinv.shape.parent_eq _ n hn⟩

theorem treeInv_new : TreeInv new := by
  have hnode : ∀ id, new.node id = if id = .rootEpoch 1 then some (.root 1 0) else none := by
    intro id
    rw [node_eq_lookup]
    by_cases hid : id = .rootEpoch 1
    · simp [KeyedList.lookup, new, RuntimeNode.root, hid]
    · have hne : ¬NodeId.rootEpoch 1 = id := fun h ↦ hid h.symm
      simp [KeyedList.lookup, new, RuntimeNode.root, hid, hne]
  have hcases : ∀ id n, new.node id = some n → id = .rootEpoch 1 ∧ n = .root 1 0 := by
    intro id n hn
    rw [hnode] at hn
    split_ifs at hn with hid
    exact ⟨hid, (Option.some.inj hn).symm⟩
  have hids : new.ids = [.rootEpoch 1] := rfl
  refine ⟨⟨by simp [hids], ?_, ?_, ?_, ?_⟩, ⟨List.mem_singleton.mpr rfl, rfl, ?_, ?_, ?_, ?_, ?_, rfl⟩, ?_⟩
  · intro id n hn
    obtain ⟨rfl, rfl⟩ := hcases id n hn
    exact ⟨by simp, rfl⟩
  · intro id n hn
    obtain ⟨rfl, rfl⟩ := hcases id n hn
    rfl
  · intro id n hn c hc
    obtain ⟨rfl, rfl⟩ := hcases id n hn
    simp at hc
  · intro p k hp hmem
    rw [hids, List.mem_singleton] at hmem
    have hparts : p.parts ++ [k] = [] ++ [1] := congrArg NodeId.parts hmem
    exact absurd (List.append_inj' hparts rfl).1 hp
  · intro id hid
    rw [hids, List.mem_singleton] at hid
    simp [hid, new]
  · intro id n hn hne
    exact absurd (hcases id n hn).1 hne
  · intro n hn
    exact .inl ((hcases _ n hn).2 ▸ rfl)
  · intro id n hn hpre
    obtain ⟨rfl, -⟩ := hcases id n hn
    exact absurd (List.prefix_refl _) hpre
  · intro id n k rest hn hparts
    obtain ⟨rfl, -⟩ := hcases id n hn
    simp [new] at hparts
  · intro n hn
    exact (hcases _ n hn).2 ▸ rfl

/-! ## Source events -/

theorem TreeInv.pushCursorEntry {r r' : SpineReducer} (hinv : TreeInv r) {item : ContextItem}
    (h : r.pushCursorEntry (.leaf item) = some r') : TreeInv r' := by
  have hupdate := pushCursorEntry_spec h
  have hcursor : r'.cursor = r.cursor := by rw [hupdate.frame]
  have hroot : r'.currentRoot = r.currentRoot := by rw [hupdate.frame]
  obtain ⟨n, hn, -, -⟩ := hinv.cursor_node
  have hself : r'.node r.cursor = some (n.push (.leaf item)) := hupdate.node_self hn
  have hother : ∀ id, id ≠ r.cursor → r'.node id = r.node id := fun _ ↦ hupdate.node_other
  refine ⟨hinv.shape.congr hupdate.ids_eq ?_, ?_, ?_⟩
  · intro id n' hn'
    by_cases hid : id = r.cursor
    · subst hid
      obtain rfl := Option.some.inj (hself.symm.trans hn')
      exact ⟨n, hn, rfl, n.children_push_leaf item⟩
    · exact ⟨n', hother id hid ▸ hn', rfl, rfl⟩
  · rw [hcursor]
    refine hinv.path.update_tip hroot hupdate.ids_eq hupdate.parents_eq hother fun n' hn' ↦ ?_
    obtain rfl := Option.some.inj (hself.symm.trans hn')
    exact hinv.path.tip_status n hn
  · rw [hcursor]
    intro n' hn'
    obtain rfl := Option.some.inj (hself.symm.trans hn')
    exact hinv.live n hn

theorem TreeInv.pushCursorEntry_isSome {r : SpineReducer} (hinv : TreeInv r) (entry : NodeEntry) :
    (r.pushCursorEntry entry).isSome := by
  rw [SpineReducer.pushCursorEntry_isSome]
  exact node_isSome.mpr hinv.path.tip_mem

theorem applyMessage_eq (r : SpineReducer) (message : Message) :
    ∃ anchor next, r.applyMessage message =
      { r with nextUserAnchor := next }.pushCursorEntry (.leaf (.message message anchor)) := by
  unfold applyMessage
  split_ifs
  · exact ⟨_, _, rfl⟩
  · exact ⟨none, r.nextUserAnchor, rfl⟩

/-! ## Opening and closing tasks -/

theorem u32Succ_eq {n : ℕ} (h : n + 1 < u32Size) : u32Succ n = n + 1 := by
  unfold u32Succ
  rw [Nat.mod_eq_of_lt (Nat.lt_of_succ_lt h), Nat.mod_eq_of_lt h]

section Opened

variable {r r' : SpineReducer} {p : NodeId} {span : RawSpan} {summary : String}
  {tokens : Option ℕ} {m : RuntimeNode}

theorem OpenedUnder.node_parent (hopened : OpenedUnder r p span summary tokens m r') :
    r'.node p = some (m.opening (nextChild p m)) := by
  rw [hopened.ext.node_eq, if_pos rfl]

theorem OpenedUnder.nextChild_eq (hopened : OpenedUnder r p span summary tokens m r')
    (hbound : Bounded r') : nextChild p m = p.child (m.children.length + 1) := by
  have hroom := hbound.2 _ (node_mem hopened.node_parent)
  have hchildren : (m.opening (nextChild p m)).children = m.children ++ [nextChild p m] :=
    m.children_push_child _
  rw [hchildren, List.length_append] at hroom
  rw [nextChild, u32Succ_eq hroom]

/-- The next child of a node is fresh while the ordinals last. -/
theorem OpenedUnder.fresh (hopened : OpenedUnder r p span summary tokens m r')
    (hshape : Shape r) (hbound : Bounded r') : nextChild p m ∉ r.ids := by
  rw [hopened.nextChild_eq hbound]
  exact hshape.child_fresh hopened.node (by omega)

theorem OpenedUnder.node_child (hopened : OpenedUnder r p span summary tokens m r')
    (hfresh : nextChild p m ∉ r.ids) :
    r'.node (nextChild p m) = some (.task (nextChild p m) p span summary tokens) := by
  have hne : nextChild p m ≠ p := NodeId.child_ne p _
  rw [hopened.ext.node_eq, if_neg hne, node_eq_none.mpr hfresh]
  simp [KeyedList.lookup, RuntimeNode.task]

end Opened

/-- Opening a task under the tip of the path keeps the invariant. -/
theorem TreeInv.of_openedUnder {r r' : SpineReducer} {p : NodeId} {span : RawSpan}
    {summary : String} {tokens : Option ℕ} {m : RuntimeNode} (hshape : Shape r) (hpath : Path r p)
    (hopened : OpenedUnder r p span summary tokens m r') (hbound : Bounded r') : TreeInv r' := by
  have hp : p.parts ≠ [] := (hshape.parent_eq p m hopened.node).1
  have hfresh := hopened.fresh hshape hbound
  have hcursor : r'.cursor = nextChild p m := by rw [hopened.frame]
  have hroot : r'.currentRoot = r.currentRoot := by rw [hopened.frame]
  refine ⟨hshape.extend hopened.node hopened.ext rfl ?_ (m.children_push_child _) ?_, ?_, ?_⟩
  · simp [RuntimeNode.task, hopened.nextChild_eq hbound]
  · intro n hn
    obtain rfl := List.mem_singleton.mp hn
    exact ⟨rfl, rfl⟩
  · rw [hcursor]
    exact hpath.descend hroot hp hopened.parents_eq (by simp [RuntimeNode.task]) hopened.ext rfl
      rfl (by simp [RuntimeNode.opening, RuntimeNode.push, nextChild]) rfl hfresh
  · rw [hcursor]
    intro n hn
    obtain rfl := Option.some.inj ((hopened.node_child hfresh).symm.trans hn)
    rfl

/-- Closing the cursor leaves a tree whose tip is the parent of the closed task. -/
theorem TreeInv.of_closedCursor {r r₁ : SpineReducer} {span : RawSpan} {modelMemory : String}
    {n : RuntimeNode} {p : NodeId} {memory : List MemorySlot} (hinv : TreeInv r)
    (hclosed : ClosedCursor r span modelMemory n p memory r₁) : Shape r₁ ∧ Path r₁ p := by
  have hparent : r.cursor.parent? = some p :=
    (hinv.shape.parent_eq _ n hclosed.node).2 ▸ hclosed.parent
  obtain ⟨hp, k, hk⟩ := NodeId.eq_child_of_parent? hparent
  have hpmem : p ∈ r.ids := by
    obtain ⟨m, hm, -⟩ := hinv.shape.parent_mem p k hp (hk ▸ hinv.path.tip_mem)
    exact node_mem_ids hm
  have hupdate := hclosed.update
  have hroot : r₁.currentRoot = r.currentRoot := by rw [hupdate.frame]
  have hnode : ∀ id, r₁.node id =
      if id = r.cursor then some (n.closing memory span.start) else r.node id := by
    intro id
    rw [hupdate.node_eq, hclosed.node]
    rfl
  have hpath : Path r (p.child k) := hk ▸ hinv.path
  constructor
  · refine hinv.shape.congr hupdate.ids_eq fun id n' hn' ↦ ?_
    rw [hnode] at hn'
    split_ifs at hn' with hid
    · obtain rfl := Option.some.inj hn'
      exact ⟨n, hid ▸ hclosed.node, rfl, rfl⟩
    · exact ⟨n', hn', rfl, rfl⟩
  · rw [hk] at hnode
    exact hpath.ascend hp hpmem hroot hupdate.ids_eq hupdate.parents_eq hnode
      (.inl ⟨rfl, rfl, rfl⟩)

theorem TreeInv.openNode {r r' : SpineReducer} (hinv : TreeInv r) {span : RawSpan}
    {summary : String} {tokens : Option ℕ} (h : r.openNode span summary tokens = some r')
    (hbound : Bounded r') : TreeInv r' := by
  obtain ⟨m, hopened⟩ := openUnder_spec h
  exact .of_openedUnder hinv.shape hinv.path hopened hbound

theorem TreeInv.nextNode {r r' : SpineReducer} (hinv : TreeInv r) {span : RawSpan}
    {summary modelMemory : String} {tokens : Option ℕ}
    (h : r.nextNode span summary modelMemory tokens = some r') (hbound : Bounded r') :
    TreeInv r' := by
  obtain ⟨n, p, memory, r₁, m, hclosed, hopened⟩ := nextNode_spec h
  obtain ⟨hshape, hpath⟩ := hinv.of_closedCursor hclosed
  exact .of_openedUnder hshape hpath hopened hbound

theorem TreeInv.closeNode {r r' : SpineReducer} (hinv : TreeInv r) {span : RawSpan}
    {modelMemory : String} (h : r.closeNode span modelMemory = some r') : TreeInv r' := by
  obtain ⟨n, p, memory, r₁, hclosed, hframe, hupdate⟩ := closeNode_spec h
  obtain ⟨hshape, hpath⟩ := hinv.of_closedCursor hclosed
  have hcursor : r'.cursor = p := by rw [hframe]
  have hroot : r'.currentRoot = r₁.currentRoot := by rw [hframe]
  obtain ⟨m, hm⟩ := exists_node hpath.tip_mem
  have hself : r'.node p = some (m.resuming span) := hupdate.node_self hm
  have hother : ∀ id, id ≠ p → r'.node id = r₁.node id := fun _ ↦ hupdate.node_other
  refine ⟨hshape.congr hupdate.ids_eq ?_, ?_, ?_⟩
  · intro id n' hn'
    by_cases hid : id = p
    · subst hid
      obtain rfl := Option.some.inj (hself.symm.trans hn')
      exact ⟨m, hm, rfl, m.children_push_leaf _⟩
    · exact ⟨n', hother id hid ▸ hn', rfl, rfl⟩
  · rw [hcursor]
    refine hpath.update_tip hroot hupdate.ids_eq hupdate.parents_eq hother fun n' hn' ↦ ?_
    obtain rfl := Option.some.inj (hself.symm.trans hn')
    exact .inl rfl
  · rw [hcursor]
    intro n' hn'
    obtain rfl := Option.some.inj (hself.symm.trans hn')
    rfl

/-! ## Spawning and compacting -/

/-- The ordinal of the `k`-th spawned child follows those of the children before it. -/
theorem spawnOrdinal_eq {count k : ℕ} (h : count + k + 1 < u32Size) :
    u32SaturatingAdd (u32Succ count) (u32Clamp k) = count + k + 1 := by
  have hsucc : u32Succ count = count + 1 := u32Succ_eq (by omega)
  have hclamp : u32Clamp k = k := min_eq_left (by omega)
  rw [hsucc, hclamp, u32SaturatingAdd, min_eq_left (by omega)]
  omega

theorem ids_spawnChildren {p : NodeId} {count : ℕ} {span : RawSpan}
    {pairs : List (SpawnTask × SpawnResult)} (hroom : count + pairs.length < u32Size) :
    (spawnChildren p (u32Succ count) span pairs).map (·.id) =
      (List.range pairs.length).map fun k ↦ p.child (count + k + 1) := by
  apply List.ext_getElem
  · simp [spawnChildren]
  · intro k hk _
    have hlt : k < pairs.length := by simpa [spawnChildren] using hk
    have hordinal := @spawnOrdinal_eq count k (by omega)
    simp [spawnChildren, RuntimeNode.spawned, hordinal]

theorem nodup_ids_spawnChildren {p : NodeId} {count : ℕ} {span : RawSpan}
    {pairs : List (SpawnTask × SpawnResult)} (hroom : count + pairs.length < u32Size) :
    ((spawnChildren p (u32Succ count) span pairs).map (·.id)).Nodup := by
  rw [ids_spawnChildren hroom]
  apply List.Nodup.map _ List.nodup_range
  intro j k hjk
  have := (NodeId.child_injective hjk).2
  omega

theorem mem_spawnChildren {p : NodeId} {first : ℕ} {span : RawSpan}
    {pairs : List (SpawnTask × SpawnResult)} {n : RuntimeNode}
    (hn : n ∈ spawnChildren p first span pairs) :
    ∃ k task result, n = .spawned (p.child k) p span task result := by
  obtain ⟨i, hi, rfl⟩ := List.mem_mapIdx.mp hn
  exact ⟨_, _, _, rfl⟩

section Spawned

variable {r r' : SpineReducer} {span : RawSpan} {m : RuntimeNode} {children : List RuntimeNode}
  {pairs : List (SpawnTask × SpawnResult)}

theorem Spawned.node_cursor (hspawned : Spawned r span m children r') :
    r'.node r.cursor = some (m.spawning span children) := by
  rw [hspawned.ext.node_eq, if_pos rfl]

/-- A node of the old tree other than the cursor is the same after the spawn. -/
theorem Spawned.node_old (hspawned : Spawned r span m children r') {id : NodeId}
    (hid : id ∈ r.ids) (hne : id ≠ r.cursor) : r'.node id = r.node id := by
  obtain ⟨n, hn⟩ := exists_node hid
  rw [hspawned.ext.node_eq, if_neg hne, hn, Option.some_or]

theorem Spawned.room
    (hspawned : Spawned r span m
      (spawnChildren r.cursor (u32Succ m.children.length) span pairs) r')
    (hbound : Bounded r') : m.children.length + pairs.length < u32Size := by
  have hroom := hbound.2 _ (node_mem hspawned.node_cursor)
  simpa [RuntimeNode.children_spawning, spawnChildren] using hroom

theorem Spawned.child_notMem
    (hspawned : Spawned r span m
      (spawnChildren r.cursor (u32Succ m.children.length) span pairs) r')
    (hshape : Shape r) (hroom : m.children.length + pairs.length < u32Size) {child : RuntimeNode}
    (hchild : child ∈ spawnChildren r.cursor (u32Succ m.children.length) span pairs) :
    child.id ∉ r.ids := by
  have hmem := List.mem_map_of_mem (f := RuntimeNode.id) hchild
  rw [ids_spawnChildren hroom] at hmem
  obtain ⟨k, -, hk⟩ := List.mem_map.mp hmem
  rw [← hk]
  exact hshape.child_fresh hspawned.node (by omega)

theorem Spawned.node_child
    (hspawned : Spawned r span m
      (spawnChildren r.cursor (u32Succ m.children.length) span pairs) r')
    (hshape : Shape r) (hroom : m.children.length + pairs.length < u32Size) {child : RuntimeNode}
    (hchild : child ∈ spawnChildren r.cursor (u32Succ m.children.length) span pairs) :
    r'.node child.id = some child := by
  have hnew := hspawned.child_notMem hshape hroom hchild
  have hne : child.id ≠ r.cursor := by
    intro heq
    exact hnew (heq ▸ node_mem_ids hspawned.node)
  rw [hspawned.ext.node_eq, if_neg hne, node_eq_none.mpr hnew, Option.none_or]
  exact (KeyedList.lookup_eq_some (nodup_ids_spawnChildren hroom)).mpr ⟨hchild, rfl⟩

end Spawned

theorem TreeInv.spawn {r r' : SpineReducer} (hinv : TreeInv r) {span : RawSpan}
    {batches : List (List SpawnTask × List SpawnResult)} (h : r.spawn span batches = some r')
    (hbound : Bounded r') : TreeInv r' := by
  obtain ⟨m, hspawned⟩ := spawn_spec h
  set children := spawnChildren r.cursor (u32Succ m.children.length) span (spawnPairs batches)
    with hchildren
  have hp : r.cursor.parts ≠ [] := (hinv.shape.parent_eq _ m hspawned.node).1
  have hcursor : r'.cursor = r.cursor := by rw [hspawned.frame]
  have hroot : r'.currentRoot = r.currentRoot := by rw [hspawned.frame]
  have hlength : children.length = (spawnPairs batches).length := by
    simp [hchildren, spawnChildren]
  have hmem : ∀ n ∈ children, ∃ k task result, n = .spawned (r.cursor.child k) r.cursor span
      task result := fun n hn ↦ mem_spawnChildren hn
  refine ⟨hinv.shape.extend hspawned.node hspawned.ext rfl ?_
    (RuntimeNode.children_spawning span children m) ?_, ?_, ?_⟩
  · rw [hlength]
    exact ids_spawnChildren (hspawned.room hbound)
  · intro n hn
    obtain ⟨k, task, result, rfl⟩ := hmem n hn
    exact ⟨rfl, rfl⟩
  · rw [hcursor]
    refine hinv.path.extend hroot hspawned.parents_eq hspawned.ext
      (hinv.path.tip_status m hspawned.node) ?_ hp ?_
    · intro n hn
      obtain ⟨k, task, result, rfl⟩ := hmem n hn
      exact ⟨k, rfl⟩
    · intro n hn
      obtain ⟨k, task, result, rfl⟩ := hmem n hn
      exact ⟨by simp [RuntimeNode.spawned], .inl ⟨rfl, rfl, rfl⟩⟩
  · rw [hcursor]
    intro n hn
    obtain rfl := Option.some.inj (hspawned.node_cursor.symm.trans hn)
    exact hinv.live m hspawned.node

/-- A compaction ends every open node of the epoch and keeps the closed ones. -/
theorem Done.of_compacting {r : SpineReducer} {tip id : NodeId} {n : RuntimeNode}
    (hshape : Shape r) (hpath : Path r tip) (hn : r.node id = some n) (boundary : RawBoundary) :
    Done (tip.epoch + 1) (n.compacting tip.epoch boundary) := by
  have hid := node_id hn
  have hle : n.id.epoch ≤ tip.epoch := hid ▸ hpath.epoch_le id (node_mem_ids hn)
  have hhead : n.id.parts.head? = some n.id.epoch := by
    cases hparts : n.id.parts with
    | nil => exact absurd (hid ▸ hparts) (hshape.parent_eq id n hn).1
    | cons e rest => simp [NodeId.epoch, hparts]
  unfold RuntimeNode.compacting
  split_ifs with hcompact
  · exact .inr ⟨rfl, rfl, Nat.lt_succ_of_le hle⟩
  · by_cases hpre : id.parts <+: tip.parts
    · -- an open node of the epoch would have been compacted
      have hepoch : n.id.epoch = tip.epoch := by
        obtain ⟨rest, hrest⟩ := hpre
        cases hparts : id.parts with
        | nil => exact absurd hparts (hshape.parent_eq id n hn).1
        | cons e tail => simp [hid, NodeId.epoch, hparts, ← hrest]
      have hopen : n.status ≠ .closed := by
        by_cases htip : id = tip
        · rcases hpath.tip_status n (htip ▸ hn) with h | h <;> simp [h]
        · simp [hpath.opened id n hn htip hpre]
      exact absurd ⟨hepoch ▸ hhead, hopen⟩ hcompact
    · rcases hpath.done id n hn hpre with hclosed | ⟨hstatus, hstop, hlt⟩
      · exact .inl hclosed
      · exact .inr ⟨hstatus, hstop, hlt.trans (Nat.lt_succ_self _)⟩

/-- `r'` is `r` with its nodes compacted and a new root for the epoch after the cursor's. -/
structure EpochEnded (r : SpineReducer) (boundary : RawBoundary) (r' : SpineReducer) : Prop where
  fresh : .rootEpoch (r.cursor.epoch + 1) ∉ r.ids
  cursor_eq : r'.cursor = .rootEpoch (r.cursor.epoch + 1)
  currentRoot_eq : r'.currentRoot = .rootEpoch (r.cursor.epoch + 1)
  ids_eq : r'.ids = r.ids ++ [.rootEpoch (r.cursor.epoch + 1)]
  parents_eq : r'.parents = r.parents ++ [none]
  node_eq : ∀ id, r'.node id = ((r.node id).map (.compacting r.cursor.epoch boundary)).or
    (if id = .rootEpoch (r.cursor.epoch + 1) then some (.root (r.cursor.epoch + 1) boundary)
      else none)

/-- While the epochs last, a compaction starts the epoch after the cursor's. -/
theorem TreeInv.epochEnded {r r' : SpineReducer} (hinv : TreeInv r) {boundary : RawBoundary}
    {history : List ContextItem} (h : r.applyCompact boundary history = some r')
    (hbound : Bounded r') : EpochEnded r boundary r' := by
  obtain ⟨epoch, hcompact⟩ := applyCompact_spec h
  obtain rfl : epoch = r.cursor.epoch := by
    have := hcompact.epoch_eq
    rw [hinv.path.root_eq] at this
    simpa using this.symm
  have hroom : r.cursor.epoch + 1 < u32Size := by
    have := hbound.1
    rwa [hcompact.parents_eq, List.count_append, hinv.path.root_count] at this
  have hnext : u32SaturatingAdd r.cursor.epoch 1 = r.cursor.epoch + 1 := min_eq_left (by omega)
  obtain ⟨-, hframe, -, hids, hparents, hnode⟩ := hcompact
  simp only [hnext] at hframe hids hparents hnode
  refine ⟨?_, by rw [hframe], by rw [hframe], hids, hparents, hnode⟩
  intro hmem
  have := hinv.path.epoch_le _ hmem
  simp at this

section EpochEnded

variable {r r' : SpineReducer} {boundary : RawBoundary}

theorem EpochEnded.node_root (hended : EpochEnded r boundary r') :
    r'.node (.rootEpoch (r.cursor.epoch + 1)) = some (.root (r.cursor.epoch + 1) boundary) := by
  rw [hended.node_eq, node_eq_none.mpr hended.fresh, if_pos rfl]
  rfl

theorem EpochEnded.node_cases (hended : EpochEnded r boundary r') {id : NodeId}
    {n' : RuntimeNode} (hn' : r'.node id = some n') :
    (id = .rootEpoch (r.cursor.epoch + 1) ∧ n' = .root (r.cursor.epoch + 1) boundary) ∨
      ∃ n, r.node id = some n ∧ n' = n.compacting r.cursor.epoch boundary := by
  rw [hended.node_eq] at hn'
  rcases Option.or_eq_some_iff.mp hn' with hold | ⟨-, hnew⟩
  · obtain ⟨n, hn, rfl⟩ := Option.map_eq_some_iff.mp hold
    exact .inr ⟨n, hn, rfl⟩
  · split_ifs at hnew with hid
    exact .inl ⟨hid, (Option.some.inj hnew).symm⟩

theorem children_compacting (epoch : ℕ) (boundary : RawBoundary) (n : RuntimeNode) :
    (n.compacting epoch boundary).children = n.children := by
  simp [RuntimeNode.children]

theorem EpochEnded.shape (hended : EpochEnded r boundary r') (hshape : Shape r) : Shape r' where
  ids_nodup := by
    rw [hended.ids_eq]
    exact List.nodup_append'.mpr ⟨hshape.ids_nodup, List.nodup_singleton _,
      fun c hold hc ↦ hended.fresh (List.mem_singleton.mp hc ▸ hold)⟩
  parent_eq := by
    intro id n' hn'
    rcases hended.node_cases hn' with ⟨rfl, rfl⟩ | ⟨n, hn, rfl⟩
    · exact ⟨by simp, rfl⟩
    · simpa using hshape.parent_eq id n hn
  children_eq := by
    intro id n' hn'
    rcases hended.node_cases hn' with ⟨rfl, rfl⟩ | ⟨n, hn, rfl⟩
    · rfl
    · rw [children_compacting]
      exact hshape.children_eq id n hn
  child_mem := by
    intro id n' hn' c hc
    rw [hended.ids_eq]
    rcases hended.node_cases hn' with ⟨rfl, rfl⟩ | ⟨n, hn, rfl⟩
    · simp at hc
    · rw [children_compacting] at hc
      exact List.mem_append_left _ (hshape.child_mem id n hn c hc)
  parent_mem := by
    intro p k hp hmem
    rw [hended.ids_eq, List.mem_append] at hmem
    rcases hmem with hmem | hmem
    · obtain ⟨m, hm, hk⟩ := hshape.parent_mem p k hp hmem
      refine ⟨m.compacting r.cursor.epoch boundary, ?_, by rwa [children_compacting]⟩
      rw [hended.node_eq, hm]
      rfl
    · have hparts : p.parts ++ [k] = [] ++ [r.cursor.epoch + 1] :=
        congrArg NodeId.parts (List.mem_singleton.mp hmem)
      exact absurd (List.append_inj' hparts rfl).1 hp

theorem EpochEnded.path (hended : EpochEnded r boundary r') (hinv : TreeInv r) :
    Path r' (.rootEpoch (r.cursor.epoch + 1)) where
  tip_mem := by
    rw [hended.ids_eq]
    exact List.mem_append_right _ (List.mem_singleton_self _)
  root_eq := hended.currentRoot_eq
  epoch_le := by
    intro id hid
    rw [hended.ids_eq, List.mem_append] at hid
    rcases hid with hid | hid
    · exact (hinv.path.epoch_le id hid).trans (by simp)
    · rw [List.mem_singleton.mp hid]
  opened := by
    intro id n' hn' hne hpre
    rcases hended.node_cases hn' with ⟨rfl, -⟩ | ⟨n, hn, -⟩
    · exact absurd rfl hne
    · -- only the root itself is a nonempty prefix of the new root
      have hlen := List.length_pos_of_ne_nil (hinv.shape.parent_eq id n hn).1
      have heq := hpre.eq_of_length (Nat.le_antisymm hpre.length_le hlen)
      exact absurd (NodeId.ext_parts heq) hne
  tip_status := by
    intro n' hn'
    rw [hended.node_root] at hn'
    exact .inl (Option.some.inj hn' ▸ rfl)
  done := by
    intro id n' hn' hpre
    rcases hended.node_cases hn' with ⟨rfl, -⟩ | ⟨n, hn, rfl⟩
    · exact absurd (List.prefix_refl _) hpre
    · exact Done.of_compacting hinv.shape hinv.path hn boundary
  open_last := by
    intro id n' k rest hn' hparts
    have hlen := congrArg List.length hparts
    rcases hended.node_cases hn' with ⟨rfl, -⟩ | ⟨n, hn, -⟩
    · simp at hlen
    · have := List.length_pos_of_ne_nil (hinv.shape.parent_eq id n hn).1
      simp at hlen
      omega
  root_count := by
    rw [hended.parents_eq, List.count_append, hinv.path.root_count]
    rfl

end EpochEnded

theorem TreeInv.applyCompact {r r' : SpineReducer} (hinv : TreeInv r) {boundary : RawBoundary}
    {history : List ContextItem} (h : r.applyCompact boundary history = some r')
    (hbound : Bounded r') : TreeInv r' := by
  have hended := hinv.epochEnded h hbound
  refine ⟨hended.shape hinv.shape, ?_, ?_⟩
  · rw [hended.cursor_eq]
    exact hended.path hinv
  · intro n' hn'
    rw [hended.cursor_eq, hended.node_root] at hn'
    exact Option.some.inj hn' ▸ rfl

end SpineCodex.SpineReducer
