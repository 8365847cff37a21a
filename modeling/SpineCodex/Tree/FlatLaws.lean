import SpineCodex.Tree.Visible

/-!
# How transitions change the flat context

Opening, closing and spawning rewrite the tree; on the flat context they append
at the end or replace the part after the marker of the closed task.
-/

namespace SpineCodex.SpineReducer

/-- The flat context down to `tip`. -/
def visibleAt (r : SpineReducer) (tip : NodeId) : List ContextItem :=
  r.baseline ++ (pathIds tip).flatMap r.segment

theorem visible_eq_visibleAt (r : SpineReducer) : r.visible = r.visibleAt r.cursor := rfl

theorem visibleAt_child (r : SpineReducer) {p : NodeId} (hp : p.parts ≠ []) (k : ℕ) :
    r.visibleAt (p.child k) = r.visibleAt p ++ r.segment (p.child k) := by
  simp [visibleAt, pathIds_child hp]

/-- The ids above `tip` on its path, and then `tip`. -/
theorem pathIds_eq_concat {tip : NodeId} (htip : tip.parts ≠ []) :
    ∃ above, pathIds tip = above ++ [tip] ∧
      ∀ id ∈ above, id ≠ tip ∧ id.parts <+: tip.parts := by
  rcases List.eq_nil_or_concat tip.parts with hnil | ⟨l, k, hlk⟩
  · exact absurd hnil htip
  · have hchild : tip = NodeId.child ⟨l⟩ k := NodeId.ext_parts (by simpa using hlk)
    by_cases hl : l = []
    · refine ⟨[], ?_, by simp⟩
      rw [hchild, hl]
      rfl
    · refine ⟨pathIds ⟨l⟩, ?_, ?_⟩
      · rw [hchild]
        exact pathIds_child hl k
      · intro id hid
        obtain ⟨-, hpre⟩ := mem_pathIds.mp hid
        refine ⟨?_, hpre.trans (by simp [hchild])⟩
        rintro rfl
        have := hpre.length_le
        simp [hchild] at this

theorem body_congr (r r' : SpineReducer) {entries : List NodeEntry}
    (h : ∀ c ∈ entryChildren entries, r'.closedItems c = r.closedItems c) :
    r'.body entries = r.body entries := by
  unfold body
  apply List.flatMap_congr
  intro entry hentry
  cases entry with
  | leaf item => rfl
  | child c => exact h c (List.mem_filterMap.mpr ⟨.child c, hentry, rfl⟩)

theorem segment_congr {r r' : SpineReducer} {id : NodeId} (hnode : r'.node id = r.node id)
    (h : ∀ n, r.node id = some n → ∀ c ∈ n.children, r'.closedItems c = r.closedItems c) :
    r'.segment id = r.segment id := by
  unfold segment
  rw [hnode]
  cases hn : r.node id with
  | none => rfl
  | some n =>
    simp only
    rw [body_congr r r' (h n hn)]

theorem closedItems_congr {r r' : SpineReducer} {c : NodeId} (h : r'.node c = r.node c) :
    r'.closedItems c = r.closedItems c := by
  simp [closedItems, h]

theorem body_append (r : SpineReducer) (xs ys : List NodeEntry) :
    r.body (xs ++ ys) = r.body xs ++ r.body ys := by
  simp [body]

/-- A change at the tip alone shows only in the segment of the tip. -/
theorem visibleAt_update_tip {r r' : SpineReducer} {tip : NodeId} {m m' : RuntimeNode}
    {items : List ContextItem} (htip : tip.parts ≠ []) (hbaseline : r'.baseline = r.baseline)
    (hm : r.node tip = some m) (hm' : r'.node tip = some m')
    (habove : ∀ id ∈ pathIds tip, id ≠ tip → r'.segment id = r.segment id)
    (hparent : m'.parent = m.parent) (hmarker : marker m' = marker m)
    (hbody : r'.body m'.entries = r.body m.entries ++ items) :
    r'.visibleAt tip = r.visibleAt tip ++ items := by
  obtain ⟨above, hpath, hne⟩ := pathIds_eq_concat htip
  have hfront : above.flatMap r'.segment = above.flatMap r.segment :=
    List.flatMap_congr fun id hid ↦ habove id (by simp [hpath, hid]) (hne id hid).1
  have hsegment : r'.segment tip = r.segment tip ++ items := by
    simp [segment, hm, hm', hparent, hmarker, hbody]
  simp [visibleAt, hpath, hbaseline, hfront, hsegment]

/-! ## Appending a leaf -/

theorem TreeInv.visible_pushCursorEntry {r r' : SpineReducer} (hinv : TreeInv r)
    {item : ContextItem} (h : r.pushCursorEntry (.leaf item) = some r') :
    r'.visible = r.visible ++ [item] := by
  have hupdate := pushCursorEntry_spec h
  obtain ⟨n, hn, hne, -⟩ := hinv.cursor_node
  have hcursor : r'.cursor = r.cursor := by rw [hupdate.frame]
  have hself : r'.node r.cursor = some (n.push (.leaf item)) := hupdate.node_self hn
  have hclosed : ∀ c, r'.closedItems c = r.closedItems c := by
    intro c
    by_cases hc : c = r.cursor
    · have hlive := hinv.live n hn
      rw [hc, closedItems_of_open hn (by simp [hlive]),
        closedItems_of_open hself (by simp [RuntimeNode.push, hlive])]
    · exact closedItems_congr (hupdate.node_other hc)
  rw [visible_eq_visibleAt, visible_eq_visibleAt, hcursor]
  refine visibleAt_update_tip hne (by rw [hupdate.frame]) hn hself ?_ rfl rfl ?_
  · intro id _ hid
    exact segment_congr (hupdate.node_other hid) fun _ _ c _ ↦ hclosed c
  · rw [body_congr r r' fun c _ ↦ hclosed c]
    simp [RuntimeNode.push, body, entryItems]

/-! ## Opening a task -/

/-- Opening a task appends its marker and the span that opened it. -/
theorem visible_of_openedUnder {r r' : SpineReducer} {p : NodeId} {span : RawSpan}
    {summary : String} {tokens : Option ℕ} {m : RuntimeNode} (hshape : Shape r) (hpath : Path r p)
    (hopened : OpenedUnder r p span summary tokens m r')
    (hfresh : nextChild p m ∉ r.ids) :
    r'.visible = r.visibleAt p ++
      [.syntheticNode (nextChild p m) summary .opened, .sourceSpan span] := by
  have hp : p.parts ≠ [] := (hshape.parent_eq p m hopened.node).1
  have hcursor : r'.cursor = nextChild p m := by rw [hopened.frame]
  have hself := hopened.node_parent
  have hold : ∀ id, id ≠ p → id ≠ nextChild p m → r'.node id = r.node id := by
    intro id hid hid'
    have hnone : KeyedList.lookup RuntimeNode.id
        [.task (nextChild p m) p span summary tokens] id = none := by
      rw [KeyedList.lookup_eq_none]
      simpa [RuntimeNode.task] using hid'
    rw [hopened.ext.node_eq, if_neg hid, hnone, Option.or_none]
  have hchild := hopened.node_child hfresh
  have hclosed : ∀ c, r'.closedItems c = r.closedItems c := by
    intro c
    by_cases hcp : c = p
    · subst hcp
      rw [closedItems_of_open hself (by simp [RuntimeNode.opening])]
      refine (closedItems_of_open hopened.node ?_).symm
      rcases hpath.tip_status m hopened.node with h | h <;> simp [h]
    · by_cases hcn : c = nextChild p m
      · subst hcn
        rw [closedItems_of_open hchild (by simp [RuntimeNode.task])]
        simp [closedItems, node_eq_none.mpr hfresh]
      · exact closedItems_congr (hold c hcp hcn)
  have hsegment : r'.segment (nextChild p m) =
      [.syntheticNode (nextChild p m) summary .opened, .sourceSpan span] := by
    simp [segment, hchild, RuntimeNode.task, marker, body, entryItems]
  have hparent : r'.visibleAt p = r.visibleAt p ++ [] := by
    refine visibleAt_update_tip hp (by rw [hopened.frame]) hopened.node hself ?_ rfl rfl ?_
    · intro id hid hne
      refine segment_congr (hold id hne ?_) fun _ _ c _ ↦ hclosed c
      rintro rfl
      exact hfresh (hshape.pathIds_subset hpath.tip_mem _ hid)
    · rw [body_congr r r' fun c _ ↦ hclosed c]
      have hnil : r.closedItems (nextChild p m) = [] := by
        simp [closedItems, node_eq_none.mpr hfresh]
      simp [RuntimeNode.opening, RuntimeNode.push, body, entryItems, hnil]
  rw [visible_eq_visibleAt, hcursor, nextChild, visibleAt_child r' hp, hparent, List.append_nil]
  exact congrArg _ hsegment

/-! ## Memory

Closing a task keeps, in order, the anchored user messages and the memory slots of its body. -/

/-- What closing a task keeps of one item of its body. -/
def keptSlots (owner : NodeId) : ContextItem → List MemorySlot
  | .memorySlot slot => [slot]
  | item => (userSlot owner item).toList

/-- An item that a source event other than a synthetic one leaves in the tree. -/
inductive PlainItem : ContextItem → Prop
  | message (m : Message) (anchor : Option ℕ) (h : anchor.isSome ↔ m.role = .user) :
      PlainItem (.message m anchor)
  | span (span : RawSpan) : PlainItem (.sourceSpan span)
  | native (boundary : RawBoundary) : PlainItem (.native (.rollout boundary))

/-- The leaves of the tree come from ordinary source. -/
def PlainLeaves (entries : List NodeEntry) : Prop := ∀ item, .leaf item ∈ entries → PlainItem item

theorem PlainItem.keptSlots_eq {item : ContextItem} (h : PlainItem item) (owner : NodeId) :
    keptSlots owner item = (userSlot owner item).toList := by
  cases h <;> rfl

theorem closedItems_of_closed {r : SpineReducer} {c : NodeId} {n : RuntimeNode}
    (hn : r.node c = some n) (hclosed : n.status = .closed) :
    r.closedItems c = (n.memory.getD []).map .memorySlot := by
  simp [closedItems, hn, hclosed]

/-- The memory of a task whose children are closed is read off its body. -/
theorem entryMemory_eq {r : SpineReducer} {owner : NodeId} {entries : List NodeEntry}
    (hleaf : PlainLeaves entries)
    (hchild : ∀ c ∈ entryChildren entries, ∃ m, r.node c = some m ∧ m.status = .closed) :
    r.entryMemory owner entries = some ((r.body entries).flatMap (keptSlots owner)) := by
  induction entries with
  | nil => rfl
  | cons entry entries ih =>
    cases entry with
    | leaf item =>
      have htail := ih (fun i hi ↦ hleaf i (List.mem_cons_of_mem _ hi))
        (by simpa [entryChildren, NodeEntry.child?] using hchild)
      have hitem := (hleaf item List.mem_cons_self).keptSlots_eq owner
      simp only [entryMemory, htail, Option.bind_eq_bind, Option.bind_some, body,
        List.flatMap_cons, entryItems, List.flatMap_append, List.flatMap_nil, List.append_nil,
        hitem]
    | child c =>
      simp only [entryChildren, List.filterMap_cons, NodeEntry.child?, List.mem_cons,
        forall_eq_or_imp] at hchild
      obtain ⟨⟨m, hm, hclosed⟩, hrest⟩ := hchild
      have htail := ih (fun i hi ↦ hleaf i (List.mem_cons_of_mem _ hi)) hrest
      have hhead : (r.closedItems c).flatMap (keptSlots owner) = m.memory.getD [] := by
        rw [closedItems_of_closed hm hclosed, List.flatMap_map]
        exact List.flatMap_singleton' _
      simp only [entryMemory, hm, htail, Option.bind_eq_bind, Option.bind_some, body,
        List.flatMap_cons, entryItems, List.flatMap_append, hhead]

/-- Assembling memory returns whenever the children of the node exist. -/
theorem entryMemory_isSome {r : SpineReducer} (owner : NodeId) {entries : List NodeEntry}
    (hchild : ∀ c ∈ entryChildren entries, c ∈ r.ids) :
    (r.entryMemory owner entries).isSome := by
  induction entries with
  | nil => rfl
  | cons entry entries ih =>
    cases entry with
    | leaf item =>
      obtain ⟨slots, hslots⟩ := Option.isSome_iff_exists.mp
        (ih (by simpa [entryChildren, NodeEntry.child?] using hchild))
      simp [entryMemory, hslots]
    | child c =>
      simp only [entryChildren, List.filterMap_cons, NodeEntry.child?, List.mem_cons,
        forall_eq_or_imp] at hchild
      obtain ⟨m, hm⟩ := exists_node hchild.1
      obtain ⟨slots, hslots⟩ := Option.isSome_iff_exists.mp (ih hchild.2)
      simp [entryMemory, hm, hslots]

/-! ## Closing a task -/

/-- Closing the cursor replaces its marker and body by its memory. -/
theorem TreeInv.visibleAt_of_closedCursor {r r₁ : SpineReducer} {span : RawSpan}
    {modelMemory : String} {n : RuntimeNode} {p : NodeId} {memory : List MemorySlot}
    (hinv : TreeInv r) (hclosed : ClosedCursor r span modelMemory n p memory r₁) :
    r.visible = r.visibleAt p ++ marker n :: r.body n.entries ∧
      r₁.visibleAt p = r.visibleAt p ++ memory.map .memorySlot := by
  have hparent : r.cursor.parent? = some p :=
    (hinv.shape.parent_eq _ n hclosed.node).2 ▸ hclosed.parent
  obtain ⟨hp, k, hk⟩ := NodeId.eq_child_of_parent? hparent
  have hupdate := hclosed.update
  have hself : r₁.node r.cursor = some (n.closing memory span.start) :=
    hupdate.node_self hclosed.node
  have hold : ∀ id, id ≠ r.cursor → r₁.node id = r.node id := fun _ ↦ hupdate.node_other
  have hother : ∀ c, c ≠ r.cursor → r₁.closedItems c = r.closedItems c := fun c hc ↦
    closedItems_congr (hold c hc)
  constructor
  · rw [visible_eq_visibleAt, hk, visibleAt_child r hp]
    simp [segment, ← hk, hclosed.node, hclosed.parent]
  · obtain ⟨m, hm, hmem⟩ := hinv.shape.parent_mem p k hp (hk ▸ hinv.path.tip_mem)
    have hpc : p ≠ r.cursor := hk ▸ (NodeId.child_ne p k).symm
    -- the closed task is the last entry of its parent
    obtain ⟨before, hbefore⟩ := List.getLast?_eq_some_iff.mp
      (hinv.path.open_last p m k [] hm (by simp [hk]))
    have hchildren : m.children = entryChildren before ++ [p.child k] := by
      simp [RuntimeNode.children, entryChildren, hbefore, NodeEntry.child?]
    have hnodup : (entryChildren before ++ [p.child k]).Nodup := by
      rw [← hchildren, hinv.shape.children_eq p m hm]
      exact nodup_childIds p _
    have hfront : r₁.body before = r.body before := by
      refine body_congr r r₁ fun c hc ↦ hother c ?_
      rintro rfl
      exact (List.disjoint_of_nodup_append hnodup) hc (by simp [hk])
    refine visibleAt_update_tip hp (by rw [hupdate.frame]) hm (hold p hpc ▸ hm) ?_ rfl rfl ?_
    · -- a node above the parent has the closed task neither as itself nor as a child
      intro id hid hne
      obtain ⟨hidne, hpre⟩ := mem_pathIds.mp hid
      have hlen : id.parts.length < p.parts.length := by
        refine lt_of_le_of_ne hpre.length_le fun h ↦ hne ?_
        exact NodeId.ext_parts (hpre.eq_of_length h)
      refine segment_congr (hold id ?_) fun n' hn' c hc ↦ hother c ?_
      · rintro rfl
        simp [hk] at hlen
      · rintro rfl
        rw [hinv.shape.children_eq id n' hn'] at hc
        obtain ⟨j, -, hj⟩ := mem_childIds.mp hc
        rw [hk] at hj
        exact hne (NodeId.child_injective hj).1.symm
    · have hopen : r.closedItems (p.child k) = [] := by
        rw [← hk]
        exact closedItems_of_open hclosed.node (by simp [hinv.live n hclosed.node])
      have hshut : r₁.closedItems (p.child k) = memory.map .memorySlot := by
        rw [← hk, closedItems_of_closed hself rfl]
        rfl
      simp only [hbefore, body_append, hfront]
      simp [body, entryItems, hopen, hshut]

theorem TreeInv.visible_closeNode {r r' : SpineReducer} {span : RawSpan} {modelMemory : String}
    (hinv : TreeInv r) (h : r.closeNode span modelMemory = some r') :
    ∃ n p memory r₁, ClosedCursor r span modelMemory n p memory r₁ ∧
      r'.visible = r.visibleAt p ++ memory.map .memorySlot ++ [.sourceSpan span] := by
  obtain ⟨n, p, memory, r₁, hclosed, hframe, hupdate⟩ := closeNode_spec h
  obtain ⟨hshape, hpath⟩ := hinv.of_closedCursor hclosed
  obtain ⟨m, hm⟩ := exists_node hpath.tip_mem
  have hp : p.parts ≠ [] := (hshape.parent_eq p m hm).1
  have hself : r'.node p = some (m.resuming span) := hupdate.node_self hm
  have hother : ∀ id, id ≠ p → r'.node id = r₁.node id := fun _ ↦ hupdate.node_other
  have hitems : ∀ c, r'.closedItems c = r₁.closedItems c := by
    intro c
    by_cases hc : c = p
    · subst hc
      rw [closedItems_of_open hself (by simp [RuntimeNode.resuming])]
      refine (closedItems_of_open hm ?_).symm
      rcases hpath.tip_status m hm with h | h <;> simp [h]
    · exact closedItems_congr (hother c hc)
  refine ⟨n, p, memory, r₁, hclosed, ?_⟩
  rw [← (hinv.visibleAt_of_closedCursor hclosed).2, visible_eq_visibleAt]
  have hcursor : r'.cursor = p := by rw [hframe]
  rw [hcursor]
  refine visibleAt_update_tip hp (by rw [hframe]) hm hself ?_ rfl rfl ?_
  · intro id _ hid
    exact segment_congr (hother id hid) fun _ _ c _ ↦ hitems c
  · rw [body_congr r₁ r' fun c _ ↦ hitems c]
    simp [RuntimeNode.resuming, RuntimeNode.push, body, entryItems]

theorem TreeInv.visible_nextNode {r r' : SpineReducer} {span : RawSpan}
    {summary modelMemory : String} {tokens : Option ℕ} (hinv : TreeInv r)
    (h : r.nextNode span summary modelMemory tokens = some r') (hbound : Bounded r') :
    ∃ n p memory r₁, ClosedCursor r span modelMemory n p memory r₁ ∧
      (∃ j k, r.cursor = p.child j ∧ r'.cursor = p.child k) ∧
      r'.visible = r.visibleAt p ++ memory.map .memorySlot ++
        [.syntheticNode r'.cursor summary .opened, .sourceSpan span] := by
  obtain ⟨n, p, memory, r₁, m, hclosed, hopened⟩ := nextNode_spec h
  obtain ⟨hshape, hpath⟩ := hinv.of_closedCursor hclosed
  have hcursor : r'.cursor = nextChild p m := by rw [hopened.frame]
  obtain ⟨-, j, hj⟩ := NodeId.eq_child_of_parent?
    ((hinv.shape.parent_eq _ n hclosed.node).2 ▸ hclosed.parent)
  refine ⟨n, p, memory, r₁, hclosed, ⟨j, _, hj, hcursor⟩, ?_⟩
  rw [← (hinv.visibleAt_of_closedCursor hclosed).2, hcursor]
  exact visible_of_openedUnder hshape hpath hopened (hopened.fresh hshape hbound)

/-! ## Spawning -/

/-- The slots that one spawned task leaves in the context. -/
def spawnSlots (id : NodeId) (span : RawSpan) (pair : SpawnTask × SpawnResult) : List MemorySlot :=
  [.spawnEvidence id span pair.1 pair.2.outcome pair.2.diagnostic pair.2.executionRef,
    .summary id span pair.2.memoryBody]

/-- The memories of the spawned nodes are the slots of their tasks. -/
theorem flatMap_memory_spawnChildren {p : NodeId} {count : ℕ} {span : RawSpan}
    {pairs : List (SpawnTask × SpawnResult)} (hroom : count + pairs.length < u32Size) :
    (spawnChildren p (u32Succ count) span pairs).flatMap (fun child ↦ child.memory.getD []) =
      (pairs.mapIdx fun k pair ↦ spawnSlots (p.child (count + k + 1)) span pair).flatten := by
  rw [List.flatMap_def, spawnChildren]
  congr 1
  apply List.ext_getElem
  · simp
  · intro k hk _
    have hlt : k < pairs.length := by simpa using hk
    have hordinal := @spawnOrdinal_eq count k (by omega)
    simp [RuntimeNode.spawned, spawnSlots, hordinal]

theorem TreeInv.visible_spawn {r r' : SpineReducer} (hinv : TreeInv r) {span : RawSpan}
    {batches : List (List SpawnTask × List SpawnResult)} (h : r.spawn span batches = some r')
    (hbound : Bounded r') :
    ∃ m, r.node r.cursor = some m ∧ r'.visible = r.visible ++ .sourceSpan span ::
      ((spawnPairs batches).mapIdx fun k pair ↦
        spawnSlots (r.cursor.child (m.children.length + k + 1)) span pair).flatten.map
          .memorySlot := by
  obtain ⟨m, hspawned⟩ := spawn_spec h
  set children := spawnChildren r.cursor (u32Succ m.children.length) span (spawnPairs batches)
  have hp : r.cursor.parts ≠ [] := (hinv.shape.parent_eq _ m hspawned.node).1
  have hcursor : r'.cursor = r.cursor := by rw [hspawned.frame]
  have hself := hspawned.node_cursor
  have hroom := hspawned.room hbound
  have hitems : ∀ c ∈ r.ids, r'.closedItems c = r.closedItems c := by
    intro c hc
    by_cases hcc : c = r.cursor
    · have hlive := hinv.live m hspawned.node
      rw [hcc, closedItems_of_open hspawned.node (by simp [hlive]),
        closedItems_of_open hself (by simp [RuntimeNode.spawning, hlive])]
    · exact closedItems_congr (hspawned.node_old hc hcc)
  have hchild : ∀ child ∈ children,
      r'.closedItems child.id = (child.memory.getD []).map .memorySlot := by
    intro child hmem
    have hnode := hspawned.node_child hinv.shape hroom hmem
    obtain ⟨k, task, result, rfl⟩ := mem_spawnChildren hmem
    exact closedItems_of_closed hnode rfl
  have hslots : children.flatMap (fun child ↦ r'.closedItems child.id) =
      ((spawnPairs batches).mapIdx fun k pair ↦
        spawnSlots (r.cursor.child (m.children.length + k + 1)) span pair).flatten.map
          .memorySlot := by
    rw [List.flatMap_congr hchild, ← flatMap_memory_spawnChildren hroom, List.map_flatMap]
  refine ⟨m, hspawned.node, ?_⟩
  rw [visible_eq_visibleAt, visible_eq_visibleAt, hcursor, ← hslots]
  refine visibleAt_update_tip hp (by rw [hspawned.frame]) hspawned.node hself ?_ rfl rfl ?_
  · intro id hid hne
    have hmem := hinv.shape.pathIds_subset hinv.path.tip_mem id hid
    exact segment_congr (hspawned.node_old hmem hne) fun n hn c hc ↦
      hitems c (hinv.shape.child_mem id n hn c hc)
  · have hbody : r'.body m.entries = r.body m.entries :=
      body_congr r r' fun c hc ↦ hitems c (hinv.shape.child_mem _ m hspawned.node c hc)
    have hentries : (m.spawning span children).entries =
        m.entries ++ .leaf (.sourceSpan span) :: children.map fun child ↦ .child child.id := rfl
    rw [hentries, body_append, hbody]
    simp [body, entryItems, List.flatMap_map]

end SpineCodex.SpineReducer
