import SpineCodex.Tree.WellFormed

/-!
# The visible context as a flat list

The source renders the tree by recursion.  On a well-formed tree the result is a
flat list: the baseline, and then for each node on the path from the root to the
cursor its marker and its body.  The body of a node is its own items with the
memory of each closed child in the place of the child.
-/

namespace SpineCodex

namespace SpineReducer

/-! ## The path -/

/-- The ids from `id` down along the ordinals `rest`. -/
def pathFrom (id : NodeId) : List ℕ → List NodeId
  | [] => [id]
  | k :: rest => id :: pathFrom (id.child k) rest

/-- The ids from the root of an epoch down to `tip`. -/
def pathIds (tip : NodeId) : List NodeId :=
  match tip.parts with
  | [] => []
  | e :: rest => pathFrom (.rootEpoch e) rest

theorem pathFrom_concat (id : NodeId) (rest : List ℕ) (k : ℕ) :
    pathFrom id (rest ++ [k]) = pathFrom id rest ++ [⟨id.parts ++ rest ++ [k]⟩] := by
  induction rest generalizing id with
  | nil => simp [pathFrom, NodeId.child]
  | cons j rest ih => simp [pathFrom, ih, NodeId.child]

theorem mem_pathFrom {id x : NodeId} {rest : List ℕ} :
    x ∈ pathFrom id rest ↔ id.parts <+: x.parts ∧ x.parts <+: id.parts ++ rest := by
  induction rest generalizing id with
  | nil =>
    simp only [pathFrom, List.mem_singleton, List.append_nil]
    constructor
    · rintro rfl
      exact ⟨List.prefix_refl _, List.prefix_refl _⟩
    · rintro ⟨hle, hge⟩
      exact NodeId.ext_parts (hge.eq_of_length (Nat.le_antisymm hge.length_le hle.length_le))
  | cons k rest ih =>
    have hassoc : id.parts ++ k :: rest = id.parts ++ [k] ++ rest := by simp
    simp only [pathFrom, List.mem_cons, ih, NodeId.parts_child, hassoc]
    constructor
    · rintro (rfl | ⟨hle, hge⟩)
      · exact ⟨List.prefix_refl _, by simp⟩
      · exact ⟨(List.prefix_append _ _).trans hle, hge⟩
    · rintro ⟨⟨more, hmore⟩, hge⟩
      cases more with
      | nil => exact .inl (NodeId.ext_parts (by simpa using hmore.symm))
      | cons j more =>
        right
        rw [← hmore] at hge ⊢
        have hj : j = k := by
          rw [List.append_assoc, List.prefix_append_right_inj] at hge
          simpa using (List.cons_prefix_cons.mp hge).1
        subst hj
        exact ⟨⟨more, by simp⟩, hge⟩

theorem mem_pathIds {tip x : NodeId} :
    x ∈ pathIds tip ↔ x.parts ≠ [] ∧ x.parts <+: tip.parts := by
  unfold pathIds
  cases htip : tip.parts with
  | nil => simp
  | cons e rest =>
    simp only [mem_pathFrom, NodeId.parts_rootEpoch, List.singleton_append]
    constructor
    · rintro ⟨hle, hge⟩
      refine ⟨?_, hge⟩
      rintro hnil
      simp [hnil] at hle
    · rintro ⟨hne, hge⟩
      refine ⟨?_, hge⟩
      cases hx : x.parts with
      | nil => exact absurd hx hne
      | cons d more =>
        rw [hx] at hge
        have hde := (List.cons_prefix_cons.mp hge).1
        simp [hde]

theorem pathIds_child {p : NodeId} (hp : p.parts ≠ []) (k : ℕ) :
    pathIds (p.child k) = pathIds p ++ [p.child k] := by
  unfold pathIds
  cases hparts : p.parts with
  | nil => exact absurd hparts hp
  | cons e rest =>
    simp only [NodeId.parts_child, hparts, List.cons_append, pathFrom_concat,
      NodeId.parts_rootEpoch]
    simp [NodeId.child, hparts]

/-- Every nonempty prefix of a node's id is a node. -/
theorem Shape.prefix_mem {r : SpineReducer} (hshape : Shape r) {l : List ℕ} (hl : l ≠ []) :
    ∀ more : List ℕ, (⟨l ++ more⟩ : NodeId) ∈ r.ids → (⟨l⟩ : NodeId) ∈ r.ids := by
  intro more
  induction more using List.reverseRecOn with
  | nil => simp
  | append_singleton more k ih =>
    intro hmem
    have hchild : (⟨l ++ (more ++ [k])⟩ : NodeId) = NodeId.child ⟨l ++ more⟩ k := by
      simp [NodeId.child]
    rw [hchild] at hmem
    obtain ⟨m, hm, -⟩ := hshape.parent_mem ⟨l ++ more⟩ k (by simp [hl]) hmem
    exact ih (node_mem_ids hm)

theorem Shape.pathIds_subset {r : SpineReducer} (hshape : Shape r) {tip : NodeId}
    (htip : tip ∈ r.ids) : ∀ id ∈ pathIds tip, id ∈ r.ids := by
  intro id hid
  obtain ⟨hne, more, hmore⟩ := mem_pathIds.mp hid
  apply hshape.prefix_mem hne more
  rw [hmore]
  exact htip

theorem nodup_pathFrom (id : NodeId) (rest : List ℕ) : (pathFrom id rest).Nodup := by
  induction rest generalizing id with
  | nil => simp [pathFrom]
  | cons k rest ih =>
    rw [pathFrom, List.nodup_cons]
    refine ⟨?_, ih _⟩
    intro hmem
    have := (mem_pathFrom.mp hmem).1.length_le
    simp at this

theorem nodup_pathIds (tip : NodeId) : (pathIds tip).Nodup := by
  unfold pathIds
  split
  · exact List.nodup_nil
  · exact nodup_pathFrom _ _

theorem length_pathFrom (id : NodeId) (rest : List ℕ) :
    (pathFrom id rest).length = rest.length + 1 := by
  induction rest generalizing id with
  | nil => rfl
  | cons k rest ih => simp [pathFrom, ih]

/-- The path fits in the node list, so that the number of nodes is enough fuel to render it. -/
theorem Shape.depth_le {r : SpineReducer} (hshape : Shape r) {tip : NodeId} (htip : tip ∈ r.ids) :
    tip.parts.length ≤ r.nodes.length := by
  have hlen : (pathIds tip).length = tip.parts.length := by
    unfold pathIds
    split
    · rename_i hparts
      simp [hparts]
    · rename_i e rest hparts
      simp [hparts, length_pathFrom]
  have hle := (List.subperm_of_subset (nodup_pathIds tip) (hshape.pathIds_subset htip)).length_le
  simpa [ids, hlen] using hle

/-! ## The flat form -/

/-- The memory that a closed node shows in the place of its own entries. -/
def closedItems (r : SpineReducer) (id : NodeId) : List ContextItem :=
  match r.node id with
  | some n => if n.status = .closed then (n.memory.getD []).map .memorySlot else []
  | none => []

def entryItems (r : SpineReducer) : NodeEntry → List ContextItem
  | .leaf item => [item]
  | .child id => r.closedItems id

/-- The items of a node itself, without those of its open child. -/
def body (r : SpineReducer) (entries : List NodeEntry) : List ContextItem :=
  entries.flatMap r.entryItems

/-- The item that announces an open task. -/
def marker (n : RuntimeNode) : ContextItem := .syntheticNode n.id (n.summary.getD "") .opened

/-- What one node of the path contributes: a task its marker and its body, a root its body. -/
def segment (r : SpineReducer) (id : NodeId) : List ContextItem :=
  match r.node id with
  | some n => (if n.parent.isNone then [] else [marker n]) ++ r.body n.entries
  | none => []

/-- The visible context, as a flat list. -/
def visible (r : SpineReducer) : List ContextItem :=
  r.baseline ++ (pathIds r.cursor).flatMap r.segment

/-! ## Rendering computes the flat form -/

/-- The ids that the child entries of a list name. -/
def entryChildren (entries : List NodeEntry) : List NodeId := entries.filterMap NodeEntry.child?

theorem renderEntries_eq {f : NodeId → Option (List ContextItem)}
    {g : NodeEntry → List ContextItem} (hleaf : ∀ item, g (.leaf item) = [item])
    {entries : List NodeEntry} (hchild : ∀ c ∈ entryChildren entries, f c = some (g (.child c))) :
    renderEntries f entries = some (entries.flatMap g) := by
  induction entries with
  | nil => rfl
  | cons entry entries ih =>
    cases entry with
    | leaf item =>
      have htail := ih (by simpa [entryChildren, NodeEntry.child?] using hchild)
      simp [renderEntries, htail, hleaf]
    | child c =>
      simp only [entryChildren, List.filterMap_cons, NodeEntry.child?, List.mem_cons,
        forall_eq_or_imp] at hchild
      have htail := ih hchild.2
      simp [renderEntries, hchild.1, htail]

theorem renderEntries_append {f : NodeId → Option (List ContextItem)} {xs ys : List NodeEntry}
    {items items' : List ContextItem} (hxs : renderEntries f xs = some items)
    (hys : renderEntries f ys = some items') :
    renderEntries f (xs ++ ys) = some (items ++ items') := by
  induction xs generalizing items with
  | nil =>
    obtain rfl := Option.some.inj hxs
    simpa using hys
  | cons entry xs ih =>
    cases entry with
    | leaf item =>
      obtain ⟨tail, htail, h⟩ := Option.bind_eq_some_iff.mp hxs
      obtain rfl := Option.some.inj h
      simp [renderEntries, ih htail]
    | child c =>
      obtain ⟨here, hhere, h⟩ := Option.bind_eq_some_iff.mp hxs
      obtain ⟨tail, htail, h⟩ := Option.bind_eq_some_iff.mp h
      obtain rfl := Option.some.inj h
      simp [renderEntries, hhere, ih htail]

/-- A node of the current epoch that is not on the path is closed. -/
theorem Path.closed_of_not_prefix {r : SpineReducer} {tip c : NodeId} (hpath : Path r tip)
    (hc : c ∈ r.ids) (hepoch : c.epoch = tip.epoch) (hnot : ¬c.parts <+: tip.parts) :
    ∃ n, r.node c = some n ∧ n.status = .closed := by
  obtain ⟨n, hn⟩ := exists_node hc
  rcases hpath.done c n hn hnot with ⟨hclosed, -⟩ | ⟨-, -, hlt⟩
  · exact ⟨n, hn, hclosed⟩
  · rw [node_id hn, hepoch] at hlt
    exact absurd hlt (Nat.lt_irrefl _)

theorem renderNode_closed {r : SpineReducer} {c : NodeId} {n : RuntimeNode}
    (hn : r.node c = some n) (hclosed : n.status = .closed) {fuel : ℕ} (hfuel : 0 < fuel) :
    r.renderNode fuel c = some (r.closedItems c) := by
  obtain ⟨f, rfl⟩ := Nat.exists_eq_succ_of_ne_zero hfuel.ne'
  simp [renderNode, closedItems, hn, hclosed]

theorem closedItems_of_open {r : SpineReducer} {c : NodeId} {n : RuntimeNode}
    (hn : r.node c = some n) (hopen : n.status ≠ .closed) : r.closedItems c = [] := by
  simp [closedItems, hn, hopen]

/-- Among the children of a node on the path, only the next path node is not closed. -/
theorem Path.child_closed {r : SpineReducer} {tip id c : NodeId} {n : RuntimeNode}
    (hshape : Shape r) (hpath : Path r tip) (hn : r.node id = some n)
    (hid : id.parts <+: tip.parts) (hc : c ∈ n.children) (hnot : ¬c.parts <+: tip.parts) :
    ∃ m, r.node c = some m ∧ m.status = .closed := by
  refine hpath.closed_of_not_prefix (hshape.child_mem id n hn c hc) ?_ hnot
  have hne := (hshape.parent_eq id n hn).1
  rw [hshape.children_eq id n hn] at hc
  obtain ⟨k, -, rfl⟩ := mem_childIds.mp hc
  rw [NodeId.epoch_child hne]
  obtain ⟨rest, hrest⟩ := hid
  cases hparts : id.parts with
  | nil => exact absurd hparts hne
  | cons e tail => simp [NodeId.epoch, hparts, ← hrest]

/-- Rendering the entries of a path node gives its body and then the rest of the path. -/
theorem Path.renderEntries_eq {r : SpineReducer} {tip : NodeId} (hshape : Shape r)
    (hpath : Path r tip) (rest : List ℕ) :
    ∀ {id : NodeId} {n : RuntimeNode} {fuel : ℕ}, r.node id = some n →
      tip.parts = id.parts ++ rest → rest.length < fuel →
      renderEntries (r.renderNode fuel) n.entries =
        some (r.body n.entries ++ ((pathFrom id rest).tail.flatMap r.segment)) := by
  induction rest with
  | nil =>
    intro id n fuel hn htip hfuel
    have hrender : renderEntries (r.renderNode fuel) n.entries = some (n.entries.flatMap r.entryItems) := by
      refine SpineReducer.renderEntries_eq (fun _ ↦ rfl) fun c hc ↦ ?_
      have hid : id.parts <+: tip.parts := by simp [htip]
      have hnot : ¬c.parts <+: tip.parts := by
        intro hpre
        have hc' : c ∈ childIds id n.children.length := hshape.children_eq id n hn ▸ hc
        obtain ⟨k, -, rfl⟩ := mem_childIds.mp hc'
        have := hpre.length_le
        simp [htip] at this
      obtain ⟨m, hm, hclosed⟩ := hpath.child_closed hshape hn hid hc hnot
      exact renderNode_closed hm hclosed (by omega)
    simpa [pathFrom, body] using hrender
  | cons k rest ih =>
    intro id n fuel hn htip hfuel
    have hne := (hshape.parent_eq id n hn).1
    have hid : id.parts <+: tip.parts := by simp [htip]
    -- the open child is the last entry, and every entry before it is closed
    obtain ⟨before, hbefore⟩ := List.getLast?_eq_some_iff.mp (hpath.open_last id n k rest hn htip)
    have hchildren : n.children = entryChildren before ++ [id.child k] := by
      simp [RuntimeNode.children, entryChildren, hbefore, NodeEntry.child?]
    have hfront : renderEntries (r.renderNode fuel) before = some (r.body before) := by
      refine SpineReducer.renderEntries_eq (fun _ ↦ rfl) fun c hc ↦ ?_
      have hmem : c ∈ n.children := by simp [hchildren, hc]
      have hnot : ¬c.parts <+: tip.parts := by
        intro hpre
        have hc' := hmem
        rw [hshape.children_eq id n hn] at hc'
        obtain ⟨j, -, rfl⟩ := mem_childIds.mp hc'
        have hsame : id.child (j + 1) = id.child k := by
          apply NodeId.ext_parts
          have hk : (id.child k).parts <+: tip.parts := by simp [htip]
          exact (List.prefix_of_prefix_length_le hpre hk (by simp)).eq_of_length (by simp)
        have hnodup : (entryChildren before ++ [id.child k]).Nodup := by
          rw [← hchildren, hshape.children_eq id n hn]
          exact nodup_childIds id _
        rw [hsame] at hc
        exact (List.disjoint_of_nodup_append hnodup) hc (List.mem_singleton.mpr rfl)
      obtain ⟨m, hm, hclosed⟩ := hpath.child_closed hshape hn hid hmem hnot
      exact renderNode_closed hm hclosed (by omega)
    obtain ⟨m, hm⟩ := exists_node (hshape.child_mem id n hn (id.child k) (by simp [hchildren]))
    have hparent : m.parent = some id := by
      rw [(hshape.parent_eq _ m hm).2, NodeId.parent?_child hne]
    have hpre : (id.child k).parts <+: tip.parts := by simp [htip]
    have hopen : m.status = .live ∨ m.status = .opened := by
      by_cases heq : id.child k = tip
      · exact hpath.tip_status m (heq ▸ hm)
      · exact .inr (hpath.opened _ m hm heq hpre)
    obtain ⟨f, rfl⟩ : ∃ f, fuel = f + 1 := ⟨fuel - 1, by simp at hfuel; omega⟩
    have htail := ih hm (by simp [htip]) (by simpa using hfuel)
    have hchild : r.renderNode (f + 1) (id.child k) =
        some ((pathFrom (id.child k) rest).flatMap r.segment) := by
      have hsegment : r.segment (id.child k) = marker m :: r.body m.entries := by
        simp [segment, hm, hparent]
      have hhead : pathFrom (id.child k) rest =
          id.child k :: (pathFrom (id.child k) rest).tail := by
        cases rest <;> rfl
      rw [hhead, List.flatMap_cons, hsegment]
      rcases hopen with h | h <;> simp [renderNode, hm, h, htail, marker]
    have hlast : renderEntries (r.renderNode (f + 1)) [.child (id.child k)] =
        some ((pathFrom (id.child k) rest).flatMap r.segment) := by
      simp [renderEntries, hchild]
    have hbody : r.body n.entries = r.body before := by
      have hnil : r.closedItems (id.child k) = [] :=
        closedItems_of_open hm (by rcases hopen with h | h <;> simp [h])
      simp [body, hbefore, entryItems, hnil]
    rw [hbody]
    nth_rewrite 1 [hbefore]
    exact renderEntries_append hfront hlast

/-- On a well-formed tree the rendering returns, and it returns the flat form. -/
theorem TreeInv.renderCurrentEpoch_eq {r : SpineReducer} (hinv : TreeInv r) :
    r.renderCurrentEpoch = some r.visible := by
  obtain ⟨n, hn, hne, -⟩ := hinv.cursor_node
  cases hparts : r.cursor.parts with
  | nil => exact absurd hparts hne
  | cons e rest =>
    have hroot : r.currentRoot = .rootEpoch e := by
      rw [hinv.path.root_eq]
      simp [NodeId.epoch, hparts]
    have hmem : NodeId.rootEpoch e ∈ r.ids := by
      apply hinv.shape.pathIds_subset hinv.path.tip_mem
      rw [mem_pathIds, hparts]
      simp
    obtain ⟨m, hm⟩ := exists_node hmem
    have hparent : m.parent = none := (hinv.shape.parent_eq _ m hm).2
    have hdepth := hinv.shape.depth_le hinv.path.tip_mem
    have hrender := hinv.path.renderEntries_eq hinv.shape rest hm (by simp [hparts])
      (show rest.length < r.nodes.length by simp [hparts] at hdepth; omega)
    have hpath : pathIds r.cursor = .rootEpoch e :: (pathFrom (.rootEpoch e) rest).tail := by
      unfold pathIds
      rw [hparts]
      cases rest <;> rfl
    simp [renderCurrentEpoch, hroot, hm, hrender, visible, hpath, segment, hparent]

theorem TreeInv.projection_eq {r : SpineReducer} (hinv : TreeInv r) :
    r.projection = some {
      nodes := r.nodes.map RuntimeNode.snapshot
      cursor := r.cursor
      visibleContext := r.visible
      lastBoundary := r.lastBoundary } := by
  simp [projection, hinv.renderCurrentEpoch_eq]

end SpineReducer

end SpineCodex
