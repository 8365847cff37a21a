import SpineCodex.Tree.Lookup

/-!
# The tree invariant

The node list of a reducer is a forest whose ids spell the path from the root.
`Shape` says how ids, parent links and child entries fit together; `Path` says
which nodes are open.  The nodes on the path from the current root to the tip
are exactly the ids that are prefixes of the tip, so the path needs no search.

`Path` is stated for an arbitrary tip: between the two halves of `next` the
cursor node is already closed and the tip is its parent.
-/

namespace SpineCodex.SpineReducer

/-- The ids of the first `count` children of a node, numbered from one. -/
def childIds (id : NodeId) (count : ℕ) : List NodeId :=
  (List.range count).map fun k ↦ id.child (k + 1)

@[simp]
theorem length_childIds (id : NodeId) (count : ℕ) : (childIds id count).length = count := by
  simp [childIds]

theorem childIds_append (id : NodeId) (count more : ℕ) :
    childIds id (count + more) =
      childIds id count ++ (List.range more).map fun k ↦ id.child (count + k + 1) := by
  simp [childIds, List.range_add, Function.comp_def]

theorem mem_childIds {id c : NodeId} {count : ℕ} :
    c ∈ childIds id count ↔ ∃ k < count, c = id.child (k + 1) := by
  simp only [childIds, List.mem_map, List.mem_range]
  exact ⟨fun ⟨k, hk, hc⟩ ↦ ⟨k, hk, hc.symm⟩, fun ⟨k, hk, hc⟩ ↦ ⟨k, hk, hc.symm⟩⟩

theorem nodup_childIds (id : NodeId) (count : ℕ) : (childIds id count).Nodup := by
  apply List.Nodup.map
  · intro j k h
    have := (NodeId.child_injective h).2
    omega
  · exact List.nodup_range

/-! ## Ids, parent links and child entries -/

/-- Ids are distinct and spell the parent links, and the children of a node are numbered
from one without a gap. -/
structure Shape (r : SpineReducer) : Prop where
  ids_nodup : r.ids.Nodup
  parent_eq : ∀ id n, r.node id = some n → id.parts ≠ [] ∧ n.parent = id.parent?
  children_eq : ∀ id n, r.node id = some n → n.children = childIds id n.children.length
  child_mem : ∀ id n, r.node id = some n → ∀ c ∈ n.children, c ∈ r.ids
  parent_mem : ∀ p k, p.parts ≠ [] → p.child k ∈ r.ids →
    ∃ m, r.node p = some m ∧ p.child k ∈ m.children

theorem exists_node {r : SpineReducer} {id : NodeId} (h : id ∈ r.ids) : ∃ n, r.node id = some n :=
  Option.isSome_iff_exists.mp (node_isSome.mpr h)

theorem node_mem_ids {r : SpineReducer} {id : NodeId} {n : RuntimeNode} (h : r.node id = some n) :
    id ∈ r.ids :=
  node_isSome.mp (Option.isSome_iff_exists.mpr ⟨n, h⟩)

/-- A change that keeps ids, parent links and children keeps the shape. -/
theorem Shape.congr {r r' : SpineReducer} (hshape : Shape r) (hids : r'.ids = r.ids)
    (hnodes : ∀ id n', r'.node id = some n' →
      ∃ n, r.node id = some n ∧ n'.parent = n.parent ∧ n'.children = n.children) :
    Shape r' where
  ids_nodup := hids ▸ hshape.ids_nodup
  parent_eq := by
    intro id n' hn'
    obtain ⟨n, hn, hparent, -⟩ := hnodes id n' hn'
    rw [hparent]
    exact hshape.parent_eq id n hn
  children_eq := by
    intro id n' hn'
    obtain ⟨n, hn, -, hchildren⟩ := hnodes id n' hn'
    rw [hchildren]
    exact hshape.children_eq id n hn
  child_mem := by
    intro id n' hn' c hc
    obtain ⟨n, hn, -, hchildren⟩ := hnodes id n' hn'
    rw [hids]
    exact hshape.child_mem id n hn c (hchildren ▸ hc)
  parent_mem := by
    intro p k hp hmem
    rw [hids] at hmem
    obtain ⟨m, hm, hk⟩ := hshape.parent_mem p k hp hmem
    obtain ⟨m', hm'⟩ := exists_node (hids ▸ node_mem_ids hm : p ∈ r'.ids)
    obtain ⟨n, hn, -, hchildren⟩ := hnodes p m' hm'
    obtain rfl : n = m := Option.some.inj (hn.symm.trans hm)
    exact ⟨m', hm', hchildren ▸ hk⟩

/-- The next child id of a node is fresh. -/
theorem Shape.child_fresh {r : SpineReducer} (hshape : Shape r) {p : NodeId} {m : RuntimeNode}
    (hm : r.node p = some m) {k : ℕ} (hk : m.children.length < k) : p.child k ∉ r.ids := by
  intro hmem
  obtain ⟨m', hm', hmem'⟩ := hshape.parent_mem p k (hshape.parent_eq p m hm).1 hmem
  obtain rfl : m' = m := Option.some.inj (hm'.symm.trans hm)
  rw [hshape.children_eq p m' hm] at hmem'
  obtain ⟨j, hj, heq⟩ := mem_childIds.mp hmem'
  have := (NodeId.child_injective heq).2
  omega

/-- `r'` is `r` with the nodes `more` appended and the node `p` replaced by `m'`. -/
structure Extended (r : SpineReducer) (p : NodeId) (m' : RuntimeNode) (more : List RuntimeNode)
    (r' : SpineReducer) : Prop where
  ids_eq : r'.ids = r.ids ++ more.map (·.id)
  node_eq : ∀ id, r'.node id =
    if id = p then some m' else (r.node id).or (KeyedList.lookup RuntimeNode.id more id)

/-- Numbering new childless nodes on from the last child of `p` keeps the shape. -/
theorem Shape.extend {r r' : SpineReducer} (hshape : Shape r) {p : NodeId} {m m' : RuntimeNode}
    {more : List RuntimeNode} (hm : r.node p = some m) (hext : Extended r p m' more r')
    (hparent : m'.parent = m.parent)
    (hids : more.map (·.id) =
      (List.range more.length).map fun k ↦ p.child (m.children.length + k + 1))
    (hchildren : m'.children = m.children ++ more.map (·.id))
    (hmore : ∀ n ∈ more, n.parent = some p ∧ n.children = []) : Shape r' := by
  have hp : p.parts ≠ [] := (hshape.parent_eq p m hm).1
  have hfresh : ∀ c ∈ more.map (·.id), c ∉ r.ids := by
    intro c hc
    rw [hids] at hc
    obtain ⟨k, -, rfl⟩ := List.mem_map.mp hc
    exact hshape.child_fresh hm (by omega)
  have hnew : ∀ c ∈ more.map (·.id), ∃ k, c = p.child k := by
    intro c hc
    rw [hids] at hc
    obtain ⟨k, -, rfl⟩ := List.mem_map.mp hc
    exact ⟨_, rfl⟩
  -- a node of `r'` is the changed parent, an old node or one of the new ones
  have hcases : ∀ id n, r'.node id = some n →
      (id = p ∧ n = m') ∨ (id ≠ p ∧ r.node id = some n) ∨ (id ≠ p ∧ n ∈ more ∧ n.id = id) := by
    intro id n hn
    rw [hext.node_eq] at hn
    split_ifs at hn with hid
    · exact .inl ⟨hid, (Option.some.inj hn).symm⟩
    · rcases Option.or_eq_some_iff.mp hn with hold | ⟨-, hlookup⟩
      · exact .inr (.inl ⟨hid, hold⟩)
      · exact .inr (.inr ⟨hid, KeyedList.lookup_mem hlookup, KeyedList.lookup_key hlookup⟩)
  refine ⟨?_, ?_, ?_, ?_, ?_⟩
  · rw [hext.ids_eq]
    refine List.Nodup.append hshape.ids_nodup ?_ ?_
    · rw [hids]
      refine List.Nodup.map ?_ List.nodup_range
      intro j k h
      have := (NodeId.child_injective h).2
      omega
    · intro c hold hc
      exact hfresh c hc hold
  · intro id n hn
    rcases hcases id n hn with ⟨rfl, rfl⟩ | ⟨-, hold⟩ | ⟨-, hmem, rfl⟩
    · rw [hparent]
      exact hshape.parent_eq id m hm
    · exact hshape.parent_eq id n hold
    · obtain ⟨k, hk⟩ := hnew n.id (List.mem_map_of_mem hmem)
      rw [hk, NodeId.parent?_child hp]
      exact ⟨by simp, (hmore n hmem).1⟩
  · intro id n hn
    rcases hcases id n hn with ⟨rfl, rfl⟩ | ⟨-, hold⟩ | ⟨-, hmem, rfl⟩
    · rw [hchildren, hids, List.length_append, List.length_map, List.length_range,
        childIds_append, ← hshape.children_eq id m hm]
    · exact hshape.children_eq id n hold
    · simp [(hmore n hmem).2, childIds]
  · intro id n hn c hc
    rw [hext.ids_eq, List.mem_append]
    rcases hcases id n hn with ⟨rfl, rfl⟩ | ⟨-, hold⟩ | ⟨-, hmem, rfl⟩
    · rw [hchildren, List.mem_append] at hc
      exact hc.imp_left (hshape.child_mem id m hm c)
    · exact .inl (hshape.child_mem id n hold c hc)
    · simp [(hmore n hmem).2] at hc
  · intro q k hq hmem
    rw [hext.ids_eq, List.mem_append] at hmem
    rcases hmem with hold | hmem
    · obtain ⟨n, hn, hk⟩ := hshape.parent_mem q k hq hold
      by_cases hqp : q = p
      · subst hqp
        obtain rfl : n = m := Option.some.inj (hn.symm.trans hm)
        exact ⟨m', by simp [hext.node_eq], by simp [hchildren, hk]⟩
      · exact ⟨n, by simp [hext.node_eq, hqp, hn], hk⟩
    · obtain ⟨j, hj⟩ := hnew _ hmem
      obtain ⟨rfl, -⟩ := NodeId.child_injective hj
      refine ⟨m', by simp [hext.node_eq], ?_⟩
      rw [hchildren]
      exact List.mem_append_right _ hmem

/-! ## The open path -/

/-- How a node that is not open ended: with its memory, or with its whole epoch. -/
def Done (epoch : ℕ) (n : RuntimeNode) : Prop :=
  (n.status = .closed ∧ n.memory.isSome ∧ n.stop.isSome) ∨
    (n.status = .compacted ∧ n.stop.isSome ∧ n.id.epoch < epoch)

/-- The nodes from the current root down to `tip` are open, and no others.  An open node above
the tip has its open child as its last entry. -/
structure Path (r : SpineReducer) (tip : NodeId) : Prop where
  tip_mem : tip ∈ r.ids
  root_eq : r.currentRoot = .rootEpoch tip.epoch
  epoch_le : ∀ id ∈ r.ids, id.epoch ≤ tip.epoch
  opened : ∀ id n, r.node id = some n → id ≠ tip → id.parts <+: tip.parts → n.status = .opened
  tip_status : ∀ n, r.node tip = some n → n.status = .live ∨ n.status = .opened
  done : ∀ id n, r.node id = some n → ¬id.parts <+: tip.parts → Done tip.epoch n
  open_last : ∀ id n k rest, r.node id = some n → tip.parts = id.parts ++ k :: rest →
    n.entries.getLast? = some (.child (id.child k))
  root_count : r.parents.count none = tip.epoch

/-- Changing only the tip, and keeping it open, keeps the path. -/
theorem Path.update_tip {r r' : SpineReducer} {tip : NodeId} (hpath : Path r tip)
    (hroot : r'.currentRoot = r.currentRoot) (hids : r'.ids = r.ids)
    (hparents : r'.parents = r.parents)
    (hother : ∀ id, id ≠ tip → r'.node id = r.node id)
    (htip : ∀ n', r'.node tip = some n' → n'.status = .live ∨ n'.status = .opened) :
    Path r' tip where
  tip_mem := hids ▸ hpath.tip_mem
  root_eq := hroot.trans hpath.root_eq
  epoch_le := fun id hid ↦ hpath.epoch_le id (hids ▸ hid)
  opened := fun id n hn hne ↦ hpath.opened id n (hother id hne ▸ hn) hne
  tip_status := htip
  done := by
    intro id n hn hpre
    have hne : id ≠ tip := by
      rintro rfl
      exact hpre (List.prefix_refl _)
    exact hpath.done id n (hother id hne ▸ hn) hpre
  open_last := by
    intro id n k rest hn hparts
    have hne : id ≠ tip := by
      rintro rfl
      have := congrArg List.length hparts
      simp at this
    exact hpath.open_last id n k rest (hother id hne ▸ hn) hparts
  root_count := hparents ▸ hpath.root_count

/-- Appending finished nodes below the tip keeps the path. -/
theorem Path.extend {r r' : SpineReducer} {tip : NodeId} {m' : RuntimeNode}
    {more : List RuntimeNode} (hpath : Path r tip) (hroot : r'.currentRoot = r.currentRoot)
    (hparents : r'.parents = r.parents ++ more.map (·.parent))
    (hext : Extended r tip m' more r') (hstatus : m'.status = .live ∨ m'.status = .opened)
    (hbelow : ∀ n ∈ more, ∃ k, n.id = tip.child k) (htip : tip.parts ≠ [])
    (hmore : ∀ n ∈ more, n.parent ≠ none ∧ Done tip.epoch n) : Path r' tip := by
  -- apart from the tip, a node of `r'` is an old node or a finished one below the tip
  have hcases : ∀ id n, id ≠ tip → r'.node id = some n →
      r.node id = some n ∨ (n ∈ more ∧ ∃ k, id = tip.child k) := by
    intro id n hne hn
    rw [hext.node_eq, if_neg hne] at hn
    rcases Option.or_eq_some_iff.mp hn with hold | ⟨-, hlookup⟩
    · exact .inl hold
    · have hmem := KeyedList.lookup_mem hlookup
      obtain ⟨k, hk⟩ := hbelow n hmem
      exact .inr ⟨hmem, k, (KeyedList.lookup_key hlookup).symm.trans hk⟩
  have hlonger : ∀ k, ¬(tip.child k).parts <+: tip.parts := by
    intro k hpre
    have := hpre.length_le
    simp at this
  refine ⟨?_, hroot.trans hpath.root_eq, ?_, ?_, ?_, ?_, ?_, ?_⟩
  · rw [hext.ids_eq]
    exact List.mem_append_left _ hpath.tip_mem
  · intro id hid
    rw [hext.ids_eq, List.mem_append] at hid
    rcases hid with hold | hnew
    · exact hpath.epoch_le id hold
    · obtain ⟨n, hn, rfl⟩ := List.mem_map.mp hnew
      obtain ⟨k, hk⟩ := hbelow n hn
      rw [hk, NodeId.epoch_child htip]
  · intro id n hn hne hpre
    rcases hcases id n hne hn with hold | ⟨-, k, rfl⟩
    · exact hpath.opened id n hold hne hpre
    · exact absurd hpre (hlonger k)
  · intro n hn
    rw [hext.node_eq, if_pos rfl] at hn
    exact Option.some.inj hn ▸ hstatus
  · intro id n hn hpre
    have hne : id ≠ tip := by
      rintro rfl
      exact hpre (List.prefix_refl _)
    rcases hcases id n hne hn with hold | ⟨hmem, -⟩
    · exact hpath.done id n hold hpre
    · exact (hmore n hmem).2
  · intro id n k rest hn hparts
    have hne : id ≠ tip := by
      rintro rfl
      have := congrArg List.length hparts
      simp at this
    rcases hcases id n hne hn with hold | ⟨-, j, rfl⟩
    · exact hpath.open_last id n k rest hold hparts
    · have := congrArg List.length hparts
      simp at this
  · have hcount : (more.map (·.parent)).count none = 0 := by
      rw [List.count_eq_zero]
      intro hmem
      obtain ⟨n, hn, hparent⟩ := List.mem_map.mp hmem
      exact (hmore n hn).1 hparent
    rw [hparents, List.count_append, hcount, hpath.root_count, Nat.add_zero]

/-- Opening a live child below the tip moves the path there. -/
theorem Path.descend {r r' : SpineReducer} {tip : NodeId} {m' child : RuntimeNode} {k : ℕ}
    (hpath : Path r tip) (hroot : r'.currentRoot = r.currentRoot) (htip : tip.parts ≠ [])
    (hparents : r'.parents = r.parents ++ [child.parent]) (hparent : child.parent ≠ none)
    (hext : Extended r tip m' [child] r') (hid : child.id = tip.child k)
    (hstatus : m'.status = .opened) (hlast : m'.entries.getLast? = some (.child (tip.child k)))
    (hlive : child.status = .live) (hfresh : tip.child k ∉ r.ids) : Path r' (tip.child k) := by
  have hepoch : (tip.child k).epoch = tip.epoch := NodeId.epoch_child htip k
  have hself : r'.node (tip.child k) = some child := by
    rw [hext.node_eq, if_neg (NodeId.child_ne tip k), node_eq_none.mpr hfresh]
    simp [KeyedList.lookup, hid]
  have hold : ∀ id, id ≠ tip → id ≠ tip.child k → r'.node id = r.node id := by
    intro id hne hne'
    rw [hext.node_eq, if_neg hne]
    have hnone : KeyedList.lookup RuntimeNode.id [child] id = none := by
      rw [KeyedList.lookup_eq_none]
      simpa [hid] using hne'
    rw [hnone, Option.or_none]
  have htipnode : r'.node tip = some m' := by simp [hext.node_eq]
  refine ⟨?_, ?_, ?_, ?_, ?_, ?_, ?_, ?_⟩
  · simp [hext.ids_eq, hid]
  · rw [hroot, hpath.root_eq, hepoch]
  · intro id hmem
    rw [hepoch]
    rw [hext.ids_eq, List.mem_append] at hmem
    rcases hmem with hmem | hmem
    · exact hpath.epoch_le id hmem
    · obtain rfl : id = tip.child k := by simpa [hid] using hmem
      exact hepoch.le
  · intro id n hn hne hpre
    rw [NodeId.parts_child, List.prefix_concat_iff] at hpre
    rcases hpre with heq | hpre
    · exact absurd (NodeId.ext_parts heq) hne
    · by_cases hit : id = tip
      · subst hit
        obtain rfl := Option.some.inj (htipnode.symm.trans hn)
        exact hstatus
      · exact hpath.opened id n (hold id hit hne ▸ hn) hit hpre
  · intro n hn
    obtain rfl := Option.some.inj (hself.symm.trans hn)
    exact .inl hlive
  · intro id n hn hpre
    rw [NodeId.parts_child, List.prefix_concat_iff, not_or] at hpre
    have hne : id ≠ tip.child k := fun h ↦ hpre.1 (congrArg NodeId.parts h)
    have hit : id ≠ tip := by
      rintro rfl
      exact hpre.2 (List.prefix_refl _)
    rw [hepoch]
    exact hpath.done id n (hold id hit hne ▸ hn) hpre.2
  · intro id n j rest hn hparts
    rw [NodeId.parts_child] at hparts
    rcases List.eq_nil_or_concat rest with rfl | ⟨rest', b, rfl⟩
    · obtain ⟨heq, hj⟩ := List.append_inj' hparts rfl
      obtain rfl : id = tip := NodeId.ext_parts heq.symm
      obtain rfl := Option.some.inj (htipnode.symm.trans hn)
      obtain rfl : k = j := by simpa using hj
      exact hlast
    · have hparts' : tip.parts ++ [k] = (id.parts ++ j :: rest') ++ [b] := by simpa using hparts
      obtain ⟨heq, -⟩ := List.append_inj' hparts' rfl
      have hit : id ≠ tip := by
        rintro rfl
        have := congrArg List.length heq
        simp at this
      have hne : id ≠ tip.child k := by
        rintro rfl
        have := congrArg List.length heq
        simp at this
      exact hpath.open_last id n j rest' (hold id hit hne ▸ hn) heq
  · rw [hparents, List.count_append, hepoch, hpath.root_count]
    simp [hparent]

/-- Closing the tip moves the path to its parent. -/
theorem Path.ascend {r r' : SpineReducer} {p : NodeId} {k : ℕ} {closed : RuntimeNode}
    (hpath : Path r (p.child k)) (hp : p.parts ≠ []) (hpmem : p ∈ r.ids)
    (hroot : r'.currentRoot = r.currentRoot) (hids : r'.ids = r.ids)
    (hparents : r'.parents = r.parents)
    (hnode : ∀ id, r'.node id = if id = p.child k then some closed else r.node id)
    (hdone : Done p.epoch closed) : Path r' p := by
  have hepoch : (p.child k).epoch = p.epoch := NodeId.epoch_child hp k
  have hold : ∀ id, id ≠ p.child k → r'.node id = r.node id := fun id hne ↦ by
    rw [hnode, if_neg hne]
  have hup : ∀ {l : List ℕ}, l <+: p.parts → l <+: (p.child k).parts :=
    fun h ↦ h.trans (List.prefix_append _ _)
  have hshort : ∀ {id : NodeId}, id.parts <+: p.parts → id ≠ p.child k := by
    rintro id hpre rfl
    have := hpre.length_le
    simp at this
  refine ⟨hids ▸ hpmem, ?_, ?_, ?_, ?_, ?_, ?_, ?_⟩
  · rw [hroot, hpath.root_eq, hepoch]
  · intro id hid
    exact hepoch ▸ hpath.epoch_le id (hids ▸ hid)
  · intro id n hn hne hpre
    exact hpath.opened id n (hold id (hshort hpre) ▸ hn) (hshort hpre) (hup hpre)
  · intro n hn
    have hne : p ≠ p.child k := (NodeId.child_ne p k).symm
    exact .inr (hpath.opened p n (hold p hne ▸ hn) hne (hup (List.prefix_refl _)))
  · intro id n hn hpre
    by_cases hid : id = p.child k
    · rw [hnode, if_pos hid] at hn
      obtain rfl := Option.some.inj hn
      exact hdone
    · have hnot : ¬id.parts <+: (p.child k).parts := by
        rw [NodeId.parts_child, List.prefix_concat_iff, not_or]
        exact ⟨fun h ↦ hid (NodeId.ext_parts h), hpre⟩
      exact hepoch ▸ hpath.done id n (hold id hid ▸ hn) hnot
  · intro id n j rest hn hparts
    have hpre : id.parts <+: p.parts := ⟨j :: rest, hparts.symm⟩
    refine hpath.open_last id n j (rest ++ [k]) (hold id (hshort hpre) ▸ hn) ?_
    simp [hparts]
  · rw [hparents, hpath.root_count, hepoch]

end SpineCodex.SpineReducer
