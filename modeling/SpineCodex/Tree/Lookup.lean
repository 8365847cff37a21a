import SpineCodex.Lib.KeyedList
import SpineCodex.Spine.Reducer

/-!
# Node lookups

What each tree transition does to the nodes, said through the lookup by id.
Later proofs use these equations and never the positions in the node list.
-/

namespace SpineCodex

namespace NodeId

/-- The root epoch that a node belongs to. -/
def epoch (id : NodeId) : ℕ := id.parts.headD 0

/-- The id that the parent of a node must have. -/
def parent? (id : NodeId) : Option NodeId :=
  if id.parts.dropLast = [] then none else some ⟨id.parts.dropLast⟩

@[simp]
theorem parts_child (id : NodeId) (k : ℕ) : (id.child k).parts = id.parts ++ [k] := rfl

@[simp]
theorem parts_rootEpoch (e : ℕ) : (rootEpoch e).parts = [e] := rfl

@[simp]
theorem epoch_rootEpoch (e : ℕ) : (rootEpoch e).epoch = e := rfl

@[simp]
theorem parent?_rootEpoch (e : ℕ) : (rootEpoch e).parent? = none := rfl

theorem ext_parts {a b : NodeId} (h : a.parts = b.parts) : a = b := by
  cases a
  cases b
  simpa using h

theorem child_injective {p q : NodeId} {j k : ℕ} (h : p.child j = q.child k) : p = q ∧ j = k := by
  have hparts : p.parts ++ [j] = q.parts ++ [k] := congrArg NodeId.parts h
  obtain ⟨hpq, hjk⟩ := List.append_inj' hparts rfl
  exact ⟨ext_parts hpq, by simpa using hjk⟩

theorem child_ne (p : NodeId) (k : ℕ) : p.child k ≠ p := by
  intro h
  have hlen := congrArg (fun id ↦ id.parts.length) h
  simp at hlen

theorem parent?_child {p : NodeId} (hp : p.parts ≠ []) (k : ℕ) : (p.child k).parent? = some p := by
  simp [parent?, hp]

theorem epoch_child {p : NodeId} (hp : p.parts ≠ []) (k : ℕ) : (p.child k).epoch = p.epoch := by
  unfold epoch
  cases hparts : p.parts with
  | nil => exact absurd hparts hp
  | cons e rest => simp [hparts]

/-- A node with a parent is a child of it. -/
theorem eq_child_of_parent? {id p : NodeId} (h : id.parent? = some p) :
    p.parts ≠ [] ∧ ∃ k, id = p.child k := by
  unfold parent? at h
  split_ifs at h with hnil
  obtain rfl := Option.some.inj h
  have hne : id.parts ≠ [] := by
    intro hid
    simp [hid] at hnil
  refine ⟨hnil, id.parts.getLast hne, ext_parts ?_⟩
  simp [List.dropLast_append_getLast]

end NodeId

namespace RuntimeNode

theorem children_push_child (node : RuntimeNode) (id : NodeId) :
    (node.push (.child id)).children = node.children ++ [id] := by
  simp [children, push, NodeEntry.child?]

theorem children_push_leaf (node : RuntimeNode) (item : ContextItem) :
    (node.push (.leaf item)).children = node.children := by
  simp [children, push, NodeEntry.child?]

theorem children_spawning (span : RawSpan) (children : List RuntimeNode) (node : RuntimeNode) :
    (node.spawning span children).children = node.children ++ children.map (·.id) := by
  simp only [RuntimeNode.children, spawning, List.filterMap_append, List.filterMap_cons,
    NodeEntry.child?, List.filterMap_map, Function.comp_def]
  simp

@[simp]
theorem children_task (id parent : NodeId) (span : RawSpan) (summary : String)
    (tokens : Option ℕ) : (task id parent span summary tokens).children = [] := rfl

@[simp]
theorem children_root (epoch : ℕ) (start : RawBoundary) : (root epoch start).children = [] := rfl

@[simp]
theorem children_spawned (id parent : NodeId) (span : RawSpan) (spawnTask : SpawnTask)
    (result : SpawnResult) : (spawned id parent span spawnTask result).children = [] := rfl

@[simp]
theorem id_compacting (epoch : ℕ) (boundary : RawBoundary) (node : RuntimeNode) :
    (compacting epoch boundary node).id = node.id := by
  unfold compacting
  split_ifs <;> rfl

@[simp]
theorem parent_compacting (epoch : ℕ) (boundary : RawBoundary) (node : RuntimeNode) :
    (compacting epoch boundary node).parent = node.parent := by
  unfold compacting
  split_ifs <;> rfl

@[simp]
theorem entries_compacting (epoch : ℕ) (boundary : RawBoundary) (node : RuntimeNode) :
    (compacting epoch boundary node).entries = node.entries := by
  unfold compacting
  split_ifs <;> rfl

end RuntimeNode

namespace SpineReducer

/-- The ids in the order of creation. -/
def ids (r : SpineReducer) : List NodeId := r.nodes.map (·.id)

/-- The parent links in the order of creation. -/
def parents (r : SpineReducer) : List (Option NodeId) := r.nodes.map (·.parent)

theorem node_eq_lookup (r : SpineReducer) (id : NodeId) :
    r.node id = KeyedList.lookup RuntimeNode.id r.nodes id :=
  KeyedList.getElem?_of_index r.nodes id

theorem node_id {r : SpineReducer} {id : NodeId} {n : RuntimeNode} (h : r.node id = some n) :
    n.id = id := by
  rw [node_eq_lookup] at h
  exact KeyedList.lookup_key h

theorem node_mem {r : SpineReducer} {id : NodeId} {n : RuntimeNode} (h : r.node id = some n) :
    n ∈ r.nodes := by
  rw [node_eq_lookup] at h
  exact KeyedList.lookup_mem h

theorem node_of_mem {r : SpineReducer} (hnodup : r.ids.Nodup) {n : RuntimeNode}
    (h : n ∈ r.nodes) : r.node n.id = some n := by
  rw [node_eq_lookup]
  exact (KeyedList.lookup_eq_some hnodup).mpr ⟨h, rfl⟩

theorem node_isSome {r : SpineReducer} {id : NodeId} : (r.node id).isSome ↔ id ∈ r.ids := by
  rw [node_eq_lookup]
  exact KeyedList.lookup_isSome

theorem node_eq_none {r : SpineReducer} {id : NodeId} : r.node id = none ↔ id ∉ r.ids := by
  rw [node_eq_lookup]
  exact KeyedList.lookup_eq_none

/-- Two reducers with the same nodes look nodes up alike. -/
theorem node_congr {r r' : SpineReducer} (h : r'.nodes = r.nodes) (id : NodeId) :
    r'.node id = r.node id := by
  rw [node_eq_lookup, node_eq_lookup, h]

theorem node_append (r r' : SpineReducer) (more : List RuntimeNode)
    (h : r'.nodes = r.nodes ++ more) (id : NodeId) :
    r'.node id = (r.node id).or (KeyedList.lookup RuntimeNode.id more id) := by
  rw [node_eq_lookup, node_eq_lookup, h]
  exact KeyedList.lookup_append r.nodes more id

/-! ## Updating one node -/

/-- What `updateNode` returns: the update happens exactly when the node exists. -/
theorem updateNode_isSome (r : SpineReducer) (id : NodeId) (f : RuntimeNode → RuntimeNode) :
    (r.updateNode id f).isSome = (r.node id).isSome := by
  have hindex : (KeyedList.index RuntimeNode.id r.nodes id).isSome = _ :=
    KeyedList.index_isSome r.nodes id
  rw [node_eq_lookup, ← hindex]
  unfold updateNode nodeIndex KeyedList.index
  cases r.nodes.findIdx? fun node ↦ node.id == id <;> rfl

/-- Everything `updateNode` does, for an update that keeps ids and parent links. -/
structure Updated (r : SpineReducer) (id : NodeId) (f : RuntimeNode → RuntimeNode)
    (r' : SpineReducer) : Prop where
  frame : r' = { r with nodes := r'.nodes }
  ids_eq : r'.ids = r.ids
  parents_eq : r'.parents = r.parents
  length_eq : r'.nodes.length = r.nodes.length
  node_eq : ∀ id', r'.node id' = if id' = id then (r.node id).map f else r.node id'

theorem updateNode_spec {r r' : SpineReducer} {id : NodeId} {f : RuntimeNode → RuntimeNode}
    (h : r.updateNode id f = some r') (hid : ∀ n, (f n).id = n.id)
    (hparent : ∀ n, (f n).parent = n.parent) : Updated r id f r' := by
  unfold updateNode at h
  cases hindex : r.nodeIndex id with
  | none => simp [hindex] at h
  | some i =>
    simp only [hindex, Option.bind_eq_bind, Option.bind_some, Option.some.injEq] at h
    subst h
    refine ⟨rfl, ?_, ?_, ?_, ?_⟩
    · exact KeyedList.map_key_modify hid r.nodes i
    · exact KeyedList.map_key_modify hparent r.nodes i
    · simp
    · intro id'
      simp only [node_eq_lookup]
      exact KeyedList.lookup_modify_index hid hindex id'

theorem Updated.node_self {r r' : SpineReducer} {id : NodeId} {f : RuntimeNode → RuntimeNode}
    (h : Updated r id f r') {n : RuntimeNode} (hn : r.node id = some n) :
    r'.node id = some (f n) := by
  rw [h.node_eq, if_pos rfl, hn, Option.map_some]

theorem Updated.node_other {r r' : SpineReducer} {id id' : NodeId}
    {f : RuntimeNode → RuntimeNode} (h : Updated r id f r') (hne : id' ≠ id) :
    r'.node id' = r.node id' := by
  rw [h.node_eq, if_neg hne]

end SpineReducer

end SpineCodex
