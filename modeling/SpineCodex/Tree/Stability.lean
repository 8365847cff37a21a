import SpineCodex.Tree.Reachable

/-!
# Prefix stability of the visible context

Within an epoch the context that the model sees grows at its end, except when a
task is closed: then everything from the marker of the task on is replaced by the
memory of the task.
-/

namespace SpineCodex.SpineReducer

open Relation

/-- A call of the reducer whose event, if it is one, is not synthetic. -/
inductive PlainStep (r : SpineReducer) : SpineReducer → Prop
  | event (event : RolloutEvent) {r' : SpineReducer} {projection : SpineProjection}
      (hplain : ∀ boundary item, event ≠ .synthetic boundary item)
      (h : r.apply event = some (r', projection)) : PlainStep r r'
  | sampling (span : RawSpan) (facts : List ExecutedSpineFact) (tokens : Option ℕ)
      {r' : SpineReducer} {projection : SpineProjection} (hfacts : StructuralFacts facts)
      (h : r.applySampling span facts tokens = .ok (r', projection)) : PlainStep r r'

/-- The states of a run without synthetic events in which the ordinals never run out. -/
def PlainReachable : SpineReducer → Prop :=
  ReflTransGen (fun r r' ↦ PlainStep r r' ∧ Bounded r') new

theorem PlainReachable.treeInv {r : SpineReducer} (h : PlainReachable r) : TreeInv r := by
  apply ReachableBounded.treeInv
  refine ReflTransGen.mono ?_ _ _ h
  rintro r r' ⟨hstep, hbound⟩
  refine ⟨?_, hbound⟩
  cases hstep with
  | event event _ h => exact .event event h
  | sampling span facts tokens hfacts h => exact .sampling span facts tokens hfacts h

/-! ## The leaves come from source -/

/-- Every leaf of the tree is a plain item. -/
def AllPlain (r : SpineReducer) : Prop := ∀ id n, r.node id = some n → PlainLeaves n.entries

theorem PlainLeaves.append {xs ys : List NodeEntry} (hxs : PlainLeaves xs) (hys : PlainLeaves ys) :
    PlainLeaves (xs ++ ys) := by
  intro item hitem
  rcases List.mem_append.mp hitem with h | h
  · exact hxs item h
  · exact hys item h

theorem PlainLeaves.singleton {item : ContextItem} (h : PlainItem item) :
    PlainLeaves [.leaf item] := by
  intro item' hitem
  obtain rfl : item' = item := by simpa using hitem
  exact h

theorem PlainLeaves.children (children : List NodeId) :
    PlainLeaves (children.map .child) := by
  intro item hitem
  simp at hitem

theorem AllPlain.updated {r r' : SpineReducer} {id : NodeId} {f : RuntimeNode → RuntimeNode}
    (hplain : AllPlain r) (hupdate : Updated r id f r')
    (hf : ∀ n, PlainLeaves n.entries → PlainLeaves (f n).entries) : AllPlain r' := by
  intro id' n' hn'
  rw [hupdate.node_eq] at hn'
  split_ifs at hn' with hid
  · obtain ⟨n, hn, rfl⟩ := Option.map_eq_some_iff.mp hn'
    exact hf n (hplain id n hn)
  · exact hplain id' n' hn'

theorem AllPlain.extended {r r' : SpineReducer} {p : NodeId} {m' : RuntimeNode}
    {more : List RuntimeNode} (hplain : AllPlain r) (hext : Extended r p m' more r')
    (hm' : PlainLeaves m'.entries) (hmore : ∀ n ∈ more, PlainLeaves n.entries) : AllPlain r' := by
  intro id n hn
  rw [hext.node_eq] at hn
  split_ifs at hn
  · exact Option.some.inj hn ▸ hm'
  · rcases Option.or_eq_some_iff.mp hn with hold | ⟨-, hnew⟩
    · exact hplain id n hold
    · exact hmore n (KeyedList.lookup_mem hnew)

theorem AllPlain.openedUnder {r r' : SpineReducer} {p : NodeId} {span : RawSpan} {summary : String}
    {tokens : Option ℕ} {m : RuntimeNode} (hplain : AllPlain r)
    (hopened : OpenedUnder r p span summary tokens m r') : AllPlain r' := by
  refine hplain.extended hopened.ext ?_ ?_
  · exact (hplain p m hopened.node).append (.children [nextChild p m])
  · intro n hn
    obtain rfl := List.mem_singleton.mp hn
    exact .singleton (.span span)

theorem AllPlain.closedCursor {r r' : SpineReducer} {span : RawSpan} {modelMemory : String}
    {n : RuntimeNode} {p : NodeId} {memory : List MemorySlot} (hplain : AllPlain r)
    (hclosed : ClosedCursor r span modelMemory n p memory r') : AllPlain r' :=
  hplain.updated hclosed.update fun _ h ↦ h

theorem AllPlain.sampling {r r' : SpineReducer} {span : RawSpan} {facts : List ExecutedSpineFact}
    {tokens : Option ℕ} (hplain : AllPlain r) (h : SamplingCase r span tokens facts r') :
    AllPlain r' := by
  cases h with
  | plain h =>
    exact hplain.updated (pushCursorEntry_spec h) fun n hn ↦ hn.append (.singleton (.span span))
  | openNode _ h =>
    obtain ⟨m, hopened⟩ := openUnder_spec h
    exact hplain.openedUnder hopened
  | closeNode _ _ h =>
    obtain ⟨n, p, memory, r₁, hclosed, -, hupdate⟩ := closeNode_spec h
    have hplain' := (hplain.closedCursor hclosed).updated hupdate fun n hn ↦
      hn.append (.singleton (.span span))
    exact fun id n hn ↦ hplain' id n hn
  | nextNode _ _ h =>
    obtain ⟨n, p, memory, r₁, m, hclosed, hopened⟩ := nextNode_spec h
    exact (hplain.closedCursor hclosed).openedUnder hopened
  | spawn _ _ h =>
    obtain ⟨m, hspawned⟩ := spawn_spec h
    refine hplain.extended hspawned.ext ?_ ?_
    · refine (hplain _ m hspawned.node).append ?_
      intro item hitem
      obtain rfl : item = .sourceSpan span := by simpa using hitem
      exact .span span
    · intro n hn
      obtain ⟨k, task, result, rfl⟩ := mem_spawnChildren hn
      intro item hitem
      simp [RuntimeNode.spawned] at hitem

/-- The message item that a source message becomes is plain. -/
theorem AllPlain.applyMessage {r r' : SpineReducer} {m : Message} (hplain : AllPlain r)
    (h : r.applyMessage m = some r') : AllPlain r' := by
  unfold SpineReducer.applyMessage at h
  split_ifs at h with hrole
  · have hplain' : AllPlain { r with nextUserAnchor := r.nextUserAnchor + 1 } :=
      fun id n hn ↦ hplain id n hn
    exact hplain'.updated (pushCursorEntry_spec h) fun n hn ↦
      hn.append (.singleton (.message m _ (by simp [hrole])))
  · exact hplain.updated (pushCursorEntry_spec h) fun n hn ↦
      hn.append (.singleton (.message m _ (by simp [hrole])))

theorem AllPlain.transition {r r' : SpineReducer} {event : RolloutEvent} (hplain : AllPlain r)
    (hevent : ∀ boundary item, event ≠ .synthetic boundary item)
    (h : r.transition event = some r') : AllPlain r' := by
  cases event with
  | message m => exact hplain.applyMessage h
  | sourceSpan span bytes =>
    exact hplain.updated (pushCursorEntry_spec h) fun n hn ↦ hn.append (.singleton (.span span))
  | opaqueItem boundary =>
    exact hplain.updated (pushCursorEntry_spec h) fun n hn ↦
      hn.append (.singleton (.native boundary))
  | synthetic boundary item => exact absurd rfl (hevent boundary item)
  | compact boundary history =>
    obtain ⟨epoch, hcompact⟩ := applyCompact_spec h
    intro id n hn
    rw [hcompact.node_eq] at hn
    rcases Option.or_eq_some_iff.mp hn with hold | ⟨-, hnew⟩
    · obtain ⟨n₀, hn₀, rfl⟩ := Option.map_eq_some_iff.mp hold
      rw [RuntimeNode.entries_compacting]
      exact hplain id n₀ hn₀
    · split_ifs at hnew
      obtain rfl := Option.some.inj hnew
      intro item hitem
      simp [RuntimeNode.root] at hitem

theorem allPlain_new : AllPlain new := by
  intro id n hn
  obtain rfl : n = .root 1 0 := by simpa [new] using node_mem hn
  intro item hitem
  simp [RuntimeNode.root] at hitem

theorem AllPlain.congr {r r' : SpineReducer} (hplain : AllPlain r) (hnodes : r'.nodes = r.nodes) :
    AllPlain r' := by
  intro id n hn
  exact hplain id n (node_congr hnodes id ▸ hn)

theorem PlainReachable.allPlain {r : SpineReducer} (h : PlainReachable r) : AllPlain r := by
  induction h with
  | refl => exact allPlain_new
  | @tail r₁ r₂ _ hstep ih =>
    cases hstep.1 with
    | event event hplain h =>
      have hr₁ : AllPlain { r₁ with lastBoundary := some event.boundary } := ih.congr rfl
      exact hr₁.transition hplain (apply_eq_some h).1
    | sampling span facts tokens _ h =>
      have hr₁ : AllPlain { r₁ with lastBoundary := some span.stop } := ih.congr rfl
      exact hr₁.sampling (applySampling_eq_ok h).1

/-! ## The marker of the cursor -/

/-- What a closed task leaves of one item of its body: the anchored user messages and the memory
slots. -/
def memOf (owner : NodeId) : ContextItem → List MemorySlot
  | .message m (some anchor) => [.user owner m anchor]
  | .memorySlot slot => [slot]
  | _ => []

/-- The items of a body are source items or memory slots. -/
theorem AllPlain.mem_body {r : SpineReducer} {entries : List NodeEntry} (hleaf : PlainLeaves entries)
    {item : ContextItem} (hitem : item ∈ r.body entries) :
    PlainItem item ∨ ∃ slot, item = .memorySlot slot := by
  obtain ⟨entry, hentry, hitem⟩ := List.mem_flatMap.mp hitem
  cases entry with
  | leaf leaf =>
    obtain rfl := List.mem_singleton.mp hitem
    exact .inl (hleaf _ hentry)
  | child c =>
    right
    rw [entryItems, closedItems] at hitem
    split at hitem
    · split_ifs at hitem
      · obtain ⟨slot, -, rfl⟩ := List.mem_map.mp hitem
        exact ⟨slot, rfl⟩
      · simp at hitem
    · simp at hitem

theorem keptSlots_eq_memOf (owner : NodeId) {item : ContextItem}
    (h : PlainItem item ∨ ∃ slot, item = .memorySlot slot) :
    keptSlots owner item = memOf owner item := by
  rcases h with h | ⟨slot, rfl⟩
  · cases h with
    | message m anchor hanchor =>
      cases anchor with
      | none => simp [keptSlots, userSlot, memOf]
      | some a => simp_all [keptSlots, userSlot, memOf]
    | span span => rfl
    | native boundary => rfl
  · rfl

/-- The memory that closing the cursor makes of its body. -/
def closedMemory (r : SpineReducer) (body : List ContextItem) (span : RawSpan) (memory : String) :
    List MemorySlot :=
  body.flatMap (memOf r.cursor) ++ [.summary r.cursor span memory]

/-- The context splits at the marker of the cursor: what is before it, and the body after it. -/
structure CursorSplit (r : SpineReducer) (context before body : List ContextItem) : Prop where
  eq : ∃ summary, context = before ++ .syntheticNode r.cursor summary .opened :: body
  unique : (∀ summary status, .syntheticNode r.cursor summary status ∉ r.baseline) ↔
    ∀ before' summary status body',
      context = before' ++ .syntheticNode r.cursor summary status :: body' →
        before' = before ∧ body' = body

/-- Only the marker of the cursor names the cursor, apart from what the epoch started with. -/
theorem AllPlain.marker_notMem {r : SpineReducer} (hplain : AllPlain r)
    {p : NodeId} (hp : p.parts.length < r.cursor.parts.length)
    (hbase : ∀ summary status, .syntheticNode r.cursor summary status ∉ r.baseline)
    (summary : String) (status : NodeStatus) :
    .syntheticNode r.cursor summary status ∉ r.visibleAt p := by
  intro hmem
  rcases List.mem_append.mp hmem with h | h
  · exact hbase summary status h
  · obtain ⟨id, hid, hitem⟩ := List.mem_flatMap.mp h
    have hlen := (mem_pathIds.mp hid).2.length_le
    rw [segment] at hitem
    split at hitem
    · rename_i n hn
      rcases List.mem_append.mp hitem with hmarker | hbody
      · split_ifs at hmarker
        · simp at hmarker
        · have hcursor : r.cursor = id := by
            have := List.mem_singleton.mp hmarker
            rw [marker, ContextItem.syntheticNode.injEq] at this
            exact this.1.trans (node_id hn)
          rw [← hcursor] at hlen
          omega
      · rcases AllPlain.mem_body (hplain id n hn) hbody with h | ⟨slot, h⟩
        · cases h
        · simp at h
    · simp at hitem

/-- The split at the cursor, and the memory that closing the cursor makes of the body. -/
theorem TreeInv.cursorSplit {r r₁ : SpineReducer} {span : RawSpan} {modelMemory : String}
    {n : RuntimeNode} {p : NodeId} {memory : List MemorySlot} (hinv : TreeInv r)
    (hplain : AllPlain r) (hclosed : ClosedCursor r span modelMemory n p memory r₁) :
    CursorSplit r r.visible (r.visibleAt p) (r.body n.entries) ∧
      memory = closedMemory r (r.body n.entries) span modelMemory := by
  have hid : n.id = r.cursor := node_id hclosed.node
  have hsplit := (hinv.visibleAt_of_closedCursor hclosed).1
  rw [marker, hid] at hsplit
  have hparent : r.cursor.parent? = some p :=
    (hinv.shape.parent_eq _ n hclosed.node).2 ▸ hclosed.parent
  obtain ⟨-, k, hk⟩ := NodeId.eq_child_of_parent? hparent
  have hlen : p.parts.length < r.cursor.parts.length := by simp [hk]
  have hleaf := hplain _ n hclosed.node
  refine ⟨⟨⟨_, hsplit⟩, ?_, ?_⟩, ?_⟩
  · intro hbase before' summary status body' h
    have hbody : .syntheticNode r.cursor summary status ∉ r.body n.entries := by
      intro hmem
      rcases AllPlain.mem_body hleaf hmem with h | ⟨slot, h⟩
      · cases h
      · simp at h
    have hfront := hplain.marker_notMem hlen hbase summary status
    rw [hsplit] at h
    have hparts := (List.append_cons_inj_of_notMem hfront hbody).mp h
    exact ⟨hparts.1.symm, hparts.2.2.symm⟩
  · intro hunique summary status hmem
    obtain ⟨front, back, hbase⟩ := List.append_of_mem hmem
    have hother : r.visible = front ++ .syntheticNode r.cursor summary status ::
        (back ++ (pathIds r.cursor).flatMap r.segment) := by
      rw [visible_eq_visibleAt, visibleAt, hbase]
      simp
    have hfront := congrArg List.length (hunique _ _ _ _ hother).1
    rw [visibleAt, hbase] at hfront
    simp at hfront
  · have hkids : ∀ c ∈ entryChildren n.entries, ∃ m, r.node c = some m ∧ m.status = .closed := by
      intro c hc
      refine hinv.path.child_closed hinv.shape hclosed.node (List.prefix_refl _) hc ?_
      intro hpre
      have hc' : c ∈ n.children := hc
      rw [hinv.shape.children_eq _ n hclosed.node] at hc'
      obtain ⟨j, -, rfl⟩ := mem_childIds.mp hc'
      have := hpre.length_le
      simp at this
    have hmemory := hclosed.memory_eq
    rw [assembleMemory, entryMemory_eq hleaf hkids, hid] at hmemory
    rw [← Option.some.inj hmemory, closedMemory]
    congr 1
    exact List.flatMap_congr fun item hitem ↦
      keptSlots_eq_memOf _ (AllPlain.mem_body hleaf hitem)

/-! ## One transition -/

/-- The item that a source event leaves in the context. -/
def sourceItem (r : SpineReducer) : RolloutEvent → Option ContextItem
  | .message m => some (.message m (if m.role = .user then some r.nextUserAnchor else none))
  | .sourceSpan span _ => some (.sourceSpan span)
  | .opaqueItem boundary => some (.native (.rollout boundary))
  | .synthetic _ _ | .compact _ _ => none

/-- A source event appends its item to the cursor; only a user message moves the anchors. -/
theorem transition_eq_push {r : SpineReducer} {event : RolloutEvent} {item : ContextItem}
    (hitem : r.sourceItem event = some item) : ∃ next,
      r.transition event = { r with nextUserAnchor := next }.pushCursorEntry (.leaf item) := by
  cases event with
  | message m =>
    obtain rfl := Option.some.inj hitem
    by_cases hrole : m.role = .user
    · exact ⟨r.nextUserAnchor + 1, by simp [SpineReducer.transition, applyMessage, hrole]⟩
    · exact ⟨r.nextUserAnchor, by simp [SpineReducer.transition, applyMessage, hrole]⟩
  | sourceSpan span bytes =>
    obtain rfl := Option.some.inj hitem
    exact ⟨r.nextUserAnchor, rfl⟩
  | opaqueItem boundary =>
    obtain rfl := Option.some.inj hitem
    exact ⟨r.nextUserAnchor, rfl⟩
  | synthetic boundary item => simp [sourceItem] at hitem
  | compact boundary history => simp [sourceItem] at hitem

/-- How each transition within an epoch changes the visible context. -/
structure PrefixStable (r : SpineReducer) (context : List ContextItem) : Prop where
  source : ∀ event item r' after, r.sourceItem event = some item →
    r.apply event = some (r', after) → after.visibleContext = context ++ [item]
  factFree : ∀ span tokens r' after, r.applySampling span [] tokens = .ok (r', after) →
    after.visibleContext = context ++ [.sourceSpan span]
  openNode : ∀ span fact summary tokens r' after, fact.operation = .openNode summary →
    r.applySampling span [fact] tokens = .ok (r', after) → Bounded r' →
      ∃ k, r'.cursor = r.cursor.child k ∧ after.visibleContext =
        context ++ [.syntheticNode r'.cursor summary .opened, .sourceSpan span]
  spawn : ∀ span facts tokens r' after, facts ≠ [] →
    (∀ fact ∈ facts, fact.operation.spawnBatch?.isSome) →
    r.applySampling span facts tokens = .ok (r', after) → Bounded r' →
      ∃ first, after.visibleContext = context ++ .sourceSpan span ::
        ((spawnPairs (facts.filterMap (·.operation.spawnBatch?))).mapIdx fun k pair ↦
          spawnSlots (r.cursor.child (first + k)) span pair).flatten.map .memorySlot
  closeNode : ∀ span fact memory tokens r' after, fact.operation = .closeNode memory →
    r.applySampling span [fact] tokens = .ok (r', after) →
      ∃ before body, CursorSplit r context before body ∧ after.visibleContext =
        before ++ (closedMemory r body span memory).map .memorySlot ++ [.sourceSpan span]
  nextNode : ∀ span fact memory summary tokens r' after,
    fact.operation = .nextNode memory summary →
    r.applySampling span [fact] tokens = .ok (r', after) → Bounded r' →
      ∃ before body, CursorSplit r context before body ∧
        (∃ p : NodeId, ∃ j k, r.cursor = p.child j ∧ r'.cursor = p.child k) ∧
        after.visibleContext = before ++ (closedMemory r body span memory).map .memorySlot ++
          [.syntheticNode r'.cursor summary .opened, .sourceSpan span]

theorem SamplingCase.spawn_of_facts {r r' : SpineReducer} {span : RawSpan} {tokens : Option ℕ}
    {facts : List ExecutedSpineFact} (h : SamplingCase r span tokens facts r') (hne : facts ≠ [])
    (hfacts : ∀ fact ∈ facts, fact.operation.spawnBatch?.isSome) :
    r.spawn span (facts.filterMap (·.operation.spawnBatch?)) = some r' := by
  cases h with
  | plain => exact absurd rfl hne
  | openNode hfact => simp [hfact, SpineOperationFact.spawnBatch?] at hfacts
  | closeNode hfact => simp [hfact, SpineOperationFact.spawnBatch?] at hfacts
  | nextNode hfact => simp [hfact, SpineOperationFact.spawnBatch?] at hfacts
  | spawn _ _ h => exact h

theorem TreeInv.visibleContext_eq {r : SpineReducer} {projection : SpineProjection}
    (hinv : TreeInv r) (h : r.projection = some projection) :
    projection.visibleContext = r.visible := by
  rw [hinv.projection_eq] at h
  rw [← Option.some.inj h]

/-- In a run without synthetic events every transition within an epoch extends the visible
context, or replaces the marker and the body of the cursor by the memory of the body. -/
theorem prefixStable_of_plainReachable {r : SpineReducer} {before : SpineProjection}
    (hr : PlainReachable r) (hbefore : r.projection = some before) :
    PrefixStable r before.visibleContext := by
  have hinv := hr.treeInv
  have hplain := hr.allPlain
  rw [hinv.visibleContext_eq hbefore]
  refine ⟨?_, ?_, ?_, ?_, ?_, ?_⟩
  · intro event item r' after hitem h
    obtain ⟨htransition, hafter⟩ := apply_eq_some h
    obtain ⟨next, hpush⟩ := transition_eq_push (r := { r with lastBoundary := some event.boundary })
      hitem
    rw [hpush] at htransition
    have hinv₁ : TreeInv { r with lastBoundary := some event.boundary, nextUserAnchor := next } :=
      hinv.congr rfl rfl rfl
    rw [(hinv₁.pushCursorEntry htransition).visibleContext_eq hafter,
      hinv₁.visible_pushCursorEntry htransition]
    rfl
  · intro span tokens r' after h
    obtain ⟨hcase, hafter⟩ := applySampling_eq_ok h
    have hinv₀ : TreeInv { r with lastBoundary := some span.stop } := hinv.congr rfl rfl rfl
    cases hcase with
    | plain hpush =>
      rw [(hinv₀.pushCursorEntry hpush).visibleContext_eq hafter,
        hinv₀.visible_pushCursorEntry hpush]
      rfl
    | spawn hne => exact absurd rfl hne
  · intro span fact summary tokens r' after hfact h hbound
    obtain ⟨hcase, hafter⟩ := applySampling_eq_ok h
    have hinv₀ : TreeInv { r with lastBoundary := some span.stop } := hinv.congr rfl rfl rfl
    rw [(hinv₀.sampling hcase hbound).visibleContext_eq hafter]
    cases hcase with
    | openNode hfact' hopen =>
      obtain rfl : summary = _ := by simpa [hfact] using hfact'
      obtain ⟨m, hopened⟩ := openUnder_spec hopen
      have hcursor : r'.cursor = nextChild r.cursor m := by rw [hopened.frame]
      refine ⟨_, hcursor, ?_⟩
      rw [visible_of_openedUnder hinv₀.shape hinv₀.path hopened
        (hopened.fresh hinv₀.shape hbound), hcursor]
      rfl
    | closeNode hfact' => simp [hfact] at hfact'
    | nextNode hfact' => simp [hfact] at hfact'
    | spawn _ hfacts => simp [hfact, SpineOperationFact.spawnBatch?] at hfacts
  · intro span facts tokens r' after hne hfacts h hbound
    obtain ⟨hcase, hafter⟩ := applySampling_eq_ok h
    have hinv₀ : TreeInv { r with lastBoundary := some span.stop } := hinv.congr rfl rfl rfl
    rw [(hinv₀.sampling hcase hbound).visibleContext_eq hafter]
    obtain ⟨m, -, hvisible⟩ := hinv₀.visible_spawn (hcase.spawn_of_facts hne hfacts) hbound
    refine ⟨m.children.length + 1, ?_⟩
    rw [hvisible]
    simp only [Nat.add_right_comm]
    rfl
  · intro span fact memory tokens r' after hfact h
    obtain ⟨hcase, hafter⟩ := applySampling_eq_ok h
    have hinv₀ : TreeInv { r with lastBoundary := some span.stop } := hinv.congr rfl rfl rfl
    have hplain₀ : AllPlain { r with lastBoundary := some span.stop } := hplain.congr rfl
    cases hcase with
    | openNode hfact' => simp [hfact] at hfact'
    | closeNode hfact' _ hclose =>
      obtain rfl : memory = _ := by simpa [hfact] using hfact'
      rw [(hinv₀.closeNode hclose).visibleContext_eq hafter]
      obtain ⟨n, p, slots, r₁, hclosed, hvisible⟩ := hinv₀.visible_closeNode hclose
      obtain ⟨hsplit, rfl⟩ := hinv₀.cursorSplit hplain₀ hclosed
      exact ⟨_, _, ⟨hsplit.eq, hsplit.unique⟩, hvisible⟩
    | nextNode hfact' => simp [hfact] at hfact'
    | spawn _ hfacts => simp [hfact, SpineOperationFact.spawnBatch?] at hfacts
  · intro span fact memory summary tokens r' after hfact h hbound
    obtain ⟨hcase, hafter⟩ := applySampling_eq_ok h
    have hinv₀ : TreeInv { r with lastBoundary := some span.stop } := hinv.congr rfl rfl rfl
    have hplain₀ : AllPlain { r with lastBoundary := some span.stop } := hplain.congr rfl
    rw [(hinv₀.sampling hcase hbound).visibleContext_eq hafter]
    cases hcase with
    | openNode hfact' => simp [hfact] at hfact'
    | closeNode hfact' => simp [hfact] at hfact'
    | nextNode hfact' _ hnext =>
      obtain ⟨rfl, rfl⟩ : memory = _ ∧ summary = _ := by simpa [hfact] using hfact'
      obtain ⟨n, p, slots, r₁, hclosed, hsibling, hvisible⟩ := hinv₀.visible_nextNode hnext hbound
      obtain ⟨hsplit, rfl⟩ := hinv₀.cursorSplit hplain₀ hclosed
      exact ⟨_, _, ⟨hsplit.eq, hsplit.unique⟩, ⟨p, hsibling⟩, hvisible⟩
    | spawn _ hfacts => simp [hfact, SpineOperationFact.spawnBatch?] at hfacts

/-- A run that reads a user message and then opens a task meets the hypotheses. -/
theorem prefixStable_after_open : ∃ r before, PlainReachable r ∧ r.cursor = ⟨[1, 1]⟩ ∧
    r.projection = some before ∧ PrefixStable r before.visibleContext := by
  have hmessage : PlainReachable _ := .tail .refl
    ⟨.event (.message ⟨2, .user, "hello"⟩) (by simp) rfl, by decide⟩
  have hopen : PlainReachable _ := .tail hmessage
    ⟨.sampling ⟨3, 4⟩ [⟨⟨⟨"t", by decide⟩, "t-execution-0", by decide⟩, 0, .direct "call",
      .openNode "task"⟩] none (.inl (by decide)) rfl, by decide⟩
  exact ⟨_, _, hopen, rfl, rfl, prefixStable_of_plainReachable hopen rfl⟩

/-- The items that an epoch starts with may name the cursor: then the context has two splits. -/
theorem exists_two_cursor_splits : ∃ r before, PlainReachable r ∧ r.cursorKind = some .task ∧
    r.projection = some before ∧ ∃ front₁ body₁ front₂ body₂ summary,
      before.visibleContext = front₁ ++ .syntheticNode r.cursor summary .opened :: body₁ ∧
      before.visibleContext = front₂ ++ .syntheticNode r.cursor summary .opened :: body₂ ∧
      front₁ ≠ front₂ := by
  have hcompact : PlainReachable _ := .tail .refl
    ⟨.event (.compact 1 [.syntheticNode ⟨[2, 1]⟩ "task" .opened]) (by simp) rfl, by decide⟩
  have hopen : PlainReachable _ := .tail hcompact
    ⟨.sampling ⟨3, 4⟩ [⟨⟨⟨"t", by decide⟩, "t-execution-0", by decide⟩, 0, .direct "call",
      .openNode "task"⟩] none (.inl (by decide)) rfl, by decide⟩
  exact ⟨_, _, hopen, rfl, rfl, [], _, [.syntheticNode ⟨[2, 1]⟩ "task" .opened], _, "task", rfl,
    rfl, by simp⟩

end SpineCodex.SpineReducer
