import SpineCodex.Context.Events
import SpineCodex.Lib.Traversal

/-!
# The events between two stacks

What a host does with a batch of events, and that the batch between two stacks leads from the
one to the other.  An insert of a new synthetic cell does not carry the boundary of its
character, so that the host has to know it.
-/

namespace SpineCodex

/-! ## Carrying out events -/

namespace ContextEvent

variable (boundaryOf : ℕ → RawBoundary) (snapshot : List ParseCell)

/-- The cell that an insert stands for; existing cells come unlabelled from the snapshot. -/
def resolve : ContextInsert → Option ParseCell
  | .existing cellId sourceIndex =>
      (snapshot[sourceIndex]?.filter (·.id = cellId)).map (·.withLabels [])
  | .synthetic cellId item => some ⟨cellId, .synthetic (boundaryOf cellId) item, []⟩

/-- One event, carried out on a context. -/
def perform (context : List ParseCell) : ContextEvent → Option (List ParseCell)
  | .tag index label =>
      if index < context.length then
        some (context.modify index fun cell ↦ cell.withLabels (cell.labels ++ [label]))
      else none
  | .splice start delete insert =>
      if start + delete ≤ context.length then do
        let cells ← insert.mapM (resolve boundaryOf snapshot)
        some (context.take start ++ cells ++ context.drop (start + delete))
      else none

/-- A batch of events, carried out in order. -/
def performAll (context : List ParseCell) (events : List ContextEvent) : Option (List ParseCell) :=
  events.foldlM (perform boundaryOf snapshot) context

variable {boundaryOf snapshot} {context result : List ParseCell} {events more : List ContextEvent}

theorem performAll_cons {event : ContextEvent} :
    performAll boundaryOf snapshot context (event :: events) =
      (perform boundaryOf snapshot context event).bind
        fun next ↦ performAll boundaryOf snapshot next events := rfl

theorem performAll_append : performAll boundaryOf snapshot context (events ++ more) =
    (performAll boundaryOf snapshot context events).bind
      fun next ↦ performAll boundaryOf snapshot next more :=
  List.foldlM_append

/-- Events that can be carried out have the resulting size. -/
theorem sizeAfter_of_perform {event : ContextEvent}
    (h : perform boundaryOf snapshot context event = some result) :
    sizeAfter context.length event = .ok result.length := by
  cases event with
  | tag index label =>
    simp only [perform, Option.ite_none_right_eq_some, Option.some.injEq] at h
    obtain ⟨hlt, rfl⟩ := h
    rw [List.length_modify]
    simp [sizeAfter, Outcome.require, hlt]
  | splice start delete insert =>
    simp only [perform, Option.ite_none_right_eq_some, Option.bind_eq_bind,
      Option.bind_eq_some_iff, Option.some.injEq] at h
    obtain ⟨hle, cells, hcells, rfl⟩ := h
    have hlength : cells.length = insert.length := option_mapM_length hcells
    have hsize : (context.take start ++ cells ++ context.drop (start + delete)).length =
        context.length - delete + insert.length := by
      rw [List.length_append, List.length_append, List.length_take, List.length_drop, hlength]
      omega
    rw [hsize]
    simp [sizeAfter, Outcome.require, hle]

theorem resultingSize_of_performAll (h : performAll boundaryOf snapshot context events = some result) :
    resultingSize context.length events = .ok result.length := by
  induction events generalizing context with
  | nil =>
    cases h
    rfl
  | cons event rest ih =>
    rw [performAll_cons, Option.bind_eq_some_iff] at h
    obtain ⟨next, hnext, hrest⟩ := h
    unfold resultingSize
    rw [List.foldlM_cons, sizeAfter_of_perform hnext]
    exact ih hrest

/-- Labels put on one cell, one after the other. -/
theorem performAll_tags (done rest : List ParseCell) (cell : ParseCell)
    (labels : List ContextLabel) :
    performAll boundaryOf snapshot (done ++ cell :: rest) (labels.map (.tag done.length)) =
      some (done ++ cell.withLabels (cell.labels ++ labels) :: rest) := by
  induction labels generalizing cell with
  | nil => simp [performAll, ParseCell.withLabels]
  | cons label labels ih =>
    have hperform : perform boundaryOf snapshot (done ++ cell :: rest) (.tag done.length label) =
        some (done ++ cell.withLabels (cell.labels ++ [label]) :: rest) := by
      have hlt : done.length < (done ++ cell :: rest).length := by simp
      rw [perform, if_pos hlt, List.modify_eq_take_cons_drop hlt]
      simp
    rw [List.map_cons, performAll_cons, hperform, Option.bind_some, ih]
    simp [ParseCell.withLabels]

end ContextEvent

/-! ## The batch between two stacks -/

/-- Every cell of the new stack is a cell of the old one with the same character, or a new
synthetic cell whose boundary the host knows. -/
def Derivable (boundaryOf : ℕ → RawBoundary) (before after : List ParseCell) : Prop :=
  ∀ cell ∈ after,
    (∃ source ∈ before, source.id = cell.id ∧ source.character = cell.character) ∨
      (∀ source ∈ before, source.id ≠ cell.id) ∧
        ∃ item, cell.character = .synthetic (boundaryOf cell.id) item

section Between

open ContextEvent

variable {E : Type} {boundaryOf : ℕ → RawBoundary} {before after : List ParseCell}

/-- The position of an id is that of its cell. -/
theorem getElem?_of_sourceIndex (hnodup : (before.map ParseCell.id).Nodup) {source : ParseCell}
    (hsource : source ∈ before) :
    ∃ index, sourceIndex before source.id = some index ∧ before[index]? = some source := by
  have hlookup : KeyedList.lookup ParseCell.id before source.id = some source :=
    (KeyedList.lookup_eq_some hnodup).2 ⟨hsource, rfl⟩
  rw [← KeyedList.getElem?_of_index] at hlookup
  obtain ⟨index, hindex, hcell⟩ := Option.bind_eq_some_iff.1 hlookup
  exact ⟨index, hindex, hcell⟩

theorem sourceIndex_eq_none {id : ℕ} (h : ∀ source ∈ before, source.id ≠ id) :
    sourceIndex before id = none := by
  unfold sourceIndex KeyedList.index
  rw [List.findIdx?_eq_none_iff]
  intro source hsource
  simpa using h source hsource

/-- A cell of the new stack whose id is in the old one is the same cell there. -/
theorem Derivable.resolve_existing (hcells : Derivable boundaryOf before after)
    (hnodup : (before.map ParseCell.id).Nodup) {target : ParseCell} (htarget : target ∈ after)
    {index : ℕ} (hindex : sourceIndex before target.id = some index) :
    resolve boundaryOf before (.existing target.id index) = some (target.withLabels []) := by
  rcases hcells target htarget with ⟨source, hsource, hid, hcharacter⟩ | ⟨hnew, -⟩
  · obtain ⟨index', hindex', hfound⟩ := getElem?_of_sourceIndex hnodup hsource
    rw [hid, hindex, Option.some.injEq] at hindex'
    rw [← hindex'] at hfound
    simp [resolve, hfound, hid, hcharacter, ParseCell.withLabels]
  · rw [sourceIndex_eq_none hnew] at hindex
    cases hindex

/-- Every cell of the new stack can be inserted, and the insert stands for it. -/
theorem insertOf_spec (hnodup : (before.map ParseCell.id).Nodup)
    (hcells : Derivable boundaryOf before after) {cell : ParseCell} (hcell : cell ∈ after) :
    ∃ insert, (insertOf before cell : Outcome (SpineContextRuntimeError E) _) = .ok insert ∧
      resolve boundaryOf before insert = some (cell.withLabels []) := by
  rcases hcells cell hcell with ⟨source, hsource, hid, hcharacter⟩ | ⟨hnew, item, hcharacter⟩
  · obtain ⟨index, hindex, -⟩ := getElem?_of_sourceIndex hnodup hsource
    rw [hid] at hindex
    refine ⟨.existing cell.id index, ?_, hcells.resolve_existing hnodup hcell hindex⟩
    simp [insertOf, hindex]
  · refine ⟨.synthetic cell.id item, ?_, ?_⟩
    · simp [insertOf, sourceIndex_eq_none hnew, hcharacter]
    · simp [resolve, hcharacter, ParseCell.withLabels]

theorem insertsOf_spec (hnodup : (before.map ParseCell.id).Nodup)
    (hcells : Derivable boundaryOf before after) {cells : List ParseCell}
    (hsub : ∀ cell ∈ cells, cell ∈ after) :
    ∃ inserts, (insertsOf before cells : Outcome (SpineContextRuntimeError E) _) = .ok inserts ∧
      inserts.mapM (resolve boundaryOf before) = some (cells.map (·.withLabels [])) := by
  induction cells with
  | nil => exact ⟨[], rfl, rfl⟩
  | cons cell rest ih =>
    obtain ⟨insert, hinsert, hresolve⟩ := insertOf_spec (E := E) hnodup hcells (hsub cell List.mem_cons_self)
    obtain ⟨inserts, hinserts, hrest⟩ := ih fun cell hcell ↦ hsub cell (List.mem_cons_of_mem _ hcell)
    refine ⟨insert :: inserts, ?_, ?_⟩
    · simp [insertsOf, hinsert, hinserts]
    · simp [hresolve, hrest]

/-- The stack after the splice: the common ends keep their labels, the middle has none. -/
def spliced (before after : List ParseCell) : List ParseCell :=
  before.take (commonPrefixLength before after) ++
    (afterMiddle before after).map (·.withLabels []) ++ before.drop (beforeMiddleEnd before after)

variable (before after) in
/-- The common ends do not overlap. -/
theorem ends_le : commonPrefixLength before after ≤ beforeMiddleEnd before after ∧
    commonPrefixLength before after ≤ afterMiddleEnd before after ∧
    commonSuffixLength before after ≤ before.length ∧
    commonSuffixLength before after ≤ after.length := by
  obtain ⟨hmax, hbefore, hafter⟩ :=
    CommonEnds.agreeing_le sameCellSource (maxSuffix before after) before.reverse after.reverse
  obtain ⟨-, hbefore', hafter'⟩ :=
    CommonEnds.agreeing_le sameCellSource before.length before after
  rw [List.length_reverse] at hbefore hafter
  unfold beforeMiddleEnd afterMiddleEnd commonSuffixLength
  unfold maxSuffix commonPrefixLength at *
  omega

theorem structuralEvents_spec (hnodup : (before.map ParseCell.id).Nodup)
    (hcells : Derivable boundaryOf before after) :
    ∃ events, (structuralEvents before after : Outcome (SpineContextRuntimeError E) _) = .ok events ∧
      performAll boundaryOf before before events = some (spliced before after) := by
  obtain ⟨hbefore, hafter, hsuffix, -⟩ := ends_le before after
  have hend : commonPrefixLength before after +
      (beforeMiddleEnd before after - commonPrefixLength before after) =
        beforeMiddleEnd before after := by
    omega
  unfold structuralEvents
  split_ifs with hchanged
  · have hsub : ∀ cell ∈ afterMiddle before after, cell ∈ after := fun cell hcell ↦
      List.mem_of_mem_take (List.mem_of_mem_drop hcell)
    obtain ⟨inserts, hinserts, hresolve⟩ := insertsOf_spec (E := E) hnodup hcells hsub
    refine ⟨_, by rw [hinserts]; rfl, ?_⟩
    have hle : beforeMiddleEnd before after ≤ before.length := Nat.sub_le _ _
    simp [performAll, perform, hend, hle, hresolve, spliced]
  · obtain ⟨hequal, hequal'⟩ : commonPrefixLength before after = beforeMiddleEnd before after ∧
        commonPrefixLength before after = afterMiddleEnd before after := by
      omega
    refine ⟨[], rfl, ?_⟩
    have hmiddle : afterMiddle before after = [] := by
      rw [afterMiddle, List.drop_eq_nil_iff, List.length_take]
      omega
    simp [performAll, spliced, hmiddle, ← hequal]

/-- A cell of the old stack, found again by the id of the same cell of the new one. -/
theorem labels_of_same (hnodup : (before.map ParseCell.id).Nodup) {source target : ParseCell}
    (hsource : source ∈ before) (hsame : sameCellSource source target = true) :
    source = target.withLabels
      ((((sourceIndex before target.id).bind (before[·]?)).map ParseCell.labels).getD []) := by
  obtain ⟨hid, hcharacter⟩ : source.id = target.id ∧ source.character = target.character := by
    simpa [sameCellSource] using hsame
  obtain ⟨index, hindex, hfound⟩ := getElem?_of_sourceIndex hnodup hsource
  rw [← hid, hindex, Option.bind_some, hfound, Option.map_some, Option.getD_some]
  cases source
  cases target
  simp_all [ParseCell.withLabels]

variable (before after) in
/-- The new stack in three parts, each with its positions. -/
theorem map_zipIdx_after (f : ParseCell × ℕ → ParseCell) :
    after.zipIdx.map f =
      ((after.take (commonPrefixLength before after)).zipIdx).map f ++
        ((afterMiddle before after).zipIdx (commonPrefixLength before after)).map f ++
        ((after.drop (afterMiddleEnd before after)).zipIdx (afterMiddleEnd before after)).map f := by
  obtain ⟨-, hle, -, -⟩ := ends_le before after
  have hend : afterMiddleEnd before after ≤ after.length := Nat.sub_le _ _
  have hsplit : after = after.take (commonPrefixLength before after) ++ afterMiddle before after ++
      after.drop (afterMiddleEnd before after) := by
    have hstart : after.take (commonPrefixLength before after) =
        (after.take (afterMiddleEnd before after)).take (commonPrefixLength before after) := by
      rw [List.take_take, min_eq_left hle]
    rw [hstart, afterMiddle, List.take_append_drop, List.take_append_drop]
  have hstartLength : (after.take (commonPrefixLength before after)).length =
      commonPrefixLength before after := by
    rw [List.length_take]
    omega
  have hmiddleLength : (after.take (commonPrefixLength before after) ++
      afterMiddle before after).length = afterMiddleEnd before after := by
    rw [List.length_append, hstartLength, afterMiddle, List.length_drop, List.length_take]
    omega
  conv_lhs => rw [hsplit]
  rw [List.zipIdx_append, List.zipIdx_append, List.map_append, List.map_append, hmiddleLength,
    hstartLength, Nat.zero_add, Nat.zero_add]

/-- After the splice every cell is the one of the new stack, up to its labels. -/
theorem spliced_eq (hnodup : (before.map ParseCell.id).Nodup) :
    spliced before after =
      after.zipIdx.map fun cell ↦ cell.1.withLabels (currentLabels before after cell.2 cell.1) := by
  rw [map_zipIdx_after before after]
  unfold spliced
  congr 1
  · congr 1
    · apply CommonEnds.eq_map_zipIdx
        (CommonEnds.forall₂_agreeing sameCellSource before.length before after)
      intro source target i hsource hsame _ hi
      have hi : i < commonPrefixLength before after := by
        rw [Nat.zero_add] at hi
        exact hi.trans_le (List.length_take_le _ _)
      rw [currentLabels, if_pos (.inl hi)]
      exact labels_of_same hnodup (List.mem_of_mem_take hsource) hsame
    · have hunlabelled : List.Forall₂ (fun cell target ↦ cell = ParseCell.withLabels target [])
          ((afterMiddle before after).map (·.withLabels [])) (afterMiddle before after) :=
        List.forall₂_map_left_iff.2 (List.forall₂_same.2 fun _ _ ↦ rfl)
      apply CommonEnds.eq_map_zipIdx hunlabelled
      intro cell target i _ hcell hle hi
      have hlength : (afterMiddle before after).length ≤
          afterMiddleEnd before after - commonPrefixLength before after := by
        rw [afterMiddle, List.length_drop, List.length_take]
        omega
      rw [currentLabels, if_neg (by omega)]
      exact hcell
  · apply CommonEnds.eq_map_zipIdx (CommonEnds.forall₂_agreeing_reverse sameCellSource
      (maxSuffix before after) before after)
    intro source target i hsource hsame hle _
    rw [currentLabels, if_pos (.inr hle)]
    exact labels_of_same hnodup (List.mem_of_mem_drop hsource) hsame

theorem performAll_resetEvents (hnodup : (before.map ParseCell.id).Nodup)
    (hcells : Derivable boundaryOf before after) {target : ParseCell} (htarget : target ∈ after)
    (done rest : List ParseCell) :
    performAll boundaryOf before
        (done ++ target.withLabels (currentLabels before after done.length target) :: rest)
        (resetEvents before after done.length target) =
      some (done ++ target.withLabels [] :: rest) := by
  unfold resetEvents
  cases hindex : sourceIndex before target.id with
  | none =>
    have hnone : currentLabels before after done.length target = [] := by
      simp [currentLabels, hindex]
    rw [hnone]
    rfl
  | some index =>
    have hresolve := hcells.resolve_existing hnodup htarget hindex
    by_cases hnone : currentLabels before after done.length target = []
    · simp [hnone, performAll]
    · simp [hnone, performAll, perform, hresolve]

/-- The events of one cell give it its labels. -/
theorem performAll_labelEvents (hnodup : (before.map ParseCell.id).Nodup)
    (hcells : Derivable boundaryOf before after) {target : ParseCell} (htarget : target ∈ after)
    (done rest : List ParseCell) :
    performAll boundaryOf before
        (done ++ target.withLabels (currentLabels before after done.length target) :: rest)
        (labelEvents before after done.length target) = some (done ++ target :: rest) := by
  unfold labelEvents
  by_cases hsame : currentLabels before after done.length target = target.labels
  · rw [if_pos hsame, hsame]
    rfl
  · rw [if_neg hsame, performAll_append, performAll_resetEvents hnodup hcells htarget,
      Option.bind_some, performAll_tags]
    rfl

theorem performAll_labels (hnodup : (before.map ParseCell.id).Nodup)
    (hcells : Derivable boundaryOf before after) {targets : List ParseCell}
    (hsub : ∀ target ∈ targets, target ∈ after) (done : List ParseCell) :
    performAll boundaryOf before
        (done ++ (targets.zipIdx done.length).map fun cell ↦
          cell.1.withLabels (currentLabels before after cell.2 cell.1))
        ((targets.zipIdx done.length).flatMap fun cell ↦ labelEvents before after cell.2 cell.1) =
      some (done ++ targets) := by
  induction targets generalizing done with
  | nil => simp [performAll]
  | cons target rest ih =>
    rw [List.zipIdx_cons, List.map_cons, List.flatMap_cons, performAll_append,
      performAll_labelEvents hnodup hcells (hsub target List.mem_cons_self), Option.bind_some]
    have hrest := ih (fun cell hcell ↦ hsub cell (List.mem_cons_of_mem _ hcell)) (done ++ [target])
    simpa using hrest

variable (E) in
/-- The events between two stacks lead from the one to the other. -/
theorem performAll_between (hnodup : (before.map ParseCell.id).Nodup)
    (hcells : Derivable boundaryOf before after) :
    ∃ events, (contextEventsBetween before after : Outcome (SpineContextRuntimeError E) _) =
        .ok events ∧
      performAll boundaryOf before before events = some after := by
  obtain ⟨structural, hstructural, hspliced⟩ := structuralEvents_spec (E := E) hnodup hcells
  have hlabels := performAll_labels hnodup hcells (fun target (h : target ∈ after) ↦ h) []
  refine ⟨structural ++ after.zipIdx.flatMap fun cell ↦ labelEvents before after cell.2 cell.1,
    ?_, ?_⟩
  · rw [contextEventsBetween, hstructural]
    rfl
  · rw [performAll_append, hspliced, Option.bind_some, spliced_eq hnodup]
    simpa using hlabels

end Between

/-- The events between two stacks can be computed, have the right size, and lead from the one
stack to the other. -/
theorem events_between_correct {E : Type} {boundaryOf : ℕ → RawBoundary}
    {before after : List ParseCell} (hnodup : (before.map ParseCell.id).Nodup)
    (hcells : Derivable boundaryOf before after) :
    ∃ events, (contextEventsBetween before after : Outcome (SpineContextRuntimeError E) _) =
        .ok events ∧
      ContextEvent.resultingSize before.length events = .ok after.length ∧
      ContextEvent.performAll boundaryOf before before events = some after := by
  obtain ⟨events, hevents, hperform⟩ := performAll_between E hnodup hcells
  exact ⟨events, hevents, ContextEvent.resultingSize_of_performAll hperform, hperform⟩

/-- Two cells change places around a new one, and a label is taken off and another put on. -/
theorem events_between_moved_cells :
    ∃ events, (contextEventsBetween
        [⟨0, .opaqueItem 1, [.userAnchor 1]⟩, ⟨1, .opaqueItem 2, []⟩, ⟨2, .opaqueItem 3, []⟩]
        [⟨0, .opaqueItem 1, []⟩, ⟨2, .opaqueItem 3, [.userAnchor 2]⟩,
          ⟨3, .synthetic 7 (.sourceSpan ⟨1, 1⟩), []⟩, ⟨1, .opaqueItem 2, []⟩] :
          Outcome (SpineContextRuntimeError Empty) _) = .ok events ∧
      ContextEvent.resultingSize 3 events = .ok 4 ∧
      ContextEvent.performAll (fun _ ↦ 7)
          [⟨0, .opaqueItem 1, [.userAnchor 1]⟩, ⟨1, .opaqueItem 2, []⟩, ⟨2, .opaqueItem 3, []⟩]
          [⟨0, .opaqueItem 1, [.userAnchor 1]⟩, ⟨1, .opaqueItem 2, []⟩, ⟨2, .opaqueItem 3, []⟩]
          events =
        some [⟨0, .opaqueItem 1, []⟩, ⟨2, .opaqueItem 3, [.userAnchor 2]⟩,
          ⟨3, .synthetic 7 (.sourceSpan ⟨1, 1⟩), []⟩, ⟨1, .opaqueItem 2, []⟩] := by
  apply events_between_correct
  · decide
  · simp [Derivable]

/-! ## Stacks that the events cannot reach -/

/-- A synthetic cell that takes the id of another cell is replaced by that cell, and the events
for two synthetic cells that differ in their boundary are the same. -/
theorem exists_unreachable_stack :
    (∃ before after : List ParseCell, (before.map ParseCell.id).Nodup ∧
      (after.map ParseCell.id).Nodup ∧
      (∀ cell ∈ after, ∃ boundary item, cell.character = .synthetic boundary item) ∧
      ∃ events, (contextEventsBetween before after : Outcome (SpineContextRuntimeError Empty) _) =
          .ok events ∧
        ∀ boundaryOf, ContextEvent.performAll boundaryOf before before events = some before ∧
          before ≠ after) ∧
    ∃ after after' : List ParseCell,
      (∀ cell ∈ after ++ after', ∃ boundary item, cell.character = .synthetic boundary item) ∧
      (contextEventsBetween [] after : Outcome (SpineContextRuntimeError Empty) _) =
        contextEventsBetween [] after' ∧ after ≠ after' := by
  refine ⟨⟨[⟨0, .opaqueItem 1, []⟩], [⟨0, .synthetic 1 (.sourceSpan ⟨1, 1⟩), []⟩], by decide,
    by decide, by simp, _, rfl, fun boundaryOf ↦ ⟨rfl, by decide⟩⟩, ?_⟩
  exact ⟨[⟨0, .synthetic 1 (.sourceSpan ⟨1, 1⟩), []⟩], [⟨0, .synthetic 2 (.sourceSpan ⟨1, 1⟩), []⟩],
    by simp, rfl, by decide⟩

end SpineCodex
