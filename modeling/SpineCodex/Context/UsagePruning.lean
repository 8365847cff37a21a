import SpineCodex.Spine.Artifacts

/-!
# Pruned usage samples

The context runtime keeps, of the usage samples that it has observed, the first one behind the start
of each open node and the last one.  The pressures read only these, so that pruning does not show in
them, nor in those of any later samples: two lists of samples that the open nodes cannot tell apart
(`SamePressure`) stay so when both grow, and a pruned list is like the list itself.
-/

namespace SpineCodex

/-- A node that still takes part in the pressures. -/
def NodeSnapshot.IsOpen (node : NodeSnapshot) : Prop :=
  node.status = .live ∨ node.status = .opened

instance (node : NodeSnapshot) : Decidable node.IsOpen :=
  inferInstanceAs (Decidable (_ ∨ _))

/-! ## Pruning -/

/-- The items whose mark is set, as `Vec::retain` leaves them. -/
def retainMarked {α : Type*} (marks : List Bool) (items : List α) : List α :=
  ((items.zip marks).filter (·.2)).map (·.1)

/-- The sample that the pressure of a node starts from is marked. -/
def markOpening (samples : List TokenUsageSample) (marks : List Bool) (node : NodeSnapshot) :
    List Bool :=
  match samples.findIdx? fun sample ↦ node.start < sample.boundary with
  | some index => marks.set index true
  | none => marks

/-- The marks of the open nodes, and that of the last sample. -/
def relevantMarks (projection : SpineProjection) (samples : List TokenUsageSample) : List Bool :=
  let marks := (projection.nodes.filter fun node ↦ node.IsOpen).foldl (markOpening samples)
    (List.replicate samples.length false)
  marks.set (marks.length - 1) true

/-- `retain_relevant_usage_samples`. -/
def retainRelevantUsageSamples (projection : SpineProjection) (samples : List TokenUsageSample) :
    List TokenUsageSample :=
  retainMarked (relevantMarks projection samples) samples

/-- `observe_usage`, on the samples of the context projection. -/
def observeUsage (projection : SpineProjection) (samples : List TokenUsageSample)
    (sample : TokenUsageSample) : List TokenUsageSample :=
  if 0 < sample.inputTokens then retainRelevantUsageSamples projection (samples ++ [sample])
  else samples

section Marked

variable {α : Type*} {items : List α} {marks : List Bool}

@[simp]
theorem retainMarked_cons_true (item : α) (items : List α) (marks : List Bool) :
    retainMarked (true :: marks) (item :: items) = item :: retainMarked marks items :=
  rfl

@[simp]
theorem retainMarked_cons_false (item : α) (items : List α) (marks : List Bool) :
    retainMarked (false :: marks) (item :: items) = retainMarked marks items :=
  rfl

/-- A search finds the same item when that item is marked. -/
theorem find?_retainMarked (hlength : marks.length = items.length) {condition : α → Bool}
    (h : ∀ index, items.findIdx? condition = some index → marks[index]? = some true) :
    (retainMarked marks items).find? condition = items.find? condition := by
  induction items generalizing marks with
  | nil => rfl
  | cons item items ih =>
    cases marks with
    | nil => cases hlength
    | cons mark marks =>
      rw [List.length_cons, List.length_cons, Nat.add_right_cancel_iff] at hlength
      by_cases hitem : condition item = true
      · have hmark : mark = true := by
          have := h 0 (by rw [List.findIdx?_cons, if_pos hitem])
          exact Option.some.inj this
        rw [hmark, retainMarked_cons_true, List.find?_cons_of_pos hitem,
          List.find?_cons_of_pos hitem]
      · have hrest := ih hlength fun index hindex ↦ by
          apply h (index + 1)
          rw [List.findIdx?_cons, if_neg hitem, hindex]
          rfl
        rw [List.find?_cons_of_neg hitem, ← hrest]
        cases mark with
        | true => rw [retainMarked_cons_true, List.find?_cons_of_neg hitem]
        | false => rw [retainMarked_cons_false]

/-- A list ends as before when its last item is marked. -/
theorem getLast?_retainMarked (hlength : marks.length = items.length)
    (h : items ≠ [] → marks.getLast? = some true) :
    (retainMarked marks items).getLast? = items.getLast? := by
  induction items generalizing marks with
  | nil => rfl
  | cons item items ih =>
    cases marks with
    | nil => cases hlength
    | cons mark marks =>
      rw [List.length_cons, List.length_cons, Nat.add_right_cancel_iff] at hlength
      by_cases hitems : items = []
      · obtain rfl : marks = [] := List.eq_nil_of_length_eq_zero (by rw [hlength, hitems]; rfl)
        have hmark : mark = true := Option.some.inj (h (List.cons_ne_nil _ _))
        rw [hmark, hitems, retainMarked_cons_true]
        rfl
      · have hmarks : marks ≠ [] := by
          rintro rfl
          exact hitems (List.eq_nil_of_length_eq_zero hlength.symm)
        have hrest : (retainMarked marks items).getLast? = items.getLast? := by
          apply ih hlength
          intro _
          have hlast := h (List.cons_ne_nil _ _)
          rwa [List.getLast?_cons_of_ne_nil hmarks] at hlast
        rw [List.getLast?_cons_of_ne_nil hitems, ← hrest]
        cases mark with
        | false => rfl
        | true =>
          rw [retainMarked_cons_true, List.getLast?_cons_of_ne_nil]
          intro hnil
          rw [hnil, List.getLast?_nil] at hrest
          exact hitems (List.getLast?_eq_none_iff.mp hrest.symm)

end Marked

section Marks

variable {samples : List TokenUsageSample} {marks : List Bool} {index : ℕ}

@[simp]
theorem length_markOpening (samples : List TokenUsageSample) (marks : List Bool)
    (node : NodeSnapshot) : (markOpening samples marks node).length = marks.length := by
  rw [markOpening]
  split
  · exact List.length_set
  · rfl

/-- Marks stay. -/
theorem markOpening_of_marked (node : NodeSnapshot) (h : marks[index]? = some true) :
    (markOpening samples marks node)[index]? = some true := by
  rw [markOpening]
  split
  · rw [List.getElem?_set]
    split_ifs with heq hlt
    · rfl
    · rw [List.getElem?_eq_none (heq ▸ not_lt.mp hlt)] at h
      cases h
    · exact h
  · exact h

theorem foldl_markOpening_of_marked (nodes : List NodeSnapshot) (h : marks[index]? = some true) :
    (nodes.foldl (markOpening samples) marks)[index]? = some true := by
  induction nodes generalizing marks with
  | nil => exact h
  | cons node nodes ih => exact ih (markOpening_of_marked node h)

theorem length_foldl_markOpening (nodes : List NodeSnapshot) :
    (nodes.foldl (markOpening samples) marks).length = marks.length := by
  induction nodes generalizing marks with
  | nil => rfl
  | cons node nodes ih => rw [List.foldl_cons, ih, length_markOpening]

/-- The first sample behind the start of each node is marked. -/
theorem foldl_markOpening_opening {nodes : List NodeSnapshot} {node : NodeSnapshot}
    (hlength : marks.length = samples.length) (hnode : node ∈ nodes)
    (h : samples.findIdx? (fun sample ↦ node.start < sample.boundary) = some index) :
    (nodes.foldl (markOpening samples) marks)[index]? = some true := by
  induction nodes generalizing marks with
  | nil => cases hnode
  | cons first nodes ih =>
    obtain rfl | hlater := List.mem_cons.mp hnode
    · rw [List.foldl_cons]
      apply foldl_markOpening_of_marked
      have hindex : index < marks.length := hlength ▸ (List.findIdx?_eq_some_iff_getElem.mp h).1
      simp only [markOpening, h]
      exact List.getElem?_set_self hindex
    · exact ih (by rw [length_markOpening, hlength]) hlater

variable {projection : SpineProjection}

theorem length_relevantMarks : (relevantMarks projection samples).length = samples.length := by
  rw [relevantMarks, List.length_set, length_foldl_markOpening, List.length_replicate]

theorem relevantMarks_opening {node : NodeSnapshot} (hnode : node ∈ projection.nodes)
    (hopen : node.IsOpen)
    (h : samples.findIdx? (fun sample ↦ node.start < sample.boundary) = some index) :
    (relevantMarks projection samples)[index]? = some true := by
  have hfilter : node ∈ projection.nodes.filter fun node ↦ node.IsOpen :=
    List.mem_filter.mpr ⟨hnode, decide_eq_true hopen⟩
  have hmarked := foldl_markOpening_opening (List.length_replicate (a := false)) hfilter h
  rw [relevantMarks, List.getElem?_set]
  split_ifs with heq hlt
  · rfl
  · rw [List.getElem?_eq_none (heq ▸ not_lt.mp hlt)] at hmarked
    cases hmarked
  · exact hmarked

theorem getLast?_relevantMarks (h : samples ≠ []) :
    (relevantMarks projection samples).getLast? = some true := by
  have hlength : 0 < (relevantMarks projection samples).length := by
    rw [length_relevantMarks]
    exact List.length_pos_iff.mpr h
  rw [relevantMarks, List.length_set] at hlength
  rw [List.getLast?_eq_getElem?, relevantMarks, List.length_set]
  exact List.getElem?_set_self (Nat.sub_lt hlength Nat.one_pos)

end Marks

/-! ## What the pressures read -/

/-- The tokens of the last positive sample. -/
def currentTokens (samples : List TokenUsageSample) : Option ℤ :=
  samples.reverse.findSome? fun sample ↦
    if 0 < sample.inputTokens then some sample.inputTokens else none

theorem currentTokens_append (first second : List TokenUsageSample) :
    currentTokens (first ++ second) = (currentTokens second).or (currentTokens first) := by
  rw [currentTokens, List.reverse_append, List.findSome?_append]
  rfl

theorem currentTokens_of_getLast? {samples : List TokenUsageSample} {sample : TokenUsageSample}
    (hlast : samples.getLast? = some sample) (hpositive : 0 < sample.inputTokens) :
    currentTokens samples = some sample.inputTokens := by
  obtain ⟨before, rfl⟩ := List.getLast?_eq_some_iff.mp hlast
  rw [currentTokens_append, currentTokens, List.reverse_singleton, List.findSome?_cons,
    if_pos hpositive]
  rfl

/-- The open nodes of a projection find the same samples in two lists. -/
structure SamePressure (projection : SpineProjection) (first second : List TokenUsageSample) :
    Prop where
  opened : ∀ node ∈ projection.nodes, node.IsOpen →
    first.find? (fun sample ↦ node.start < sample.boundary) =
      second.find? fun sample ↦ node.start < sample.boundary
  current : currentTokens first = currentTokens second

/-- Two projections with the same live and opened nodes. -/
def SameOpenNodes (first second : SpineProjection) : Prop :=
  ∀ node : NodeSnapshot, node.IsOpen → (node ∈ first.nodes ↔ node ∈ second.nodes)

namespace SamePressure

variable {projection other : SpineProjection} {first second third : List TokenUsageSample}

theorem contextPressures_eq (h : SamePressure projection first second) :
    contextPressures projection first = contextPressures projection second := by
  have hcurrent := h.current
  simp only [currentTokens] at hcurrent
  rw [contextPressures, contextPressures, hcurrent]
  apply List.map_congr_left
  intro node hnode
  obtain ⟨hmem, hopen⟩ := List.mem_filter.mp hnode
  rw [h.opened node hmem (of_decide_eq_true hopen)]

theorem trans (h : SamePressure projection first second)
    (hnext : SamePressure projection second third) : SamePressure projection first third :=
  ⟨fun node hnode hopen ↦ (h.opened node hnode hopen).trans (hnext.opened node hnode hopen),
    h.current.trans hnext.current⟩

/-- Only the open nodes count. -/
theorem of_sameOpenNodes (h : SamePressure projection first second)
    (hnodes : SameOpenNodes other projection) : SamePressure other first second :=
  ⟨fun node hnode hopen ↦ h.opened node ((hnodes node hopen).mp hnode) hopen, h.current⟩

/-- Lists that the nodes cannot tell apart stay so when both grow. -/
theorem append (h : SamePressure projection first second) (further : List TokenUsageSample) :
    SamePressure projection (first ++ further) (second ++ further) := by
  refine ⟨fun node hnode hopen ↦ ?_, ?_⟩
  · rw [List.find?_append, List.find?_append, h.opened node hnode hopen]
  · rw [currentTokens_append, currentTokens_append, h.current]

/-- A pruned list is like the list, when the last sample is positive. -/
theorem retain {samples : List TokenUsageSample}
    (hlast : ∀ sample, samples.getLast? = some sample → 0 < sample.inputTokens) :
    SamePressure projection (retainRelevantUsageSamples projection samples) samples := by
  have hend : (retainRelevantUsageSamples projection samples).getLast? = samples.getLast? :=
    getLast?_retainMarked length_relevantMarks getLast?_relevantMarks
  refine ⟨fun node hnode hopen ↦ ?_, ?_⟩
  · exact find?_retainMarked length_relevantMarks fun index ↦ relevantMarks_opening hnode hopen
  · cases hsamples : samples.getLast? with
    | none =>
      rw [List.getLast?_eq_none_iff.mp hsamples]
      rfl
    | some sample =>
      have hpositive := hlast sample hsamples
      rw [currentTokens_of_getLast? hsamples hpositive,
        currentTokens_of_getLast? (hend.trans hsamples) hpositive]

end SamePressure

/-! ## Histories -/

/-- What happens to a list of samples: one more sample, or pruning for a projection. -/
inductive UsageStep where
  | append (sample : TokenUsageSample)
  | prune (projection : SpineProjection)

namespace UsageStep

def sample? : UsageStep → Option TokenUsageSample
  | append sample => some sample
  | prune _ => none

def apply (samples : List TokenUsageSample) : UsageStep → List TokenUsageSample
  | append sample => samples ++ [sample]
  | prune projection => retainRelevantUsageSamples projection samples

/-- A step with a positive sample, or with the open nodes of a projection. -/
def Admissible (projection : SpineProjection) : UsageStep → Prop
  | append sample => 0 < sample.inputTokens
  | prune other => SameOpenNodes other projection

end UsageStep

def AllPositive (samples : List TokenUsageSample) : Prop :=
  ∀ sample ∈ samples, 0 < sample.inputTokens

instance (samples : List TokenUsageSample) : Decidable (AllPositive samples) :=
  inferInstanceAs (Decidable (∀ sample ∈ samples, _))

theorem AllPositive.getLast? {samples : List TokenUsageSample} (h : AllPositive samples)
    (sample : TokenUsageSample) (hlast : samples.getLast? = some sample) : 0 < sample.inputTokens :=
  h sample (List.mem_of_getLast? hlast)

theorem AllPositive.retain {samples : List TokenUsageSample} (h : AllPositive samples)
    (projection : SpineProjection) : AllPositive (retainRelevantUsageSamples projection samples) := by
  intro sample hsample
  rw [retainRelevantUsageSamples, retainMarked, List.mem_map] at hsample
  obtain ⟨pair, hpair, rfl⟩ := hsample
  exact h pair.1 (List.of_mem_zip (List.mem_filter.mp hpair).1).1

variable {projection : SpineProjection} {samples : List TokenUsageSample}

theorem AllPositive.append_singleton (h : AllPositive samples) {sample : TokenUsageSample}
    (hsample : 0 < sample.inputTokens) : AllPositive (samples ++ [sample]) := by
  intro next hnext
  obtain hbefore | hlast := List.mem_append.mp hnext
  · exact h next hbefore
  · rwa [List.mem_singleton.mp hlast]

/-- Samples that are pruned now and then are like all the samples that were appended. -/
theorem samePressure_foldl {steps : List UsageStep} {kept : List TokenUsageSample}
    (hkept : AllPositive kept) (h : SamePressure projection kept samples)
    (hsteps : ∀ step ∈ steps, step.Admissible projection) :
    SamePressure projection (steps.foldl UsageStep.apply kept)
      (samples ++ steps.filterMap UsageStep.sample?) := by
  induction steps generalizing kept samples with
  | nil =>
    rw [List.filterMap_nil, List.append_nil]
    exact h
  | cons step steps ih =>
    have hlater : ∀ next ∈ steps, next.Admissible projection :=
      fun next hnext ↦ hsteps next (List.mem_cons_of_mem _ hnext)
    have hstep : step.Admissible projection := hsteps step List.mem_cons_self
    cases step with
    | append sample =>
      have hrun := ih (hkept.append_singleton hstep) (h.append [sample]) hlater
      rwa [List.append_assoc] at hrun
    | prune other =>
      -- the pruning is for the open nodes of the other projection, which are the same
      have hpruned : SamePressure projection (retainRelevantUsageSamples other kept) kept :=
        (SamePressure.retain hkept.getLast?).of_sameOpenNodes fun node hopen ↦ (hstep node hopen).symm
      exact ih (hkept.retain other) (hpruned.trans h) hlater

/-- The steps of an observed sample. -/
def observationSteps (observed : SpineProjection × TokenUsageSample) : List UsageStep :=
  if 0 < observed.2.inputTokens then [.append observed.2, .prune observed.1] else []

theorem foldl_observeUsage (observed : List (SpineProjection × TokenUsageSample)) :
    observed.foldl (fun kept next ↦ observeUsage next.1 kept next.2) samples =
      (observed.flatMap observationSteps).foldl UsageStep.apply samples := by
  induction observed generalizing samples with
  | nil => rfl
  | cons next observed ih =>
    rw [List.foldl_cons, ih, List.flatMap_cons, List.foldl_append, observeUsage, observationSteps]
    split_ifs <;> rfl

theorem filterMap_observationSteps (observed : List (SpineProjection × TokenUsageSample)) :
    (observed.flatMap observationSteps).filterMap UsageStep.sample? =
      (observed.map (·.2)).filter fun sample ↦ 0 < sample.inputTokens := by
  induction observed with
  | nil => rfl
  | cons next observed ih =>
    rw [List.flatMap_cons, List.filterMap_append, ih, List.map_cons, List.filter_cons,
      observationSteps]
    by_cases hpositive : 0 < next.2.inputTokens
    · rw [if_pos hpositive, if_pos (decide_eq_true hpositive)]
      rfl
    · rw [if_neg hpositive, if_neg (by simpa using hpositive)]
      rfl

/-- Pruning positive samples does not show in the pressures: not at once, not after any further
samples, and not when positive samples are appended and the list is pruned again and again, for any
projections with the same live and opened nodes; so not in what the runtime observes. -/
theorem contextPressures_retain (projection : SpineProjection) (h : AllPositive samples) :
    contextPressures projection (retainRelevantUsageSamples projection samples) =
      contextPressures projection samples ∧
    (∀ further, contextPressures projection
        (retainRelevantUsageSamples projection samples ++ further) =
      contextPressures projection (samples ++ further)) ∧
    (∀ steps : List UsageStep, (∀ step ∈ steps, step.Admissible projection) →
      ∀ other, SameOpenNodes other projection →
        contextPressures other
            (steps.foldl UsageStep.apply (retainRelevantUsageSamples projection samples)) =
          contextPressures other (samples ++ steps.filterMap UsageStep.sample?)) ∧
    ∀ observed : List (SpineProjection × TokenUsageSample),
      (∀ next ∈ observed, SameOpenNodes next.1 projection) →
      ∀ other, SameOpenNodes other projection →
        contextPressures other (observed.foldl (fun kept next ↦ observeUsage next.1 kept next.2)
            (retainRelevantUsageSamples projection samples)) =
          contextPressures other
            (samples ++ (observed.map (·.2)).filter fun sample ↦ 0 < sample.inputTokens) := by
  have hretain : SamePressure projection (retainRelevantUsageSamples projection samples) samples :=
    SamePressure.retain h.getLast?
  have hsteps : ∀ steps : List UsageStep, (∀ step ∈ steps, step.Admissible projection) →
      ∀ other, SameOpenNodes other projection →
        contextPressures other
            (steps.foldl UsageStep.apply (retainRelevantUsageSamples projection samples)) =
          contextPressures other (samples ++ steps.filterMap UsageStep.sample?) := by
    intro steps hadmissible other hother
    apply SamePressure.contextPressures_eq
    exact (samePressure_foldl (h.retain projection) hretain hadmissible).of_sameOpenNodes hother
  refine ⟨hretain.contextPressures_eq, fun further ↦ (hretain.append further).contextPressures_eq,
    hsteps, fun observed hobserved other hother ↦ ?_⟩
  rw [foldl_observeUsage, ← filterMap_observationSteps]
  refine hsteps _ (fun step hstep ↦ ?_) other hother
  obtain ⟨next, hnext, hmem⟩ := List.mem_flatMap.mp hstep
  rw [observationSteps] at hmem
  split_ifs at hmem with hpositive
  · obtain rfl | hprune := List.mem_cons.mp hmem
    · exact hpositive
    · rw [List.mem_singleton.mp hprune]
      exact hobserved next hnext
  · cases hmem

/-- One opened node, behind boundary 2. -/
def openedProjection : SpineProjection where
  nodes := [⟨⟨[1, 1]⟩, some ⟨[1]⟩, [], .task, .opened, none, none, 2, none⟩]
  cursor := ⟨[1, 1]⟩
  visibleContext := []
  lastBoundary := none

def threeSamples : List TokenUsageSample := [⟨1, 10⟩, ⟨3, 20⟩, ⟨5, 30⟩]

/-- The first sample is dropped, then the third one, and the pressures are those of all samples. -/
theorem threeSamples_pruned :
    retainRelevantUsageSamples openedProjection threeSamples = [⟨3, 20⟩, ⟨5, 30⟩] ∧
    observeUsage openedProjection [⟨3, 20⟩, ⟨5, 30⟩] ⟨7, 40⟩ = [⟨3, 20⟩, ⟨7, 40⟩] ∧
    contextPressures openedProjection ([(openedProjection, ⟨7, 40⟩)].foldl
        (fun kept next ↦ observeUsage next.1 kept next.2)
        (retainRelevantUsageSamples openedProjection threeSamples)) =
      contextPressures openedProjection (threeSamples ++
        ([(openedProjection, ⟨7, 40⟩)].map (·.2)).filter fun sample ↦ 0 < sample.inputTokens) := by
  have hsame : SameOpenNodes openedProjection openedProjection := fun _ _ ↦ Iff.rfl
  refine ⟨by decide, by decide, ?_⟩
  have hpositive : AllPositive threeSamples := by decide
  apply (contextPressures_retain openedProjection hpositive).2.2.2
  · intro next hnext
    rw [List.mem_singleton.mp hnext]
    exact hsame
  · exact hsame

end SpineCodex
