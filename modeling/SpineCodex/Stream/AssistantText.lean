import SpineCodex.Stream.HiddenTags
import SpineCodex.Stream.TaggedLines

/-!
# Assistant text

Assistant text passes two parsers. The first one takes citations out of it; in plan mode the second one
takes the blocks of a proposed plan out of what is left. What they yield for a text in chunks is
what a scan for citations and a reading by lines yield for the whole text.
-/

namespace SpineCodex

open InlineHiddenTagParser (scan textParser)
open TaggedLineParser (readLine readLines meaning Between)

/-! ## Citations -/

inductive CitationTag where
  | citation

def citationSpecs : List (InlineTagSpec CitationTag) :=
  [⟨.citation, "<oai-mem-citation>".toList, "</oai-mem-citation>".toList, by decide, by decide⟩]

theorem citationSpecs_parseAll (chunks : List (List Char)) :
    (textParser citationSpecs).parseAll {} chunks = scan citationSpecs none 0 chunks.flatten := by
  refine (InlineHiddenTagParser.parseAll_scan (List.cons_ne_nil _ _) ?_ chunks)
  intro spec hspec other hother _
  rw [List.mem_singleton.mp hspec, List.mem_singleton.mp hother]

/-! ## The plan -/

inductive PlanTag where
  | proposedPlan
  deriving DecidableEq

inductive ProposedPlanSegment where
  | normal (text : List Char)
  | proposedPlanStart
  | proposedPlanDelta (text : List Char)
  | proposedPlanEnd
  deriving DecidableEq

def openTag : List Char := "<proposed_plan>".toList

def closeTag : List Char := "</proposed_plan>".toList

def planSpecs : List (TagSpec PlanTag) := [⟨openTag, closeTag, .proposedPlan⟩]

namespace ProposedPlanSegment

def ofTagged : TaggedLineSegment PlanTag → ProposedPlanSegment
  | .normal text => normal text
  | .tagStart .proposedPlan => proposedPlanStart
  | .tagDelta .proposedPlan text => proposedPlanDelta text
  | .tagEnd .proposedPlan => proposedPlanEnd

def visible : ProposedPlanSegment → List Char
  | normal text => text
  | _ => []

def atoms : ProposedPlanSegment → List (LineAtom PlanTag)
  | normal text => text.map (.char none)
  | proposedPlanStart => [.start .proposedPlan]
  | proposedPlanDelta text => text.map (.char (some .proposedPlan))
  | proposedPlanEnd => [.stop .proposedPlan]

theorem atoms_ofTagged (segment : TaggedLineSegment PlanTag) : (ofTagged segment).atoms = segment.atoms := by
  cases segment <;> rfl

end ProposedPlanSegment

def mapSegments (segments : List (TaggedLineSegment PlanTag)) : StreamTextChunk ProposedPlanSegment :=
  let mapped := segments.map ProposedPlanSegment.ofTagged
  ⟨mapped.flatMap ProposedPlanSegment.visible, mapped⟩

/-- A character in front of segments, joined to text of the same kind. -/
def consAtom : LineAtom PlanTag → List ProposedPlanSegment → List ProposedPlanSegment
  | .start _, segments => .proposedPlanStart :: segments
  | .stop _, segments => .proposedPlanEnd :: segments
  | .char none c, .normal text :: segments => .normal (c :: text) :: segments
  | .char none c, segments => .normal [c] :: segments
  | .char (some _) c, .proposedPlanDelta text :: segments => .proposedPlanDelta (c :: text) :: segments
  | .char (some _) c, segments => .proposedPlanDelta [c] :: segments

/-- The segments of characters and marks, with their text as long as it can be. -/
def regroup (atoms : List (LineAtom PlanTag)) : List ProposedPlanSegment := atoms.foldr consAtom []

def visibleAtom : LineAtom PlanTag → Option Char
  | .char none c => some c
  | _ => none

/-! ## The parser -/

structure AssistantTextChunk where
  visibleText : List Char := []
  citations : List (List Char) := []
  planSegments : List ProposedPlanSegment := []
  deriving DecidableEq

instance : Append AssistantTextChunk where
  append first second := ⟨first.visibleText ++ second.visibleText, first.citations ++ second.citations,
    first.planSegments ++ second.planSegments⟩

/-- The chunk with adjacent text segments merged. -/
def AssistantTextChunk.merged (chunk : AssistantTextChunk) : AssistantTextChunk :=
  { chunk with planSegments := regroup (chunk.planSegments.flatMap ProposedPlanSegment.atoms) }

structure AssistantTextStreamParser where
  planMode : Bool
  citations : InlineHiddenTagParser CitationTag := {}
  plan : TaggedLineParser PlanTag := {}

namespace AssistantTextStreamParser

def parseVisibleText (parser : AssistantTextStreamParser) (visibleText : List Char) :
    AssistantTextStreamParser × AssistantTextChunk :=
  if parser.planMode then
    let parsed := parser.plan.parse planSpecs visibleText
    let planChunk := mapSegments parsed.2
    ({ parser with plan := parsed.1 }, ⟨planChunk.visibleText, [], planChunk.extracted⟩)
  else (parser, ⟨visibleText, [], []⟩)

def pushStr (parser : AssistantTextStreamParser) (chunk : List Char) :
    AssistantTextStreamParser × AssistantTextChunk :=
  let citationChunk := (textParser citationSpecs).pushStr parser.citations chunk
  let parsed := { parser with citations := citationChunk.1 }.parseVisibleText citationChunk.2.visibleText
  (parsed.1, { parsed.2 with citations := citationChunk.2.extracted.map (·.content) })

def finish (parser : AssistantTextStreamParser) : AssistantTextStreamParser × AssistantTextChunk :=
  let citationChunk := (textParser citationSpecs).finish parser.citations
  let parsed := { parser with citations := citationChunk.1 }.parseVisibleText citationChunk.2.visibleText
  let citations := citationChunk.2.extracted.map (·.content)
  if parser.planMode then
    let tail := parsed.1.plan.finish planSpecs
    ({ parsed.1 with plan := tail.1 },
      ⟨parsed.2.visibleText ++ (mapSegments tail.2).visibleText, citations,
        parsed.2.planSegments ++ (mapSegments tail.2).extracted⟩)
  else (parsed.1, { parsed.2 with citations := citations })

/-- All that the chunks and the end of the stream yield. -/
def parseAll (parser : AssistantTextStreamParser) : List (List Char) → AssistantTextChunk
  | [] => parser.finish.2
  | chunk :: chunks => (parser.pushStr chunk).2 ++ (parser.pushStr chunk).1.parseAll chunks

end AssistantTextStreamParser

/-! ## The whole text -/

/-- The lines of a text with plans, with or without a block open before them: the marks of the blocks by
their trimmed text, all others as text inside or outside a block. -/
def planLines : Bool → List (List Char) → List (LineAtom PlanTag)
  | false, [] => []
  | true, [] => [.stop .proposedPlan]
  | false, line :: lines =>
    if trimList line = openTag then .start .proposedPlan :: planLines true lines
    else line.map (.char none) ++ planLines false lines
  | true, line :: lines =>
    if trimList line = closeTag then .stop .proposedPlan :: planLines false lines
    else line.map (.char (some .proposedPlan)) ++ planLines true lines

/-- What is to be made of a whole text: citations are taken out first, and in plan mode the rest is
read by lines. -/
def assistantText (planMode : Bool) (text : List Char) : AssistantTextChunk :=
  let hidden := scan citationSpecs none 0 text
  let citations := hidden.extracted.map (·.content)
  if planMode then
    let atoms := planLines false (TaggedLineParser.textLines hidden.visibleText)
    ⟨atoms.filterMap visibleAtom, citations, regroup atoms⟩
  else ⟨hidden.visibleText, citations, []⟩

theorem readLine_outside (line : List Char) :
    readLine planSpecs none line =
      if trimList line = openTag then (some .proposedPlan, [.start .proposedPlan])
      else (none, line.map (.char none)) := by
  unfold readLine planSpecs
  rw [TaggedLineParser.matchOpen_singleton, TaggedLineParser.matchClose_singleton]
  split_ifs <;> rfl

theorem readLine_inside (line : List Char) :
    readLine planSpecs (some .proposedPlan) line =
      if trimList line = closeTag then (none, [.stop .proposedPlan])
      else (some .proposedPlan, line.map (.char (some .proposedPlan))) := by
  unfold readLine planSpecs
  rw [TaggedLineParser.matchOpen_singleton, TaggedLineParser.matchClose_singleton]
  split_ifs <;> rfl

theorem readLines_planSpecs (lines : List (List Char)) :
    readLines planSpecs none lines = planLines false lines ∧
      readLines planSpecs (some .proposedPlan) lines = planLines true lines := by
  induction lines with
  | nil => exact ⟨rfl, rfl⟩
  | cons line lines ih =>
    constructor
    · rw [readLines, planLines, readLine_outside]
      split_ifs
      · exact congrArg _ ih.2
      · exact congrArg _ ih.1
    · rw [readLines, planLines, readLine_inside]
      split_ifs
      · exact congrArg _ ih.1
      · exact congrArg _ ih.2

/-- The start or the end of a block. -/
def markOf : LineAtom PlanTag → Option ProposedPlanSegment
  | .char _ _ => none
  | .start _ => some .proposedPlanStart
  | .stop _ => some .proposedPlanEnd

/-- A block that starts ends before the next one starts. -/
theorem markOf_planLines (lines : List (List Char)) :
    (∃ n, (planLines false lines).filterMap markOf =
        (List.replicate n [.proposedPlanStart, .proposedPlanEnd]).flatten) ∧
      ∃ n, (planLines true lines).filterMap markOf =
        .proposedPlanEnd :: (List.replicate n [.proposedPlanStart, .proposedPlanEnd]).flatten := by
  have htext : ∀ tag (line : List Char), (line.map (LineAtom.char tag)).filterMap markOf = [] := by
    intro tag line
    rw [List.filterMap_map]
    exact List.filterMap_eq_nil_iff.mpr fun _ _ ↦ rfl
  induction lines with
  | nil => exact ⟨⟨0, rfl⟩, 0, rfl⟩
  | cons line lines ih =>
    obtain ⟨⟨outside, houtside⟩, inside, hinside⟩ := ih
    constructor
    · rw [planLines]
      split_ifs
      · exact ⟨inside + 1, congrArg (List.cons ProposedPlanSegment.proposedPlanStart) hinside⟩
      · exact ⟨outside, by rw [List.filterMap_append, htext, houtside, List.nil_append]⟩
    · rw [planLines]
      split_ifs
      · exact ⟨outside, congrArg (List.cons ProposedPlanSegment.proposedPlanEnd) houtside⟩
      · exact ⟨inside, by rw [List.filterMap_append, htext, hinside, List.nil_append]⟩

namespace ProposedPlanSegment

def isMark : ProposedPlanSegment → Bool
  | proposedPlanStart => true
  | proposedPlanEnd => true
  | _ => false

theorem filter_isMark (segments : List ProposedPlanSegment) :
    segments.filter isMark = (segments.flatMap atoms).filterMap markOf := by
  induction segments with
  | nil => rfl
  | cons segment segments ih =>
    have hsegment : [segment].filter isMark = segment.atoms.filterMap markOf := by
      cases segment with
      | normal text =>
        rw [atoms, List.filterMap_map]
        exact (List.filterMap_eq_nil_iff.mpr fun _ _ ↦ rfl).symm
      | proposedPlanDelta text =>
        rw [atoms, List.filterMap_map]
        exact (List.filterMap_eq_nil_iff.mpr fun _ _ ↦ rfl).symm
      | _ => rfl
    calc (segment :: segments).filter isMark
        = [segment].filter isMark ++ segments.filter isMark := List.filter_append [segment] segments
      _ = segment.atoms.filterMap markOf ++ (segments.flatMap atoms).filterMap markOf := by rw [hsegment, ih]
      _ = ((segment :: segments).flatMap atoms).filterMap markOf := by
        rw [List.flatMap_cons, List.filterMap_append]

end ProposedPlanSegment

namespace AssistantTextStreamParser

theorem atoms_mapSegments (segments : List (TaggedLineSegment PlanTag)) :
    (mapSegments segments).extracted.flatMap ProposedPlanSegment.atoms = atomsOf segments := by
  rw [mapSegments, List.flatMap_map, atomsOf]
  exact congrArg (segments.flatMap ·) (funext ProposedPlanSegment.atoms_ofTagged)

theorem visible_mapSegments (segments : List (TaggedLineSegment PlanTag)) :
    (mapSegments segments).visibleText = (atomsOf segments).filterMap visibleAtom := by
  induction segments with
  | nil => rfl
  | cons segment segments ih =>
    have hsegment : (ProposedPlanSegment.ofTagged segment).visible =
        segment.atoms.filterMap visibleAtom := by
      cases segment with
      | normal text =>
        rw [TaggedLineSegment.atoms, List.filterMap_map]
        exact (List.filterMap_some ..).symm
      | tagDelta tag text =>
        rw [TaggedLineSegment.atoms, List.filterMap_map]
        exact (List.filterMap_eq_nil_iff.mpr fun _ _ ↦ rfl).symm
      | _ => rfl
    change (ProposedPlanSegment.ofTagged segment).visible ++ (mapSegments segments).visibleText = _
    rw [ih, hsegment, ← List.filterMap_append]
    rfl

/-- What the parser yields, in terms of the parser for citations alone. -/
theorem parseAll_eq {parser : AssistantTextStreamParser} (hplan : Between parser.plan)
    (chunks : List (List Char)) :
    (parser.parseAll chunks).citations =
        ((textParser citationSpecs).parseAll parser.citations chunks).extracted.map (·.content) ∧
      (parser.planMode = false → (parser.parseAll chunks).planSegments = [] ∧
        (parser.parseAll chunks).visibleText =
          ((textParser citationSpecs).parseAll parser.citations chunks).visibleText) ∧
      (parser.planMode = true →
        (parser.parseAll chunks).planSegments.flatMap ProposedPlanSegment.atoms =
            meaning planSpecs parser.plan
              ((textParser citationSpecs).parseAll parser.citations chunks).visibleText ∧
          (parser.parseAll chunks).visibleText = (meaning planSpecs parser.plan
            ((textParser citationSpecs).parseAll parser.citations chunks).visibleText).filterMap
              visibleAtom) := by
  induction chunks generalizing parser with
  | nil =>
    obtain ⟨planMode, citations, plan⟩ := parser
    cases planMode with
    | false => exact ⟨rfl, fun _ ↦ ⟨rfl, rfl⟩, fun h ↦ absurd h Bool.false_ne_true⟩
    | true =>
      refine ⟨rfl, fun h ↦ absurd h.symm Bool.false_ne_true, fun _ ↦ ?_⟩
      obtain ⟨hbetween, hparse⟩ := @TaggedLineParser.parse_spec _ _ planSpecs plan hplan
        ((textParser citationSpecs).finish citations).2.visibleText
      have htext := hparse []
      rw [List.append_nil, ← TaggedLineParser.finish_spec hbetween] at htext
      change _ = meaning planSpecs plan ((textParser citationSpecs).finish citations).2.visibleText ∧
        _ = (meaning planSpecs plan
          ((textParser citationSpecs).finish citations).2.visibleText).filterMap visibleAtom
      rw [← htext, List.filterMap_append]
      constructor
      · exact (List.flatMap_append ..).trans
          (congrArg₂ (· ++ ·) (atoms_mapSegments _) (atoms_mapSegments _))
      · exact congrArg₂ (· ++ ·) (visible_mapSegments _) (visible_mapSegments _)
  | cons chunk chunks ih =>
    obtain ⟨planMode, citations, plan⟩ := parser
    cases planMode with
    | false =>
      obtain ⟨hcitations, hfalse, -⟩ := @ih
        ⟨false, ((textParser citationSpecs).pushStr citations chunk).1, plan⟩ hplan
      obtain ⟨hsegments, hvisible⟩ := hfalse rfl
      refine ⟨?_, fun _ ↦ ⟨hsegments, ?_⟩, fun h ↦ absurd h Bool.false_ne_true⟩
      · exact (congrArg (_ ++ ·) hcitations).trans List.map_append.symm
      · exact congrArg (((textParser citationSpecs).pushStr citations chunk).2.visibleText ++ ·) hvisible
    | true =>
      obtain ⟨hbetween, hparse⟩ := @TaggedLineParser.parse_spec _ _ planSpecs plan hplan
        ((textParser citationSpecs).pushStr citations chunk).2.visibleText
      obtain ⟨hcitations, -, htrue⟩ := @ih ⟨true, ((textParser citationSpecs).pushStr citations chunk).1,
        (plan.parse planSpecs ((textParser citationSpecs).pushStr citations chunk).2.visibleText).1⟩ hbetween
      obtain ⟨hatoms, hvisible⟩ := htrue rfl
      refine ⟨?_, fun h ↦ absurd h.symm Bool.false_ne_true, fun _ ↦ ?_⟩
      · exact (congrArg (_ ++ ·) hcitations).trans List.map_append.symm
      · have htext := hparse ((textParser citationSpecs).parseAll
          ((textParser citationSpecs).pushStr citations chunk).1 chunks).visibleText
        change _ = meaning planSpecs plan (((textParser citationSpecs).pushStr citations chunk).2.visibleText ++
          ((textParser citationSpecs).parseAll
            ((textParser citationSpecs).pushStr citations chunk).1 chunks).visibleText) ∧
          _ = (meaning planSpecs plan (((textParser citationSpecs).pushStr citations chunk).2.visibleText ++
          ((textParser citationSpecs).parseAll
            ((textParser citationSpecs).pushStr citations chunk).1 chunks).visibleText)).filterMap visibleAtom
        rw [← htext, List.filterMap_append]
        constructor
        · exact (List.flatMap_append ..).trans (congrArg₂ (· ++ ·) (atoms_mapSegments _) hatoms)
        · exact congrArg₂ (· ++ ·) (visible_mapSegments _) hvisible

theorem between_start : Between ({} : TaggedLineParser PlanTag) := ⟨List.not_mem_nil, fun _ ↦ rfl⟩

/-- However the text is cut, the merged output is the one of the whole text. -/
theorem merged_parseAll (planMode : Bool) (chunks : List (List Char)) :
    (parseAll { planMode := planMode } chunks).merged = assistantText planMode chunks.flatten := by
  obtain ⟨hcitations, hfalse, htrue⟩ := @parseAll_eq { planMode := planMode } between_start chunks
  rw [citationSpecs_parseAll] at hcitations hfalse htrue
  cases planMode with
  | false =>
    obtain ⟨hsegments, hvisible⟩ := hfalse rfl
    rw [AssistantTextChunk.merged, hsegments, hvisible, hcitations]
    rfl
  | true =>
    obtain ⟨hatoms, hvisible⟩ := htrue rfl
    have hlines : meaning planSpecs {} (scan citationSpecs none 0 chunks.flatten).visibleText =
        planLines false (TaggedLineParser.textLines (scan citationSpecs none 0 chunks.flatten).visibleText) :=
      (readLines_planSpecs _).1
    rw [AssistantTextChunk.merged, hatoms, hvisible, hcitations, hlines]
    rfl

theorem marks_alternate (planMode : Bool) (chunks : List (List Char)) :
    ∃ n, (parseAll { planMode := planMode } chunks).planSegments.filter ProposedPlanSegment.isMark =
      (List.replicate n [.proposedPlanStart, .proposedPlanEnd]).flatten := by
  obtain ⟨-, hfalse, htrue⟩ := @parseAll_eq { planMode := planMode } between_start chunks
  cases planMode with
  | false =>
    obtain ⟨hsegments, -⟩ := hfalse rfl
    exact ⟨0, by rw [hsegments]; rfl⟩
  | true =>
    obtain ⟨hatoms, -⟩ := htrue rfl
    obtain ⟨n, hmarks⟩ := (markOf_planLines (TaggedLineParser.textLines ((textParser citationSpecs).parseAll {}
      chunks).visibleText)).1
    refine ⟨n, ?_⟩
    rw [ProposedPlanSegment.filter_isMark, hatoms, ← hmarks, ← (readLines_planSpecs _).1]
    rfl

/-- However the text is cut, the visible text, the citations and the merged segments of the plan are those
of the whole text, as for a single push, and every block that starts is ended before the next one. -/
theorem parseAll_eq_assistantText (planMode : Bool) (chunks : List (List Char)) :
    (parseAll { planMode := planMode } chunks).merged = assistantText planMode chunks.flatten ∧
      (parseAll { planMode := planMode } chunks).merged =
        (parseAll { planMode := planMode } [chunks.flatten]).merged ∧
      ∃ n, (parseAll { planMode := planMode } chunks).planSegments.filter ProposedPlanSegment.isMark =
        (List.replicate n [.proposedPlanStart, .proposedPlanEnd]).flatten := by
  refine ⟨merged_parseAll planMode chunks, ?_, marks_alternate planMode chunks⟩
  rw [merged_parseAll, merged_parseAll, List.flatten_singleton]

end AssistantTextStreamParser

end SpineCodex
