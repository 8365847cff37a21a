import SpineCodex.Lib.GrowingList
import SpineCodex.Patch.Steps

/-!
# Progress of a streamed patch

While a patch is streamed, the hunks read so far are shown after each delta.  What was shown stays:
only the last hunk may still change, and it changes only by additions.
-/

namespace SpineCodex

open GrowingList

/-- A chunk that got more lines, or the mark for the end of the file. -/
structure UpdateFileChunk.Extended (chunk chunk' : UpdateFileChunk) : Prop where
  changeContext : chunk'.changeContext = chunk.changeContext
  oldLines : chunk.oldLines <+: chunk'.oldLines
  newLines : chunk.newLines <+: chunk'.newLines
  contextLineIndices : chunk.contextLineIndices <+: chunk'.contextLineIndices
  isEndOfFile : chunk.isEndOfFile = true → chunk'.isEndOfFile = true

namespace UpdateFileChunk.Extended

theorem refl (chunk : UpdateFileChunk) : chunk.Extended chunk :=
  ⟨rfl, List.prefix_rfl, List.prefix_rfl, List.prefix_rfl, id⟩

theorem trans (chunk chunk' chunk'' : UpdateFileChunk) (h : chunk.Extended chunk')
    (h' : chunk'.Extended chunk'') : chunk.Extended chunk'' :=
  ⟨h'.changeContext.trans h.changeContext, h.oldLines.trans h'.oldLines,
    h.newLines.trans h'.newLines, h.contextLineIndices.trans h'.contextLineIndices,
    fun hend ↦ h'.isEndOfFile (h.isEndOfFile hend)⟩

theorem of_step {chunk chunk' : UpdateFileChunk} (h : ChunkStep chunk chunk') :
    chunk.Extended chunk' := by
  cases h with
  | context line =>
    exact ⟨rfl, List.prefix_append _ _, List.prefix_append _ _, List.prefix_append _ _, id⟩
  | added line => exact ⟨rfl, List.prefix_rfl, List.prefix_append _ _, List.prefix_rfl, id⟩
  | removed line => exact ⟨rfl, List.prefix_append _ _, List.prefix_rfl, List.prefix_rfl, id⟩
  | endOfFile => exact ⟨rfl, List.prefix_rfl, List.prefix_rfl, List.prefix_rfl, fun _ ↦ rfl⟩

end UpdateFileChunk.Extended

/-- A hunk that got more content, a move path, or more of its chunks. -/
inductive Hunk.Extended : Hunk → Hunk → Prop
  | addFile (path contents text : String) :
      Extended (.addFile path contents) (.addFile path (contents ++ text))
  | deleteFile (path : String) : Extended (.deleteFile path) (.deleteFile path)
  | updateFile (path : String) {movePath movePath' : Option String}
      {chunks chunks' : List UpdateFileChunk} (hmove : movePath = none ∨ movePath' = movePath)
      (hchunks : Grows UpdateFileChunk.Extended chunks chunks') :
      Extended (.updateFile path movePath chunks) (.updateFile path movePath' chunks')

namespace Hunk.Extended

theorem refl (hunk : Hunk) : hunk.Extended hunk := by
  cases hunk with
  | addFile path contents =>
    have hsame := Extended.addFile path contents ""
    rwa [String.append_empty] at hsame
  | deleteFile path => exact .deleteFile path
  | updateFile path movePath chunks =>
    exact .updateFile path (.inr rfl) (Grows.refl UpdateFileChunk.Extended.refl chunks)

theorem trans (hunk hunk' hunk'' : Hunk) (h : hunk.Extended hunk') (h' : hunk'.Extended hunk'') :
    hunk.Extended hunk'' := by
  cases h with
  | addFile path contents text =>
    cases h' with
    | addFile _ _ text' =>
      rw [String.append_assoc]
      exact .addFile path contents (text ++ text')
  | deleteFile path => exact h'
  | updateFile path hmove hchunks =>
    cases h' with
    | updateFile _ hmove' hchunks' =>
      refine .updateFile path ?_ (hchunks.trans UpdateFileChunk.Extended.trans hchunks')
      rcases hmove with hnone | rfl
      · exact .inl hnone
      · exact hmove'

theorem of_updateStep (path : String) {movePath movePath' : Option String}
    {chunks chunks' : List UpdateFileChunk} (h : UpdateStep movePath chunks movePath' chunks') :
    Hunk.Extended (.updateFile path movePath chunks) (.updateFile path movePath' chunks') := by
  cases h with
  | same => exact refl _
  | move target => exact .updateFile path (.inl rfl) (.inl rfl)
  | opens _ _ changeContext =>
    exact .updateFile path (.inr rfl) (Grows.append UpdateFileChunk.Extended.refl _ _)
  | first _ hstep => exact .updateFile path (.inr rfl) (.inl rfl)
  | last _ front hstep => exact .updateFile path (.inr rfl) (Grows.of_last (.of_step hstep))

end Hunk.Extended

/-- What the parser shows later keeps what it shows now. -/
theorem HunkStep.grows {hunks hunks' : List Hunk} (h : HunkStep hunks hunks') :
    Grows Hunk.Extended hunks hunks' := by
  cases h with
  | same => exact Grows.refl Hunk.Extended.refl hunks
  | addFile => exact Grows.append Hunk.Extended.refl hunks _
  | deleteFile => exact Grows.append Hunk.Extended.refl hunks _
  | updateFile => exact Grows.append Hunk.Extended.refl hunks _
  | content front path contents line =>
    rw [String.append_assoc]
    exact Grows.of_last (.addFile path contents (line ++ "\n"))
  | update front path hstep => exact Grows.of_last (Hunk.Extended.of_updateStep path hstep)

namespace StreamingPatchParser

/-- The parser after some deltas, as long as none of them was refused. -/
def pushDeltas (parser : StreamingPatchParser) (deltas : List String) :
    Outcome ParseError StreamingPatchParser :=
  deltas.foldlM pushDelta parser

variable {parser parser' : StreamingPatchParser}

theorem grows_of_pushDelta {delta : String} (h : parser.pushDelta delta = .ok parser') :
    Grows Hunk.Extended parser.hunks parser'.hunks := by
  refine Outcome.foldlM_induction (motive := fun p ↦ Grows Hunk.Extended parser.hunks p.hunks)
    ?_ (Grows.refl Hunk.Extended.refl parser.hunks) h
  intro p p' ch _ hgrows hstep
  exact hgrows.trans Hunk.Extended.trans (hunkStep_of_pushChar hstep).grows

theorem grows_of_pushDeltas {deltas : List String} (h : parser.pushDeltas deltas = .ok parser') :
    Grows Hunk.Extended parser.hunks parser'.hunks := by
  refine Outcome.foldlM_induction (motive := fun p ↦ Grows Hunk.Extended parser.hunks p.hunks)
    ?_ (Grows.refl Hunk.Extended.refl parser.hunks) h
  intro p p' delta _ hgrows hstep
  exact hgrows.trans Hunk.Extended.trans (grows_of_pushDelta hstep)

/-- The hunks shown after some deltas, the hunks shown after more of them, and those of the
finished patch. -/
theorem progress_monotone {before after : List String} {later : StreamingPatchParser}
    (h : pushDeltas {} (before ++ after) = .ok later) :
    ∃ shown, pushDeltas {} before = .ok shown ∧ Grows Hunk.Extended shown.hunks later.hunks ∧
      ∀ last, later.finish = .ok last → Grows Hunk.Extended shown.hunks last.hunks := by
  unfold pushDeltas at h
  rw [List.foldlM_append] at h
  obtain ⟨shown, hshown, hlater⟩ := Outcome.bind_eq_ok.mp h
  have hgrows := grows_of_pushDeltas hlater
  refine ⟨shown, hshown, hgrows, ?_⟩
  intro last hlast
  exact hgrows.trans Hunk.Extended.trans (hunkStep_of_finish hlast).grows

/-- A file whose second line is cut by the end of a delta. -/
theorem progress_of_cut_line : ∃ shown later : StreamingPatchParser,
    pushDeltas {} ["*** Begin Patch\n*** Add File: a\n+x\n+"] = .ok shown ∧
      later.hunks = [.addFile "a" "x\ny\n"] ∧ Grows Hunk.Extended shown.hunks later.hunks := by
  have hok : (pushDeltas {} (["*** Begin Patch\n*** Add File: a\n+x\n+"] ++ ["y\n"])).any
      (fun later ↦ later.hunks = [.addFile "a" "x\ny\n"]) = true := by decide +kernel
  obtain ⟨later, hlater, hhunks⟩ := Outcome.any_eq_true.mp hok
  obtain ⟨shown, hshown, hgrows, -⟩ := progress_monotone hlater
  exact ⟨shown, later, hshown, of_decide_eq_true hhunks, hgrows⟩

end StreamingPatchParser

end SpineCodex
