import SpineCodex.Patch.Named

/-!
# The frame of an update

An update changes only the regions in which its chunks were found, and in them only what
the lines of the patch name, as far as no empty last line was dropped that stood for
something.
-/

namespace SpineCodex

/-! ## Locating chunks -/

theorem seekSequence_some {lines pattern : List String} {start i : ℕ} {eof : Bool}
    (hstart : start ≤ lines.length) (h : seekSequence lines pattern start eof = some i) :
    start ≤ i ∧ i + pattern.length ≤ lines.length ∧
      ∃ read ∈ lineReadings, MatchesAt read lines pattern i := by
  unfold seekSequence at h
  split at h
  next hnil =>
    obtain rfl := Option.some.inj h
    refine ⟨Nat.le_refl _, by simpa [hnil] using hstart, id, List.mem_cons_self, ?_⟩
    simp [MatchesAt, hnil]
  split at h
  · cases h
  dsimp only at h
  obtain ⟨read, hread, hfind⟩ := List.exists_of_findSome?_eq_some h
  have hmem := List.mem_of_find?_eq_some hfind
  rw [List.mem_range'_1] at hmem
  refine ⟨?_, by omega, read, hread, by simpa using List.find?_some hfind⟩
  split at hmem
  · exact (Nat.le_max_right _ _).trans hmem.1
  · exact hmem.1

/-- Where a chunk may be located, and what stands there. -/
inductive LocatedIn (texts : List String) (chunk : UpdateFileChunk) : Located → Prop
  | appended : chunk.oldLines = [] → LocatedIn texts chunk ⟨texts.length, [], chunk.newLines, false⟩
  | found (start : ℕ) : chunk.oldLines ≠ [] → start + chunk.oldLines.length ≤ texts.length →
      (∃ read ∈ lineReadings, MatchesAt read texts chunk.oldLines start) →
      LocatedIn texts chunk ⟨start, chunk.oldLines, chunk.newLines, false⟩
  | retried (start : ℕ) : chunk.oldLines.getLast? = some "" →
      start + chunk.oldLines.dropLast.length ≤ texts.length →
      (∃ read ∈ lineReadings, MatchesAt read texts chunk.oldLines.dropLast start) →
      LocatedIn texts chunk
        ⟨start, chunk.oldLines.dropLast, dropEmptyLast chunk.newLines, true⟩

theorem seekContext_le {texts : List String} {path : String} {lineIndex next : ℕ}
    {chunk : UpdateFileChunk} (hle : lineIndex ≤ texts.length)
    (h : seekContext texts path lineIndex chunk = .ok next) :
    lineIndex ≤ next ∧ next ≤ texts.length := by
  unfold seekContext at h
  split at h
  · cases h
    exact ⟨Nat.le_refl _, hle⟩
  · split at h
    next index hseek =>
      cases h
      obtain ⟨hstart, hend, -⟩ := seekSequence_some hle hseek
      exact ⟨Nat.le_succ_of_le hstart, hend⟩
    · cases h

/-- A chunk with old lines is located after the chunks before it. -/
theorem locateChunk_eq_ok {texts : List String} {path : String} {lineIndex next : ℕ}
    {chunk : UpdateFileChunk} {found : Located} (hle : lineIndex ≤ texts.length)
    (h : locateChunk texts path lineIndex chunk = .ok (found, next)) :
    LocatedIn texts chunk found ∧ lineIndex ≤ next ∧ next ≤ texts.length ∧
      (chunk.oldLines ≠ [] → lineIndex ≤ found.start ∧ next = found.start + found.pattern.length) := by
  obtain ⟨index, hcontext, h⟩ := Outcome.bind_eq_ok.mp h
  obtain ⟨hindex, hbound⟩ := seekContext_le hle hcontext
  split at h
  next hnil =>
    cases h
    exact ⟨.appended hnil, hindex, hbound, fun hne ↦ absurd hnil hne⟩
  next hne =>
    split at h
    next _ hlocate =>
      cases h
      unfold locateLines at hlocate
      split at hlocate
      next start hseek =>
        cases hlocate
        obtain ⟨hstart, hend, hmatch⟩ := seekSequence_some hbound hseek
        exact ⟨.found start hne hend hmatch, by dsimp only; omega, hend, fun _ ↦ ⟨by dsimp only; omega, rfl⟩⟩
      · split at hlocate
        next hlast =>
          obtain ⟨start, hseek, rfl⟩ := Option.map_eq_some_iff.mp hlocate
          obtain ⟨hstart, hend, hmatch⟩ := seekSequence_some hbound hseek
          exact ⟨.retried start hlast hend hmatch, by dsimp only; omega, hend, fun _ ↦ ⟨by dsimp only; omega, rfl⟩⟩
        · cases hlocate
    · cases h

theorem locateChunks_locatedIn {texts : List String} {path : String} {lineIndex : ℕ}
    {chunks : List UpdateFileChunk} {located : List (UpdateFileChunk × Located)}
    (hle : lineIndex ≤ texts.length)
    (h : locateChunks texts path lineIndex chunks = .ok located) :
    located.map Prod.fst = chunks ∧ ∀ entry ∈ located, LocatedIn texts entry.1 entry.2 := by
  induction chunks generalizing lineIndex located with
  | nil =>
    cases h
    exact ⟨rfl, fun entry hmem ↦ absurd hmem List.not_mem_nil⟩
  | cons chunk rest ih =>
    obtain ⟨⟨found, next⟩, hfirst, h⟩ := Outcome.bind_eq_ok.mp h
    obtain ⟨later, hlater, h⟩ := Outcome.bind_eq_ok.mp h
    cases h
    obtain ⟨hin, -, hnext, -⟩ := locateChunk_eq_ok hle hfirst
    obtain ⟨hmap, hall⟩ := ih hnext hlater
    refine ⟨congrArg (chunk :: ·) hmap, fun entry hmem ↦ ?_⟩
    rcases List.mem_cons.mp hmem with rfl | hmem
    · exact hin
    · exact hall entry hmem

theorem chunkReplacements_within {chunk : UpdateFileChunk} {lines : List PatchLine}
    (hlines : chunk.Spells lines) (hne : chunk.oldLines ≠ []) (found : Located) :
    Within found.start (found.start + found.pattern.length) (chunkReplacements (chunk, found)) := by
  rw [chunkReplacements, if_neg hne, hlines.context]
  exact splitReplacements_within found lines (Nat.le_refl 0) (Nat.zero_le _)

/-- The replacements of all chunks do not overlap, in the order of the chunks. -/
theorem locateChunks_apart {texts : List String} {path : String} {lineIndex : ℕ}
    {chunks : List UpdateFileChunk} {located : List (UpdateFileChunk × Located)}
    (hspelled : ∀ chunk ∈ chunks, ∃ lines, chunk.Spells lines) (hle : lineIndex ≤ texts.length)
    (h : locateChunks texts path lineIndex chunks = .ok located) :
    (located.flatMap chunkReplacements).Pairwise Splice.Apart ∧
      ∀ replacement ∈ located.flatMap chunkReplacements,
        lineIndex ≤ replacement.1 ∧ replacement.1 + replacement.2.1 ≤ texts.length := by
  induction chunks generalizing lineIndex located with
  | nil =>
    cases h
    exact ⟨List.Pairwise.nil, fun replacement hmem ↦ absurd hmem List.not_mem_nil⟩
  | cons chunk rest ih =>
    obtain ⟨⟨found, next⟩, hfirst, h⟩ := Outcome.bind_eq_ok.mp h
    obtain ⟨later, hlater, h⟩ := Outcome.bind_eq_ok.mp h
    cases h
    obtain ⟨hin, hindex, hnext, hregion⟩ := locateChunk_eq_ok hle hfirst
    obtain ⟨hapart, hbounds⟩ := ih (fun other hmem ↦ hspelled other (List.mem_cons_of_mem _ hmem))
      hnext hlater
    rw [List.flatMap_cons]
    by_cases hnil : chunk.oldLines = []
    · -- an appended chunk starts at the end of the file, and nothing starts after it
      have hsplices : chunkReplacements (chunk, found) = [(texts.length, 0, chunk.newLines)] := by
        rw [chunkReplacements, if_pos hnil]
        cases hin with
        | appended => rfl
        | found start hne => exact absurd hnil hne
        | retried start hlast => simp [hnil] at hlast
      rw [hsplices, List.singleton_append]
      refine ⟨List.pairwise_cons.mpr ⟨fun other hother ↦ .inr ⟨(hbounds other hother).2, rfl⟩, hapart⟩, ?_⟩
      intro replacement hmem
      rcases List.mem_cons.mp hmem with rfl | hmem
      · exact ⟨by dsimp only; omega, by simp⟩
      · have := hbounds replacement hmem
        omega
    · obtain ⟨lines, hlines⟩ := hspelled chunk List.mem_cons_self
      have hwithin := chunkReplacements_within hlines hnil found
      obtain ⟨hstart, hend⟩ := hregion hnil
      refine ⟨List.pairwise_append.mpr ⟨?_, hapart, ?_⟩, ?_⟩
      · exact hwithin.pairwise.imp fun hapart ↦ .inl hapart
      · intro first hfirst second hsecond
        have := hwithin.end_le first hfirst
        have := hbounds second hsecond
        exact .inl (by omega)
      · intro replacement hmem
        rcases List.mem_append.mp hmem with hmem | hmem
        · have := hwithin.start_le replacement hmem
          have := hwithin.end_le replacement hmem
          omega
        · have := hbounds replacement hmem
          omega

/-! ## The edits of a located chunk -/

/-- What the lines of a chunk ask for where it was located.  If the old lines were found
without the last of them, that line stands for no line of the file. -/
def Located.asked (found : Located) (lines : List PatchLine) : Edits String :=
  namedEdits found.start found.start (if found.retried then withoutLastOld lines else lines)

/-- The chunk is carried out as its lines ask. -/
def CarriedOut (entry : UpdateFileChunk × Located) : Prop :=
  ∃ lines, entry.1.Spells lines ∧ spliceEdits (chunkReplacements entry) = entry.2.asked lines

namespace UpdateFileChunk

/-- The position among the new lines of the last old line, if it is a context line. -/
def lastContext? (chunk : UpdateFileChunk) : Option ℕ :=
  chunk.contextLineIndices.getLast?.bind fun (oldContext, newContext) ↦
    if oldContext + 1 = chunk.oldLines.length then some newContext else none

/-- Only empty lines are added after a last old line that is a context line; a last old
line that is removed leaves no empty new line at the end. -/
def EndsCleanly (chunk : UpdateFileChunk) : Prop :=
  match chunk.lastContext? with
  | some newContext => ∀ text ∈ chunk.newLines.drop (newContext + 1), text = ""
  | none => chunk.newLines.getLast? ≠ some ""

end UpdateFileChunk

/-- The lines of a chunk were found as they are, or their empty last line may be dropped. -/
def FoundCleanly (entry : UpdateFileChunk × Located) : Prop :=
  entry.2.retried = true → entry.1.EndsCleanly

theorem eq_added_of_oldTexts_nil {lines : List PatchLine} (h : oldTexts lines = []) :
    lines = (newTexts lines).map PatchLine.added := by
  induction lines with
  | nil => rfl
  | cons line rest ih =>
    cases line with
    | added text => exact congrArg (.added text :: ·) (ih h)
    | context text => cases h
    | removed text => cases h

theorem contextIndices_lt {o n : ℕ} {lines : List PatchLine} :
    ∀ context ∈ contextIndices o n lines, context.1 < o + (oldTexts lines).length := by
  induction lines generalizing o n with
  | nil => exact fun context hmem ↦ absurd hmem List.not_mem_nil
  | cons line rest ih =>
    intro context hmem
    cases line with
    | context text =>
      rw [oldTexts_context, List.length_cons]
      rcases List.mem_cons.mp hmem with rfl | hmem
      · exact Nat.lt_add_of_pos_right (Nat.succ_pos _)
      · have := ih context hmem
        omega
    | removed text =>
      have := ih context hmem
      rw [oldTexts_removed, List.length_cons]
      omega
    | added text => exact ih context hmem

theorem splitReplacements_spelled (found : Located) {lines : List PatchLine}
    (hpattern : found.pattern = oldTexts lines) (hslice : found.newSlice = newTexts lines) :
    spliceEdits (splitReplacements found 0 0 (contextIndices 0 0 lines)) =
      namedEdits found.start found.start lines := by
  have hnamed := splitReplacements_named found lines (Nat.le_refl 0) (Nat.le_refl 0)
    (by rw [hpattern, Nat.zero_add]) (Nat.zero_le _) hslice
  exact hnamed

/-- A chunk that is found as it is, or appended, is carried out as its lines ask. -/
theorem carriedOut_of_found {texts : List String} {chunk : UpdateFileChunk} {found : Located}
    (h : LocatedIn texts chunk found) {lines : List PatchLine} (hlines : chunk.Spells lines)
    (hretried : found.retried = false) :
    spliceEdits (chunkReplacements (chunk, found)) = found.asked lines := by
  rw [Located.asked, hretried]
  cases h with
  | appended hnil =>
    rw [chunkReplacements, if_pos hnil, spliceEdits_singleton]
    have hadded := eq_added_of_oldTexts_nil (hlines.old.symm.trans hnil)
    rw [← hlines.new] at hadded
    rw [if_neg Bool.false_ne_true, hadded, namedEdits_added]
    rfl
  | found start hne =>
    rw [chunkReplacements, if_neg hne, hlines.context]
    exact splitReplacements_spelled _ hlines.old hlines.new
  | retried => cases hretried

theorem dropEmptyLast_append {first second : List String} (h : second ≠ []) :
    dropEmptyLast (first ++ second) = first ++ dropEmptyLast second := by
  rw [dropEmptyLast, dropEmptyLast, List.getLast?_append_of_ne_nil _ h]
  split
  · rw [List.dropLast_append_of_ne_nil h]
  · rfl

/-- Dropping an empty last line undoes the adding of an empty first one if all are empty. -/
theorem dropEmptyLast_cons_eq {texts : List String} :
    dropEmptyLast ("" :: texts) = texts ↔ ∀ text ∈ texts, text = "" := by
  constructor
  · intro h
    unfold dropEmptyLast at h
    split at h
    next hlast =>
      -- each text equals the one before it, and the first of them is empty
      have hshift : "" :: texts = texts ++ [""] := by
        rw [← List.dropLast_append_getLast? "" hlast, h]
      intro text hmem
      obtain ⟨i, hi⟩ := List.mem_iff_getElem?.mp hmem
      induction i generalizing text with
      | zero =>
        have hlt := (List.getElem?_eq_some_iff.mp hi).1
        have hfirst := congrArg (·[0]?) hshift
        simp only [List.getElem?_cons_zero, List.getElem?_append_left hlt, hi] at hfirst
        exact (Option.some.inj hfirst).symm
      | succ i ih =>
        have hlt := (List.getElem?_eq_some_iff.mp hi).1
        have hnext := congrArg (·[i + 1]?) hshift
        simp only [List.getElem?_cons_succ, List.getElem?_append_left hlt, hi] at hnext
        exact ih text (List.mem_of_getElem? hnext) hnext
    · exact absurd h (List.cons_ne_self "" texts)
  · intro h
    have hreplicate : texts = List.replicate texts.length "" :=
      List.eq_replicate_of_mem h
    rw [hreplicate, ← List.replicate_succ, dropEmptyLast, List.getLast?_replicate]
    simp

section LastLine

variable (first : List PatchLine) (added : List String)

/-- The last old line of the chunk is the last context line. -/
theorem contextIndices_lastContext (text : String) :
    contextIndices 0 0 (first ++ .context text :: added.map PatchLine.added) =
      contextIndices 0 0 first ++ [((oldTexts first).length, (newTexts first).length)] := by
  rw [contextIndices_append, contextIndices, contextIndices_added, Nat.zero_add, Nat.zero_add]

theorem contextIndices_lastRemoved (text : String) :
    contextIndices 0 0 (first ++ .removed text :: added.map PatchLine.added) =
      contextIndices 0 0 first := by
  rw [contextIndices_append, contextIndices, contextIndices_added, List.append_nil]

theorem contextIndices_append_added :
    contextIndices 0 0 (first ++ added.map PatchLine.added) = contextIndices 0 0 first := by
  rw [contextIndices_append, contextIndices_added, List.append_nil]

variable {first added} {chunk : UpdateFileChunk}

theorem endsCleanly_context
    (h : chunk.Spells (first ++ .context "" :: added.map PatchLine.added)) :
    chunk.EndsCleanly ↔ ∀ text ∈ added, text = "" := by
  have hlength : chunk.oldLines.length = (oldTexts first).length + 1 := by
    rw [h.old, oldTexts_append, oldTexts_context, oldTexts_added, List.length_append]
    rfl
  have hcontext : chunk.lastContext? = some (newTexts first).length := by
    rw [UpdateFileChunk.lastContext?, h.context, contextIndices_lastContext,
      List.getLast?_concat, Option.bind_some, hlength]
    exact if_pos rfl
  rw [UpdateFileChunk.EndsCleanly, hcontext, h.new, newTexts_append, newTexts_context,
    newTexts_added]
  simp

theorem endsCleanly_removed
    (h : chunk.Spells (first ++ .removed "" :: added.map PatchLine.added)) :
    chunk.EndsCleanly ↔ (newTexts (first ++ added.map PatchLine.added)).getLast? ≠ some "" := by
  have hlength : chunk.oldLines.length = (oldTexts first).length + 1 := by
    rw [h.old, oldTexts_append, oldTexts_removed, oldTexts_added, List.length_append]
    rfl
  have hcontext : chunk.lastContext? = none := by
    rw [UpdateFileChunk.lastContext?, h.context, contextIndices_lastRemoved,
      Option.bind_eq_none_iff, hlength]
    rintro ⟨oldContext, newContext⟩ hmem
    have hlt := contextIndices_lt _ (List.mem_of_getLast? hmem)
    refine if_neg ?_
    dsimp only at hlt
    omega
  rw [UpdateFileChunk.EndsCleanly, hcontext, h.new, newTexts_append, newTexts_removed,
    newTexts_append]

/-- An unmatched context line is inserted in front of the added lines. -/
theorem split_context_iff {found : Located} (hpattern : found.pattern = oldTexts first)
    (hslice : found.newSlice = dropEmptyLast (newTexts first ++ "" :: added)) :
    spliceEdits (splitReplacements found 0 0
          (contextIndices 0 0 (first ++ .context "" :: added.map PatchLine.added))) =
        namedEdits found.start found.start (first ++ added.map PatchLine.added) ↔
      ∀ text ∈ added, text = "" := by
  rw [contextIndices_lastContext, splitReplacements_append _ _ _ _ (.inl (by rw [hpattern])),
    ← contextIndices_append_added first (dropEmptyLast ("" :: added)),
    splitReplacements_spelled, namedEdits_added_inj, dropEmptyLast_cons_eq]
  · rw [hpattern, oldTexts_append, oldTexts_added, List.append_nil]
  · rw [hslice, dropEmptyLast_append (List.cons_ne_nil _ _), newTexts_append, newTexts_added]

/-- An empty last new line is lost, or a context line with it. -/
theorem split_removed_iff {found : Located} (hpattern : found.pattern = oldTexts first)
    (hslice : found.newSlice = dropEmptyLast (newTexts (first ++ added.map PatchLine.added))) :
    spliceEdits (splitReplacements found 0 0
          (contextIndices 0 0 (first ++ .removed "" :: added.map PatchLine.added))) =
        namedEdits found.start found.start (first ++ added.map PatchLine.added) ↔
      (newTexts (first ++ added.map PatchLine.added)).getLast? ≠ some "" := by
  have hold : found.pattern = oldTexts (first ++ added.map PatchLine.added) := by
    rw [hpattern, oldTexts_append, oldTexts_added, List.append_nil]
  rw [contextIndices_lastRemoved, ← contextIndices_append_added first added]
  constructor
  · -- the lines ask for one line more than there is on the new side
    intro hequal hempty
    have hactual := splitReplacements_balance found (first ++ added.map PatchLine.added)
      (Nat.le_refl 0) (Nat.le_refl 0) (Nat.zero_le _) (Nat.zero_le _)
    have hnamed :=
      namedEdits_balance found.start found.start (first ++ added.map PatchLine.added)
    rw [hequal, hslice, dropEmptyLast, if_pos hempty, List.length_dropLast, hold] at hactual
    have hpositive := List.length_pos_of_mem (List.mem_of_getLast? hempty)
    omega
  · intro hnonempty
    apply splitReplacements_spelled found hold
    rw [hslice, dropEmptyLast, if_neg hnonempty]

end LastLine

theorem carriedOut_retried_iff {texts : List String} {chunk : UpdateFileChunk} {found : Located}
    (h : LocatedIn texts chunk found) {lines : List PatchLine} (hlines : chunk.Spells lines)
    (hretried : found.retried = true) :
    spliceEdits (chunkReplacements (chunk, found)) = found.asked lines ↔ chunk.EndsCleanly := by
  cases h with
  | appended => cases hretried
  | found => cases hretried
  | retried start hlast =>
    have hne : chunk.oldLines ≠ [] := fun hnil ↦ by simp [hnil] at hlast
    obtain ⟨first, last, added, rfl, hold⟩ := exists_lastOld (hlines.old ▸ hlast)
    rw [Located.asked, if_pos hretried, withoutLastOld_append added (by simp [hold]),
      chunkReplacements, if_neg hne, hlines.context]
    cases last with
    | added text => cases hold
    | context text =>
      obtain rfl : text = "" := Option.some.inj hold
      rw [endsCleanly_context hlines]
      apply split_context_iff
      · dsimp only
        rw [hlines.old, oldTexts_append, oldTexts_context, oldTexts_added, List.dropLast_concat]
      · dsimp only
        rw [hlines.new, newTexts_append, newTexts_context, newTexts_added]
    | removed text =>
      obtain rfl : text = "" := Option.some.inj hold
      rw [endsCleanly_removed hlines]
      apply split_removed_iff
      · dsimp only
        rw [hlines.old, oldTexts_append, oldTexts_removed, oldTexts_added, List.dropLast_concat]
      · dsimp only
        rw [hlines.new, newTexts_append, newTexts_removed, newTexts_append]

theorem carriedOut_iff {texts : List String} {entry : UpdateFileChunk × Located}
    (h : LocatedIn texts entry.1 entry.2) (hspelled : ∃ lines, entry.1.Spells lines) :
    CarriedOut entry ↔ FoundCleanly entry := by
  obtain ⟨lines, hlines⟩ := hspelled
  by_cases hretried : entry.2.retried = true
  · constructor
    · rintro ⟨lines, hlines, hequal⟩ _
      exact (carriedOut_retried_iff h hlines hretried).mp hequal
    · intro hclean
      exact ⟨lines, hlines, (carriedOut_retried_iff h hlines hretried).mpr (hclean hretried)⟩
  · refine iff_of_true ⟨lines, hlines, ?_⟩ fun htrue ↦ absurd htrue hretried
    exact carriedOut_of_found h hlines (eq_false_of_ne_true hretried)

/-! ## The whole file -/

theorem parseLines_chars (start chars : List Char) :
    (SourceFile.parseLines start chars).flatMap SourceFile.lineChars = start ++ chars := by
  induction start, chars using SourceFile.parseLines.induct with
  | case1 => rfl
  | case2 start hne => simp [SourceFile.parseLines, hne, SourceFile.lineChars]
  | case3 start rest ih =>
    rw [SourceFile.parseLines, List.flatMap_cons, ih]
    simp [SourceFile.lineChars, LineEnding.chars]
  | case4 start rest hne ih =>
    rw [SourceFile.parseLines, List.flatMap_cons, ih]
    · simp [SourceFile.lineChars, LineEnding.chars]
    · exact hne
  | case5 start rest ih =>
    rw [SourceFile.parseLines, List.flatMap_cons, ih]
    simp [SourceFile.lineChars, LineEnding.chars]
  | case6 start c rest hcr hlf hplain ih =>
    rw [SourceFile.parseLines, ih, List.append_assoc]
    · rfl
    all_goals assumption

/-- Only the last line of a file may lack an ending. -/
theorem parseLines_ending (start chars : List Char) :
    ∀ line ∈ (SourceFile.parseLines start chars).dropLast, line.ending.isSome := by
  have hcons : ∀ {text : String} {ending : LineEnding} {rest : List SourceLine},
      (∀ line ∈ rest.dropLast, line.ending.isSome) →
        ∀ line ∈ (⟨text, some ending⟩ :: rest : List SourceLine).dropLast, line.ending.isSome := by
    intro text ending rest hrest line hmem
    cases rest with
    | nil => cases hmem
    | cons next rest =>
      rcases List.mem_cons.mp hmem with rfl | hmem
      · rfl
      · exact hrest line hmem
  induction start, chars using SourceFile.parseLines.induct with
  | case1 => exact fun line hmem ↦ absurd hmem List.not_mem_nil
  | case2 start hne =>
    rw [SourceFile.parseLines, if_neg hne]
    exact fun line hmem ↦ absurd hmem List.not_mem_nil
  | case3 start rest ih => exact hcons ih
  | case4 start rest hne ih =>
    rw [SourceFile.parseLines]
    · exact hcons ih
    · exact hne
  | case5 start rest ih => exact hcons ih
  | case6 start c rest hcr hlf hplain ih =>
    rw [SourceFile.parseLines]
    · exact ih
    all_goals assumption

theorem replaceLines_eq_spliceAll (preferred : LineEnding) (k : ℕ) (lines : List SourceLine)
    (replacements : List Replacement) :
    SourceFile.replaceLines preferred k lines replacements =
      spliceAll (fun text ↦ ⟨text, some preferred⟩) k lines replacements := by
  induction replacements generalizing k lines with
  | nil => rfl
  | cons replacement rest ih =>
    rw [SourceFile.replaceLines, ih]
    rfl

/-- What an update of a file with these contents does. -/
structure UpdateFrame (contents newContents : String)
    (located : List (UpdateFileChunk × Located)) : Prop where
  /-- The lines of the file are the ones that are edited. -/
  lines : contents = .ofList ((SourceFile.parse contents).lines.flatMap SourceFile.lineChars)
  terminated : ∀ line ∈ (SourceFile.parse contents).lines.dropLast, line.ending.isSome
  regions : ∀ entry ∈ located, LocatedIn (SourceFile.parse contents).lineTexts entry.1 entry.2
  /-- Position by position, with the edits of the located chunks and no others. -/
  edited : newContents = .ofList (((weave
      (fun text ↦ ⟨text, some (SourceFile.parse contents).preferredEnding⟩)
      (spliceEdits (located.flatMap chunkReplacements)) 0 (SourceFile.parse contents).lines).map
    (SourceFile.terminate (SourceFile.parse contents).preferredEnding)).flatMap
      SourceFile.lineChars)
  /-- These are the edits that the lines of the patch ask for. -/
  asked : (∀ entry ∈ located, CarriedOut entry) ↔ ∀ entry ∈ located, FoundCleanly entry

theorem frame_of_update {patch : String} {hunks : List Hunk} {environmentId : Option String}
    (hparse : parsePatch patch = .ok (hunks, environmentId)) {path : String}
    {movePath : Option String} {chunks : List UpdateFileChunk}
    (hhunk : .updateFile path movePath chunks ∈ hunks) {name contents newContents : String}
    (h : deriveNewContents name contents chunks = .ok newContents) :
    ∃ located, locateChunks (SourceFile.parse contents).lineTexts name 0 chunks = .ok located ∧
      located.map Prod.fst = chunks ∧ UpdateFrame contents newContents located := by
  obtain ⟨replacements, hreplacements, hnew⟩ := Outcome.bind_eq_ok.mp h
  obtain ⟨located, hlocated, hreplacements⟩ := Outcome.bind_eq_ok.mp hreplacements
  cases hreplacements
  have hspelled : ∀ chunk ∈ chunks, ∃ lines, chunk.Spells lines :=
    parsePatch_spelled hparse _ hhunk
  obtain ⟨hchunks, hin⟩ := locateChunks_locatedIn (Nat.zero_le _) hlocated
  obtain ⟨hapart, hbounds⟩ := locateChunks_apart hspelled (Nat.zero_le _) hlocated
  refine ⟨located, hlocated, hchunks, ?_, parseLines_ending [] _, hin, ?_, ?_⟩
  · rw [SourceFile.parse, parseLines_chars, List.nil_append, String.ofList_toList]
  · cases hnew
    rw [SourceFile.intoContents, SourceFile.applyReplacements, replaceLines_eq_spliceAll,
      spliceAll_sortSplices hapart]
    intro replacement hmem
    simpa [SourceFile.lineTexts] using (hbounds replacement hmem).2
  · have hentry : ∀ entry ∈ located, (CarriedOut entry ↔ FoundCleanly entry) := by
      intro entry hmem
      have hchunk : entry.1 ∈ chunks := hchunks ▸ List.mem_map_of_mem hmem
      exact carriedOut_iff (hin entry hmem) (hspelled entry.1 hchunk)
    constructor
    · intro hall entry hmem
      exact (hentry entry hmem).mp (hall entry hmem)
    · intro hall entry hmem
      exact (hentry entry hmem).mpr (hall entry hmem)

/-- A patch that replaces the second line of a file. -/
def replacingPatch : String :=
  "*** Begin Patch\n*** Update File: f\n x\n-y\n+z\n*** End Patch"

def replacingChunk : UpdateFileChunk := ⟨none, ["x", "y"], ["x", "z"], [(0, 0)], false⟩

theorem frame_of_replacing : ∃ located,
    located.map Prod.fst = [replacingChunk] ∧ UpdateFrame "x\r\ny" "x\r\nz\r\n" located := by
  have hparse : parsePatch replacingPatch = .ok ([.updateFile "f" none [replacingChunk]], none) := by
    decide +kernel
  have hupdate : deriveNewContents "f" "x\r\ny" [replacingChunk] = .ok "x\r\nz\r\n" := by
    decide +kernel
  obtain ⟨located, -, hchunks, hframe⟩ := frame_of_update hparse List.mem_cons_self hupdate
  exact ⟨located, hchunks, hframe⟩

/-- A patch with an empty context line and an empty removed line. -/
def emptyLinesPatch : String :=
  "*** Begin Patch\n*** Update File: f\n@@\n \n-\n*** End Patch"

def emptyLinesChunk : UpdateFileChunk := ⟨none, ["", ""], [""], [(0, 0)], false⟩

/-- In a file of one empty line the context line is found, and the line is deleted. -/
theorem exists_deleted_context :
    parsePatch emptyLinesPatch = .ok ([.updateFile "f" none [emptyLinesChunk]], none) ∧
      deriveNewContents "f" "\n" [emptyLinesChunk] = .ok "" ∧
      emptyLinesChunk.Spells [.context "", .removed ""] ∧
      locateChunks [""] "f" 0 [emptyLinesChunk] =
        .ok [(emptyLinesChunk, ⟨0, [""], [], true⟩)] ∧
      ¬CarriedOut (emptyLinesChunk, ⟨0, [""], [], true⟩) := by
  refine ⟨by decide +kernel, by decide +kernel, ⟨rfl, rfl, rfl⟩, by decide +kernel, ?_⟩
  have hin : LocatedIn [""] emptyLinesChunk ⟨0, [""], [], true⟩ :=
    .retried 0 rfl (Nat.le_refl 1) ⟨id, List.mem_cons_self, rfl⟩
  rw [carriedOut_iff hin ⟨[.context "", .removed ""], rfl, rfl, rfl⟩]
  intro hclean
  exact hclean rfl rfl

end SpineCodex
