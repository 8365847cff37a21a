import SpineCodex.Patch.Frame

/-!
# Replacements that do not overlap

The lines a patch replaces are found by fuzzy searches that start at a moving position, by jumps to
a context line, by a second search without the last line, or lie behind the end of the file, and
are sorted afterwards.  They still lie within the file, each behind the one before, so that the one
pass over the lines carries out the replacements one by one.
-/

namespace SpineCodex

/-- The replacements of a parsed update lie within the file, each behind the one before, and the
pass over a file with these lines carries them out one by one. -/
theorem computeReplacements_apart {patch : String} {hunks : List Hunk}
    {environmentId : Option String} (hparse : parsePatch patch = .ok (hunks, environmentId))
    {path : String} {movePath : Option String} {chunks : List UpdateFileChunk}
    (hhunk : .updateFile path movePath chunks ∈ hunks) {texts : List String} {name : String}
    {replacements : List Replacement}
    (h : computeReplacements texts name chunks = .ok replacements) :
    (replacements.Pairwise fun first second ↦ first.1 + first.2.1 ≤ second.1) ∧
      (∀ replacement ∈ replacements, replacement.1 + replacement.2.1 ≤ texts.length) ∧
      ∀ file : SourceFile, file.lineTexts = texts →
        (file.applyReplacements replacements).lines =
          (replacements.foldr (Splice.carryOut (fun text ↦ ⟨text, some file.preferredEnding⟩) 0)
            file.lines).map (SourceFile.terminate file.preferredEnding) := by
  obtain ⟨located, hlocated, hsorted⟩ := Outcome.bind_eq_ok.mp h
  cases hsorted
  obtain ⟨hapart, hbounds⟩ :=
    locateChunks_apart (parsePatch_spelled hparse _ hhunk) (Nat.zero_le _) hlocated
  have hpairwise := pairwise_sortSplices hapart
  have hend : ∀ replacement ∈ sortSplices (located.flatMap chunkReplacements),
      replacement.1 + replacement.2.1 ≤ texts.length := by
    intro replacement hmem
    exact (hbounds replacement ((List.perm_insertionSort _ _).mem_iff.mp hmem)).2
  refine ⟨hpairwise, hend, fun file hfile ↦ ?_⟩
  have hlength : file.lines.length = texts.length := by
    rw [← hfile, SourceFile.lineTexts, List.length_map]
  rw [SourceFile.applyReplacements, replaceLines_eq_spliceAll, Splice.spliceAll_eq_foldr]
  refine ⟨hpairwise, fun _ _ ↦ Nat.zero_le _, fun replacement hmem ↦ ?_⟩
  rw [Nat.zero_add, hlength]
  exact hend replacement hmem

/-- The replacement of the second line, and the file it makes. -/
theorem replacing_apart :
    computeReplacements ["x", "y"] "f" [replacingChunk] = .ok [(1, 1, ["z"])] ∧
      ((⟨[⟨"x", some .lf⟩, ⟨"y", none⟩], .lf⟩ : SourceFile).applyReplacements
          [(1, 1, ["z"])]).lines =
        ([(1, 1, ["z"])].foldr (Splice.carryOut (fun text ↦ ⟨text, some .lf⟩) 0)
          [⟨"x", some .lf⟩, ⟨"y", none⟩]).map (SourceFile.terminate .lf) := by
  have hparse : parsePatch replacingPatch = .ok ([.updateFile "f" none [replacingChunk]], none) := by
    decide +kernel
  have hreplacements : computeReplacements ["x", "y"] "f" [replacingChunk] =
      .ok [(1, 1, ["z"])] := by
    decide +kernel
  exact ⟨hreplacements,
    (computeReplacements_apart hparse List.mem_cons_self hreplacements).2.2 _ rfl⟩

end SpineCodex
