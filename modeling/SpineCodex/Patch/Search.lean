import SpineCodex.Lib.GradedSearch
import SpineCodex.Patch.FileUpdate

/-!
# Finding lines

The search for the lines of a chunk against what its comment promises: the first match at the
strictest level that has one, and for a chunk at the end of the file a match with the last lines,
if there is one.
-/

namespace SpineCodex

variable {lines pattern : List String} {start i : ℕ} {eof : Bool}

/-- A match at any level that ends at the last line. -/
def EndsMatch (lines pattern : List String) (start : ℕ) : Prop :=
  ∃ i, start ≤ i ∧ i + pattern.length = lines.length ∧
    ∃ read ∈ lineReadings, MatchesAt read lines pattern i

/-- What the comment of `seek_sequence` promises for `result`. -/
structure MeetsComment (lines pattern : List String) (start : ℕ) (eof : Bool)
    (result : Option ℕ) : Prop where
  atEnd : eof = true → EndsMatch lines pattern start → result = some (lines.length - pattern.length)
  fromStart : (eof = true → ¬EndsMatch lines pattern start) →
    GradedSearch.Result (fun read i ↦ MatchesAt read lines pattern i) lineReadings start result

theorem MatchesAt.le_length {read : String → String} (hpattern : pattern ≠ [])
    (h : MatchesAt read lines pattern i) : i + pattern.length ≤ lines.length := by
  have hlength := congrArg List.length h
  have hpos := List.length_pos_iff.mpr hpattern
  simp only [List.length_map, List.length_take, List.length_drop] at hlength
  omega

/-- Where the search starts. -/
def searchStart (lines pattern : List String) (start : ℕ) (eof : Bool) : ℕ :=
  if eof then max (lines.length - pattern.length) start else start

theorem seekSequence_result (lines : List String) (hpattern : pattern ≠ []) (start : ℕ) (eof : Bool) :
    GradedSearch.Result (fun read i ↦ MatchesAt read lines pattern i) lineReadings
      (searchStart lines pattern start eof) (seekSequence lines pattern start eof) := by
  unfold seekSequence
  rw [if_neg hpattern]
  by_cases hshort : lines.length < pattern.length
  · rw [if_pos hshort]
    apply GradedSearch.Result.missing
    intro read _ j _ hmatch
    have hle := hmatch.le_length hpattern
    omega
  · rw [if_neg hshort]
    apply GradedSearch.search_result (lines.length - pattern.length + 1)
    intro read _ j hmatch
    have hle := hmatch.le_length hpattern
    omega

/-- With the mark for the end of the file, only the last position is tried. -/
theorem eq_last_of_seekSequence (hpattern : pattern ≠ [])
    (h : seekSequence lines pattern start true = some i) :
    start ≤ i ∧ i + pattern.length = lines.length ∧
      ∃ read ∈ lineReadings, MatchesAt read lines pattern i := by
  have hresult := seekSequence_result lines hpattern start true
  rw [h] at hresult
  cases hresult with
  | found hbest =>
    obtain ⟨read, hread, hmatch⟩ := hbest.exists_holds
    have hle := hmatch.le_length hpattern
    have hstart := hbest.start_le
    simp only [searchStart, if_true] at hstart
    exact ⟨by omega, by omega, read, hread, hmatch⟩

/-- The comment is right exactly when the chunk is not marked as the end of the file, or its
lines match the last lines, or they match nowhere. -/
theorem seekSequence_meetsComment_iff (hpattern : pattern ≠ []) :
    MeetsComment lines pattern start eof (seekSequence lines pattern start eof) ↔
      (eof = true → (∃ i, start ≤ i ∧ ∃ read ∈ lineReadings, MatchesAt read lines pattern i) →
        EndsMatch lines pattern start) := by
  have hresult := seekSequence_result lines hpattern start eof
  constructor
  · rintro hmeets rfl ⟨i, hi, read, hread, hmatch⟩
    by_contra hends
    have hfrom := hmeets.fromStart fun _ ↦ hends
    cases hseek : seekSequence lines pattern start true with
    | none =>
      rw [hseek] at hfrom
      cases hfrom with
      | missing hnothing => exact hnothing read hread i hi hmatch
    | some j => exact hends ⟨j, eq_last_of_seekSequence hpattern hseek⟩
  · intro hcondition
    refine ⟨?_, ?_⟩
    · rintro rfl ⟨i, hi, hlast, read, hread, hmatch⟩
      cases hseek : seekSequence lines pattern start true with
      | none =>
        rw [hseek] at hresult
        cases hresult with
        | missing hnothing =>
          refine absurd hmatch (hnothing read hread i ?_)
          simp only [searchStart, if_true]
          omega
      | some j =>
        obtain ⟨-, hj, -⟩ := eq_last_of_seekSequence hpattern hseek
        have heq : j = lines.length - pattern.length := by omega
        rw [heq]
    · intro hends
      cases eof with
      | false => exact hresult
      | true =>
        -- nothing matches at all
        have hnone : ¬∃ i, start ≤ i ∧ ∃ read ∈ lineReadings, MatchesAt read lines pattern i :=
          fun hsome ↦ hends rfl (hcondition rfl hsome)
        cases hseek : seekSequence lines pattern start true with
        | none =>
          apply GradedSearch.Result.missing
          intro read hread j hj hmatch
          exact hnone ⟨j, hj, read, hread, hmatch⟩
        | some j =>
          obtain ⟨hj, -, hmatch⟩ := eq_last_of_seekSequence hpattern hseek
          exact absurd ⟨j, hj, hmatch⟩ hnone

/-- The last lines are found although the same lines stand earlier. -/
theorem last_lines_meetComment :
    MeetsComment ["a", "b", "a "] ["a"] 0 true (seekSequence ["a", "b", "a "] ["a"] 0 true) := by
  refine (seekSequence_meetsComment_iff (by decide)).mpr fun _ _ ↦ ?_
  exact ⟨2, by decide, rfl, trimEnd, by simp [lineReadings], by decide +kernel⟩

/-- Lines marked as the end of the file that stand earlier only are not found. -/
theorem earlier_lines_not_found : seekSequence ["a", "b"] ["a"] 0 true = none ∧
    MatchesAt id ["a", "b"] ["a"] 0 ∧
    ¬MeetsComment ["a", "b"] ["a"] 0 true (seekSequence ["a", "b"] ["a"] 0 true) := by
  have hnone : seekSequence ["a", "b"] ["a"] 0 true = none := by decide +kernel
  have hmatch : MatchesAt id ["a", "b"] ["a"] 0 := rfl
  have hlast : ∀ read ∈ lineReadings, ¬MatchesAt read ["a", "b"] ["a"] 1 := by decide +kernel
  have hends : ¬EndsMatch ["a", "b"] ["a"] 0 := by
    rintro ⟨i, -, hi, read, hread, hmatches⟩
    obtain rfl : i = 1 := by simpa using hi
    exact hlast read hread hmatches
  refine ⟨hnone, hmatch, fun hmeets ↦ ?_⟩
  have hresult := hmeets.fromStart fun _ ↦ hends
  rw [hnone] at hresult
  cases hresult with
  | missing hnothing => exact hnothing id List.mem_cons_self 0 (Nat.le_refl 0) hmatch

end SpineCodex
