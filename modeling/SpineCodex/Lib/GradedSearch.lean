import Mathlib

/-!
# Graded search

Positions are tested at several levels, from the strictest on; the result is the first position
that passes at the first level at which any position passes.
-/

namespace SpineCodex.GradedSearch

variable {ι : Type*} (holds : ι → ℕ → Prop)

/-- `i` is the first position from `start` on that passes at some level, and nothing passes at a
stricter one. -/
structure Best (levels : List ι) (start i : ℕ) : Prop where
  start_le : start ≤ i
  first : ∃ stricter level weaker, levels = stricter ++ level :: weaker ∧ holds level i ∧
    (∀ j, start ≤ j → j < i → ¬holds level j) ∧
    ∀ earlier ∈ stricter, ∀ j, start ≤ j → ¬holds earlier j

/-- Nothing passes from `start` on, at any level. -/
def Nothing (levels : List ι) (start : ℕ) : Prop :=
  ∀ level ∈ levels, ∀ j, start ≤ j → ¬holds level j

/-- What a search from `start` on should give. -/
inductive Result (levels : List ι) (start : ℕ) : Option ℕ → Prop
  | found {i : ℕ} (h : Best holds levels start i) : Result levels start (some i)
  | missing (h : Nothing holds levels start) : Result levels start none

variable {holds} {levels : List ι} {start i : ℕ}

theorem Best.exists_holds (h : Best holds levels start i) : ∃ level ∈ levels, holds level i := by
  obtain ⟨stricter, level, weaker, rfl, hholds, -, -⟩ := h.first
  exact ⟨level, by simp, hholds⟩

variable [∀ level i, Decidable (holds level i)]

variable (holds) in
/-- The search over the positions below `stop`. -/
def search (levels : List ι) (start stop : ℕ) : Option ℕ :=
  levels.findSome? fun level ↦ (List.range' start (stop - start)).find? fun i ↦ holds level i

/-- When nothing passes from `stop` on, the search is complete. -/
theorem search_result (stop : ℕ) (hstop : ∀ level ∈ levels, ∀ i, holds level i → i < stop) :
    Result holds levels start (search holds levels start stop) := by
  have hnone : ∀ level ∈ levels,
      (List.range' start (stop - start)).find? (fun i ↦ holds level i) = none →
        ∀ j, start ≤ j → ¬holds level j := by
    intro level hlevel hfind j hj hholds
    have hlt := hstop level hlevel j hholds
    simpa [hholds] using List.find?_range'_eq_none.mp hfind j hj (by omega)
  cases hsearch : search holds levels start stop with
  | none =>
    apply Result.missing
    intro level hlevel
    exact hnone level hlevel (List.findSome?_eq_none_iff.mp hsearch level hlevel)
  | some i =>
    obtain ⟨stricter, level, weaker, rfl, hfind, hstricter⟩ := List.findSome?_eq_some_iff.mp hsearch
    obtain ⟨hholds, hmem, hfirst⟩ := List.find?_range'_eq_some.mp hfind
    apply Result.found
    refine ⟨(List.mem_range'_1.mp hmem).1, stricter, level, weaker, rfl, ?_, ?_, ?_⟩
    · simpa using hholds
    · intro j hj hlt
      simpa using hfirst j hj hlt
    · intro earlier hearlier
      exact hnone earlier (List.mem_append_left _ hearlier) (hstricter earlier hearlier)

end SpineCodex.GradedSearch
