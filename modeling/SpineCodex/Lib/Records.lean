import Mathlib

/-!
# Records between separators

A text is cut into records at each separator.  Read from its end, the last record is what stands
behind the last separator.
-/

namespace SpineCodex.Records

variable {α : Type*} {separator : α} {text front fragment : List α}

/-! ## The last record -/

variable [DecidableEq α]

variable (separator) in
/-- The position of the last separator. -/
def lastIndexOf : List α → Option ℕ
  | [] => none
  | a :: rest =>
      match lastIndexOf rest with
      | some i => some (i + 1)
      | none => if a = separator then some 0 else none

theorem lastIndexOf_eq_none_iff : lastIndexOf separator text = none ↔ separator ∉ text := by
  induction text with
  | nil => simp [lastIndexOf]
  | cons a rest ih =>
    cases hrest : lastIndexOf separator rest with
    | some i =>
      have hmem : separator ∈ rest := by
        by_contra hnone
        rw [ih.mpr hnone] at hrest
        cases hrest
      simp [lastIndexOf, hrest, hmem]
    | none => simp [lastIndexOf, hrest, ih.mp hrest, eq_comm]

/-- The text around its last separator. -/
theorem exists_of_lastIndexOf {i : ℕ} (h : lastIndexOf separator text = some i) :
    ∃ front fragment, text = front ++ separator :: fragment ∧ separator ∉ fragment ∧
      front.length = i := by
  induction text generalizing i with
  | nil => cases h
  | cons a rest ih =>
    cases hrest : lastIndexOf separator rest with
    | some j =>
      obtain ⟨front, fragment, rfl, hfragment, rfl⟩ := ih hrest
      have hi : front.length + 1 = i := by simpa [lastIndexOf, hrest] using h
      exact ⟨a :: front, fragment, rfl, hfragment, hi⟩
    | none =>
      have hfirst : a = separator ∧ 0 = i := by simpa [lastIndexOf, hrest] using h
      obtain ⟨rfl, rfl⟩ := hfirst
      exact ⟨[], rest, rfl, lastIndexOf_eq_none_iff.mp hrest, rfl⟩

/-- Behind the last separator stands the last record. -/
theorem splitOn_append_last (front : List α) (h : separator ∉ fragment) :
    (front ++ separator :: fragment).splitOn separator = front.splitOn separator ++ [fragment] := by
  rw [List.splitOn_append_cons_self, List.splitOn_eq_singleton h]

end SpineCodex.Records
