import Mathlib.Data.List.DropRight
import Mathlib.Tactic.Common

/-!
# The last items of a list

Lists that grow at their end and keep a bounded number of items.
-/

namespace SpineCodex

namespace LastItems

variable {α : Type*}

theorem length_rtake (xs : List α) (n : ℕ) : (xs.rtake n).length = min n xs.length := by
  rw [List.rtake, List.length_drop]
  omega

theorem rtake_of_length_le {xs : List α} {n : ℕ} (h : xs.length ≤ n) : xs.rtake n = xs := by
  rw [List.rtake, Nat.sub_eq_zero_of_le h, List.drop_zero]

/-- The last items of a list depend on the last items of its first part only. -/
theorem rtake_append_rtake (xs ys : List α) (n : ℕ) :
    (xs.rtake n ++ ys).rtake n = (xs ++ ys).rtake n := by
  simp only [List.rtake_eq_reverse_take_reverse, List.reverse_append, List.reverse_reverse,
    List.take_append, List.take_take]
  congr 3
  omega

/-- The last items of a list lie in its second part when that is long enough. -/
theorem rtake_append_of_le {xs ys : List α} {n : ℕ} (h : n ≤ ys.length) :
    (xs ++ ys).rtake n = ys.rtake n := by
  rw [List.rtake, List.rtake, List.length_append, List.drop_append,
    List.drop_eq_nil_of_le (by omega), List.nil_append]
  congr 1
  omega

end LastItems

end SpineCodex
