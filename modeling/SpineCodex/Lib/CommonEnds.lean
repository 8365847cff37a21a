import Mathlib

/-!
# Common ends of two lists

The longest starts, and then the longest ends, on which two lists agree element by element.
-/

namespace SpineCodex.CommonEnds

variable {α β : Type*} (same : α → β → Bool)

/-- The number of leading pairs that agree, among the first `limit`. -/
def agreeing (limit : ℕ) (xs : List α) (ys : List β) : ℕ :=
  (((xs.zip ys).take limit).takeWhile fun pair ↦ same pair.1 pair.2).length

theorem forall₂_agreeing (limit : ℕ) (xs : List α) (ys : List β) :
    List.Forall₂ (fun x y ↦ same x y = true) (xs.take (agreeing same limit xs ys))
      (ys.take (agreeing same limit xs ys)) := by
  unfold agreeing
  induction xs generalizing ys limit with
  | nil => simp
  | cons x xs ih =>
    cases ys with
    | nil => simp
    | cons y ys =>
      cases limit with
      | zero => simp
      | succ limit =>
        rw [List.zip_cons_cons, List.take_succ_cons, List.takeWhile_cons]
        by_cases hsame : same x y = true
        · rw [if_pos hsame, List.length_cons, List.take_succ_cons, List.take_succ_cons]
          exact .cons hsame (ih limit ys)
        · rw [if_neg hsame]
          simp

theorem agreeing_le (limit : ℕ) (xs : List α) (ys : List β) :
    agreeing same limit xs ys ≤ limit ∧ agreeing same limit xs ys ≤ xs.length ∧
      agreeing same limit xs ys ≤ ys.length := by
  have hle : agreeing same limit xs ys ≤ ((xs.zip ys).take limit).length :=
    (List.takeWhile_sublist _).length_le
  rw [List.length_take, List.length_zip] at hle
  omega

/-- The agreeing ends, at the end of both lists. -/
theorem forall₂_agreeing_reverse (limit : ℕ) (xs : List α) (ys : List β) :
    List.Forall₂ (fun x y ↦ same x y = true)
      (xs.drop (xs.length - agreeing same limit xs.reverse ys.reverse))
      (ys.drop (ys.length - agreeing same limit xs.reverse ys.reverse)) := by
  have hforall := forall₂_agreeing same limit xs.reverse ys.reverse
  rw [List.take_reverse, List.take_reverse] at hforall
  exact List.forall₂_reverse_iff.1 hforall

variable {same} {R : α → β → Prop}

/-- A list that is given, position by position, by a related one. -/
theorem eq_map_zipIdx {xs : List α} {ys : List β} (h : List.Forall₂ R xs ys) {f : β × ℕ → α}
    {start : ℕ} (hf : ∀ x y i, x ∈ xs → R x y → start ≤ i → i < start + ys.length → x = f (y, i)) :
    xs = (ys.zipIdx start).map f := by
  induction h generalizing start with
  | nil => rfl
  | @cons x y xs ys hxy _ ih =>
    rw [List.zipIdx_cons, List.map_cons]
    congr 1
    · exact hf x y start List.mem_cons_self hxy le_rfl (by simp)
    · refine ih fun x' y' i hx' hxy' hle hlt ↦ ?_
      exact hf x' y' i (List.mem_cons_of_mem _ hx') hxy' (by omega) (by rw [List.length_cons]; omega)

end SpineCodex.CommonEnds
