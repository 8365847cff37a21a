import Mathlib

/-!
# Updates of a list at several positions

A list of slots is overwritten at the positions that a list of entries names.  Positions
that no entry names keep their value; where the positions are distinct, each entry is found
at its own.
-/

namespace SpineCodex

variable {α : Type*}

/-- Each entry is written to its position, in order. -/
def setAll (slots : List α) (entries : List (ℕ × α)) : List α :=
  entries.foldl (fun slots entry ↦ slots.set entry.1 entry.2) slots

@[simp] theorem setAll_nil (slots : List α) : setAll slots [] = slots := rfl

theorem setAll_cons (slots : List α) (entry : ℕ × α) (entries : List (ℕ × α)) :
    setAll slots (entry :: entries) = setAll (slots.set entry.1 entry.2) entries := rfl

@[simp] theorem length_setAll (slots : List α) (entries : List (ℕ × α)) :
    (setAll slots entries).length = slots.length := by
  induction entries generalizing slots with
  | nil => rfl
  | cons entry entries ih => rw [setAll_cons, ih, List.length_set]

theorem getElem?_setAll_of_notMem {slots : List α} {entries : List (ℕ × α)} {i : ℕ}
    (h : ∀ entry ∈ entries, entry.1 ≠ i) : (setAll slots entries)[i]? = slots[i]? := by
  induction entries generalizing slots with
  | nil => rfl
  | cons entry entries ih =>
    rw [setAll_cons, ih fun other hmem ↦ h other (List.mem_cons_of_mem _ hmem)]
    exact List.getElem?_set_ne (h entry List.mem_cons_self)

/-- A written slot holds what one of the entries for it carries. -/
theorem getElem?_setAll_cases {slots : List α} {entries : List (ℕ × α)} {i : ℕ} {a : α}
    (h : (setAll slots entries)[i]? = some a) : slots[i]? = some a ∨ (i, a) ∈ entries := by
  induction entries generalizing slots with
  | nil => exact .inl h
  | cons entry entries ih =>
    rcases ih h with hset | hmem
    · by_cases hi : entry.1 = i
      · have hset := (List.getElem?_set.symm.trans hset)
        rw [if_pos hi] at hset
        split at hset
        · refine .inr (List.mem_cons.mpr (.inl ?_))
          rw [← hi, ← Option.some.inj hset]
        · cases hset
      · rw [List.getElem?_set_ne hi] at hset
        exact .inl hset
    · exact .inr (List.mem_cons_of_mem _ hmem)

theorem getElem?_setAll_of_mem {slots : List α} {entries : List (ℕ × α)}
    (hnodup : (entries.map Prod.fst).Nodup) {i : ℕ} {a : α} (hmem : (i, a) ∈ entries)
    (hi : i < slots.length) : (setAll slots entries)[i]? = some a := by
  induction entries generalizing slots with
  | nil => cases hmem
  | cons entry entries ih =>
    obtain ⟨hnotMem, hnodup⟩ := List.nodup_cons.mp hnodup
    rw [setAll_cons]
    rcases List.mem_cons.mp hmem with rfl | hmem
    · rw [getElem?_setAll_of_notMem]
      · simp [hi]
      · intro other hother heq
        exact hnotMem (List.mem_map.mpr ⟨other, hother, heq⟩)
    · exact ih hnodup hmem (by simpa using hi)

end SpineCodex
