import Mathlib.Data.List.Basic
import Mathlib.Tactic.Common

/-!
# Edits of a list by positions

Positions are collected in one pass over a list; afterwards items are inserted behind them, from
the last position to the first, or the items at them are removed.
-/

namespace SpineCodex

namespace IndexedEdits

variable {α β : Type*}

/-- What is found in a list, with the positions counted from `start`. -/
def collect (find : α → Option β) (items : List α) (start : ℕ) : List (ℕ × β) :=
  (items.zipIdx start).filterMap fun entry ↦ (find entry.1).map fun found ↦ (entry.2, found)

@[simp]
theorem collect_nil (find : α → Option β) (start : ℕ) : collect find [] start = [] := rfl

@[simp]
theorem collect_cons (find : α → Option β) (item : α) (items : List α) (start : ℕ) :
    collect find (item :: items) start =
      ((find item).map (start, ·)).toList ++ collect find items (start + 1) := by
  rw [collect, collect, List.zipIdx_cons, List.filterMap_cons]
  cases find item <;> rfl

theorem le_of_mem_collect {find : α → Option β} {items : List α} {start : ℕ} {edit : ℕ × β}
    (h : edit ∈ collect find items start) : start ≤ edit.1 := by
  obtain ⟨entry, hentry, hfound⟩ := List.mem_filterMap.mp h
  obtain ⟨found, -, rfl⟩ := Option.map_eq_some_iff.mp hfound
  exact List.le_snd_of_mem_zipIdx hentry

theorem insertIdx_length_append (before after : List α) (item : α) :
    (before ++ after).insertIdx before.length item = before ++ item :: after := by
  induction before with
  | nil => rfl
  | cons first before ih => exact congrArg (first :: ·) ih

/-- Each item is inserted behind its position, the last one first. -/
def insertAfter (items : List α) (edits : List (ℕ × α)) : List α :=
  edits.foldr (fun edit items ↦ items.insertIdx (edit.1 + 1) edit.2) items

theorem insertAfter_append (items : List α) (edits later : List (ℕ × α)) :
    insertAfter items (edits ++ later) = insertAfter (insertAfter items later) edits :=
  List.foldr_append

theorem insertAfter_collect_append (find : α → Option α) (before items : List α) :
    insertAfter (before ++ items) (collect find items before.length) =
      before ++ items.flatMap fun item ↦ item :: (find item).toList := by
  induction items generalizing before with
  | nil => simp [insertAfter]
  | cons item items ih =>
    have hlater : insertAfter (before ++ item :: items) (collect find items (before.length + 1)) =
        (before ++ [item]) ++ items.flatMap fun item ↦ item :: (find item).toList := by
      rw [← ih (before ++ [item]), List.length_append, List.length_singleton, List.append_assoc,
        List.singleton_append]
    rw [collect_cons, insertAfter_append, hlater, List.flatMap_cons]
    cases find item with
    | none => simp [insertAfter]
    | some found =>
      have hlength : before.length + 1 = (before ++ [item]).length := by simp
      change ((before ++ [item]) ++ _).insertIdx (before.length + 1) found = _
      rw [hlength, insertIdx_length_append]
      simp

/-- Inserting what was found behind the item it was found for. -/
theorem insertAfter_collect (find : α → Option α) (items : List α) :
    insertAfter items (collect find items 0) =
      items.flatMap fun item ↦ item :: (find item).toList :=
  insertAfter_collect_append find [] items

/-- One pass that drops the items at the listed positions; the positions are consumed in order. -/
def retainUnlisted : List ℕ → ℕ → List α → List α
  | _, _, [] => []
  | listed, position, item :: items =>
    if listed.head? = some position then retainUnlisted listed.tail (position + 1) items
    else item :: retainUnlisted listed (position + 1) items

/-- Dropping the positions at which something was found. -/
theorem retainUnlisted_collect (find : α → Option β) (items : List α) (start : ℕ) :
    retainUnlisted ((collect find items start).map Prod.fst) start items =
      items.filter fun item ↦ (find item).isNone := by
  induction items generalizing start with
  | nil => rfl
  | cons item items ih =>
    rw [collect_cons, List.filter_cons]
    cases hnone : find item with
    | some found => simpa [retainUnlisted] using ih (start + 1)
    | none =>
      have hlater : ((collect find items (start + 1)).map Prod.fst).head? ≠ some start := by
        intro hhead
        obtain ⟨edit, hedit, hposition⟩ := List.mem_map.mp (List.mem_of_mem_head? hhead)
        have := le_of_mem_collect hedit
        omega
      change retainUnlisted ((collect find items (start + 1)).map Prod.fst) start (item :: items) = _
      rw [retainUnlisted, if_neg hlater, ih (start + 1)]
      rfl

end IndexedEdits

end SpineCodex
