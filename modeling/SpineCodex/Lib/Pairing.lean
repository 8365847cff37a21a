import Mathlib.Data.List.Basic
import Mathlib.Tactic.Common

/-!
# Calls and their outputs

A list of items, some of which are calls and some outputs, both under a key.  Completing a list
adds an output behind every call that has none; pruning removes the outputs without a call.
-/

namespace SpineCodex

/-- How items are calls or outputs, and the output that is made up for a call.  Some outputs may
stand without a call. -/
structure Pairing (α κ : Type*) where
  call : α → Option κ
  output : α → Option κ
  exempt : α → Bool
  answer : α → κ → α
  output_of_call : ∀ {item key}, call item = some key → output item = none
  call_answer : ∀ {item key}, call item = some key → call (answer item key) = none
  output_answer : ∀ {item key}, call item = some key → output (answer item key) = some key

namespace Pairing

variable {α κ : Type*} [DecidableEq κ] (pairing : Pairing α κ) (items : List α)

def calls : List κ :=
  items.filterMap pairing.call

def outputs : List κ :=
  items.filterMap pairing.output

/-- The output that a call lacks. -/
def missing (item : α) : Option α :=
  (pairing.call item).bind fun key ↦
    if key ∈ pairing.outputs items then none else some (pairing.answer item key)

/-- An output whose key no item calls. -/
def orphan (item : α) : Bool :=
  !pairing.exempt item && (pairing.output item).any fun key ↦ decide (key ∉ pairing.calls items)

def complete : List α :=
  items.flatMap fun item ↦ item :: (pairing.missing items item).toList

def prune : List α :=
  items.filter fun item ↦ !pairing.orphan items item

variable {pairing items} {item found : α} {key : κ}

omit [DecidableEq κ] in
theorem mem_calls : key ∈ pairing.calls items ↔ ∃ item ∈ items, pairing.call item = some key :=
  List.mem_filterMap

omit [DecidableEq κ] in
theorem mem_outputs :
    key ∈ pairing.outputs items ↔ ∃ item ∈ items, pairing.output item = some key :=
  List.mem_filterMap

theorem missing_eq_some (h : pairing.missing items item = some found) :
    ∃ key, pairing.call item = some key ∧ key ∉ pairing.outputs items ∧
      found = pairing.answer item key := by
  obtain ⟨key, hcall, hfound⟩ := Option.bind_eq_some_iff.mp h
  split_ifs at hfound with hkey
  exact ⟨key, hcall, hkey, (Option.some.inj hfound).symm⟩

theorem orphan_eq_true : pairing.orphan items item = true ↔
    pairing.exempt item = false ∧ ∃ key, pairing.output item = some key ∧
      key ∉ pairing.calls items := by
  simp only [orphan, Bool.and_eq_true, Bool.not_eq_true', Option.any_eq_true, decide_eq_true_eq]

theorem orphan_of_call (h : pairing.call item = some key) : pairing.orphan items item = false := by
  simp [orphan, pairing.output_of_call h]

theorem orphan_of_mem_calls (houtput : pairing.output item = some key)
    (hcall : key ∈ pairing.calls items) : pairing.orphan items item = false := by
  simp [orphan, houtput, hcall]

/-- A list in which nothing is missing is complete. -/
theorem complete_eq_self (h : ∀ key ∈ pairing.calls items, key ∈ pairing.outputs items) :
    pairing.complete items = items := by
  have hnone : ∀ item ∈ items, item :: (pairing.missing items item).toList = [item] := by
    intro item hitem
    cases hmissing : pairing.missing items item with
    | none => rfl
    | some found =>
      obtain ⟨key, hcall, hkey, -⟩ := missing_eq_some hmissing
      exact absurd (h key (mem_calls.mpr ⟨item, hitem, hcall⟩)) hkey
  calc
    pairing.complete items = items.flatMap fun item ↦ [item] := List.flatMap_congr hnone
    _ = items := List.flatMap_singleton' items

/-- Only calls get an output, so no call is added. -/
theorem calls_complete : pairing.calls (pairing.complete items) = pairing.calls items := by
  rw [calls, complete, List.filterMap_flatMap, calls, List.filterMap_eq_flatMap_toList]
  apply List.flatMap_congr
  intro item _
  cases hmissing : pairing.missing items item with
  | none => cases hcall : pairing.call item <;> simp [hcall]
  | some found =>
    obtain ⟨key, hcall, -, rfl⟩ := missing_eq_some hmissing
    simp [hcall, pairing.call_answer hcall]

theorem orphan_complete :
    pairing.orphan (pairing.complete items) item = pairing.orphan items item := by
  rw [orphan, orphan, calls_complete]

omit [DecidableEq κ] in
theorem flatMap_filter (p : α → Bool) (f : α → List α) :
    (items.filter p).flatMap f = items.flatMap fun item ↦ if p item then f item else [] := by
  induction items with
  | nil => rfl
  | cons item items ih => cases hp : p item <;> simp [hp, ih]

/-- Pruning a completed list removes the orphans of the list itself, and no added output. -/
theorem prune_complete : pairing.prune (pairing.complete items) =
    (pairing.prune items).flatMap fun item ↦ item :: (pairing.missing items item).toList := by
  simp only [prune, orphan_complete]
  rw [complete, List.filter_flatMap, flatMap_filter]
  apply List.flatMap_congr
  intro item hitem
  cases hmissing : pairing.missing items item with
  | none => cases horphan : pairing.orphan items item <;> simp [horphan]
  | some found =>
    obtain ⟨key, hcall, -, rfl⟩ := missing_eq_some hmissing
    have hadded := orphan_of_mem_calls (pairing.output_answer hcall)
      (mem_calls.mpr ⟨item, hitem, hcall⟩)
    simp [orphan_of_call hcall, hadded]

theorem mem_outputs_complete (h : key ∈ pairing.calls items) :
    key ∈ pairing.outputs (pairing.complete items) := by
  by_cases hkey : key ∈ pairing.outputs items
  · obtain ⟨item, hitem, houtput⟩ := mem_outputs.mp hkey
    exact mem_outputs.mpr ⟨item, List.mem_flatMap.mpr ⟨item, hitem, List.mem_cons_self⟩, houtput⟩
  · obtain ⟨item, hitem, hcall⟩ := mem_calls.mp h
    refine mem_outputs.mpr ⟨pairing.answer item key, List.mem_flatMap.mpr ⟨item, hitem, ?_⟩,
      pairing.output_answer hcall⟩
    simp [missing, hcall, hkey]

/-- Calls are never pruned. -/
theorem calls_prune : pairing.calls (pairing.prune items) = pairing.calls items := by
  rw [calls, prune, List.filterMap_filter, calls]
  apply List.filterMap_congr
  intro item _
  cases hcall : pairing.call item with
  | none => simp
  | some key => simp [orphan_of_call hcall]

/-- After both steps every call has an output. -/
theorem mem_outputs_of_mem_calls (h : key ∈ pairing.calls (pairing.prune (pairing.complete items))) :
    key ∈ pairing.outputs (pairing.prune (pairing.complete items)) := by
  rw [calls_prune] at h
  have hcall : key ∈ pairing.calls items := by
    rwa [calls_complete] at h
  obtain ⟨item, hitem, houtput⟩ := mem_outputs.mp (mem_outputs_complete hcall)
  refine mem_outputs.mpr ⟨item, List.mem_filter.mpr ⟨hitem, ?_⟩, houtput⟩
  simp [orphan_of_mem_calls houtput h]

/-- After pruning every output that needs a call has one. -/
theorem mem_calls_of_output (hitem : item ∈ pairing.prune items)
    (houtput : pairing.output item = some key) (hexempt : pairing.exempt item = false) :
    key ∈ pairing.calls (pairing.prune items) := by
  rw [calls_prune]
  by_contra hkey
  have horphan := orphan_eq_true.mpr ⟨hexempt, key, houtput, hkey⟩
  simp [prune, horphan] at hitem

theorem prune_prune : pairing.prune (pairing.prune items) = pairing.prune items := by
  refine List.filter_eq_self.mpr fun item hitem ↦ ?_
  have hkept := (List.mem_filter.mp hitem).2
  rwa [orphan, calls_prune, ← orphan]

/-- Both steps once more change nothing. -/
theorem prune_complete_idem :
    pairing.prune (pairing.complete (pairing.prune (pairing.complete items))) =
      pairing.prune (pairing.complete items) := by
  rw [complete_eq_self fun key h ↦ mem_outputs_of_mem_calls h, prune_prune]

end Pairing

end SpineCodex
