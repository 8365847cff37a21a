import Mathlib

/-!
# Traversals that may fail

What a traversal of a list says about its items when it succeeds, and when it does.
-/

namespace SpineCodex

universe u v

theorem except_bind_eq_ok {ε : Type u} {α β : Type v} {x : Except ε α} {f : α → Except ε β} {b : β} :
    x >>= f = .ok b ↔ ∃ a, x = .ok a ∧ f a = .ok b := by
  cases x with
  | error e => simp [bind, Except.bind]
  | ok a => simp [bind, Except.bind]

/-- Every result of a traversal comes from one of its items. -/
theorem except_mapM_eq_ok {ε : Type u} {α β : Type v} {f : α → Except ε β} {xs : List α}
    {ys : List β} (h : xs.mapM f = .ok ys) : ∀ y ∈ ys, ∃ x ∈ xs, f x = .ok y := by
  induction xs generalizing ys with
  | nil =>
    cases h
    simp
  | cons x xs ih =>
    rw [List.mapM_cons, except_bind_eq_ok] at h
    obtain ⟨y, hy, h⟩ := h
    rw [except_bind_eq_ok] at h
    obtain ⟨rest, hrest, h⟩ := h
    cases h
    intro z hz
    rcases List.mem_cons.mp hz with rfl | hz
    · exact ⟨x, by simp, hy⟩
    · obtain ⟨x', hx', hf⟩ := ih hrest z hz
      exact ⟨x', by simp [hx'], hf⟩

/-- Every item of a traversal has its result. -/
theorem except_mapM_mem {ε : Type u} {α β : Type v} {f : α → Except ε β} {xs : List α}
    {ys : List β} (h : xs.mapM f = .ok ys) : ∀ x ∈ xs, ∃ y ∈ ys, f x = .ok y := by
  induction xs generalizing ys with
  | nil => simp
  | cons x xs ih =>
    rw [List.mapM_cons, except_bind_eq_ok] at h
    obtain ⟨y, hy, h⟩ := h
    rw [except_bind_eq_ok] at h
    obtain ⟨rest, hrest, h⟩ := h
    cases h
    intro z hz
    rcases List.mem_cons.mp hz with rfl | hz
    · exact ⟨y, by simp, hy⟩
    · obtain ⟨y', hy', hf⟩ := ih hrest z hz
      exact ⟨y', by simp [hy'], hf⟩

/-- A traversal succeeds if it does so at every item. -/
theorem except_mapM_exists {ε : Type u} {α β : Type v} {f : α → Except ε β} {xs : List α}
    (h : ∀ x ∈ xs, ∃ y, f x = .ok y) : ∃ ys, xs.mapM f = .ok ys := by
  induction xs with
  | nil => exact ⟨[], rfl⟩
  | cons x xs ih =>
    obtain ⟨y, hy⟩ := h x List.mem_cons_self
    obtain ⟨ys, hys⟩ := ih fun x' hx' ↦ h x' (List.mem_cons_of_mem _ hx')
    refine ⟨y :: ys, ?_⟩
    rw [List.mapM_cons, hy, hys]
    rfl

/-! ## Traversals that may find nothing -/

section Option

variable {α : Type u} {β : Type v} {f : α → Option β} {xs : List α} {ys : List β}

theorem option_mapM_cons_eq_some {x : α} :
    (x :: xs).mapM f = some ys ↔ ∃ y rest, f x = some y ∧ xs.mapM f = some rest ∧ ys = y :: rest := by
  simp only [List.mapM_cons, Option.bind_eq_bind, Option.bind_eq_some_iff, Option.pure_def,
    Option.some.injEq]
  constructor
  · rintro ⟨y, hy, rest, hrest, rfl⟩
    exact ⟨y, rest, hy, hrest, rfl⟩
  · rintro ⟨y, rest, hy, hrest, rfl⟩
    exact ⟨y, hy, rest, hrest, rfl⟩

theorem option_mapM_eq_some (h : xs.mapM f = some ys) : ∀ y ∈ ys, ∃ x ∈ xs, f x = some y := by
  induction xs generalizing ys with
  | nil =>
    cases h
    simp
  | cons x xs ih =>
    obtain ⟨y, rest, hy, hrest, rfl⟩ := option_mapM_cons_eq_some.mp h
    intro z hz
    rcases List.mem_cons.mp hz with rfl | hz
    · exact ⟨x, by simp, hy⟩
    · obtain ⟨x', hx', hf⟩ := ih hrest z hz
      exact ⟨x', by simp [hx'], hf⟩

theorem option_mapM_mem (h : xs.mapM f = some ys) : ∀ x ∈ xs, ∃ y ∈ ys, f x = some y := by
  induction xs generalizing ys with
  | nil => simp
  | cons x xs ih =>
    obtain ⟨y, rest, hy, hrest, rfl⟩ := option_mapM_cons_eq_some.mp h
    intro z hz
    rcases List.mem_cons.mp hz with rfl | hz
    · exact ⟨y, by simp, hy⟩
    · obtain ⟨y', hy', hf⟩ := ih hrest z hz
      exact ⟨y', by simp [hy'], hf⟩

theorem option_mapM_length (h : xs.mapM f = some ys) : ys.length = xs.length := by
  induction xs generalizing ys with
  | nil =>
    cases h
    rfl
  | cons x xs ih =>
    obtain ⟨y, rest, -, hrest, rfl⟩ := option_mapM_cons_eq_some.mp h
    rw [List.length_cons, List.length_cons, ih hrest]

theorem option_mapM_eq_none_iff : xs.mapM f = none ↔ ∃ x ∈ xs, f x = none := by
  induction xs with
  | nil => simp
  | cons x xs ih =>
    rw [List.exists_mem_cons_iff, ← ih, List.mapM_cons]
    cases f x with
    | none => simp
    | some y =>
      cases xs.mapM f with
      | none => simp
      | some ys => simp

end Option

end SpineCodex
