import Mathlib

/-!
# Fallible computations that may also abort

A call of a fallible function either returns a value, returns an error to its
caller, or aborts the process at a failed assertion.  `Outcome` keeps the last
two apart, so that "no reachable state aborts" is a statement of its own.
-/

namespace SpineCodex

universe u v

/-- The result of one call: a value, an error handed to the caller, or an abort. -/
inductive Outcome (ε : Type u) (α : Type v) where
  | ok (value : α)
  | err (error : ε)
  | crash
  deriving Repr, DecidableEq

namespace Outcome

variable {ε ε' : Type u} {α β : Type v}

protected def bind : Outcome ε α → (α → Outcome ε β) → Outcome ε β
  | .ok a, f => f a
  | .err e, _ => .err e
  | .crash, _ => .crash

instance : Monad (Outcome ε) where
  pure := .ok
  bind := Outcome.bind

/-- Changes the error of a call, as `map_err` does. -/
def mapErr (f : ε → ε') : Outcome ε α → Outcome ε' α
  | .ok a => .ok a
  | .err e => .err (f e)
  | .crash => .crash

/-- A lookup whose failure aborts. -/
def expect : Option α → Outcome ε α
  | some a => .ok a
  | none => .crash

/-- A lookup whose failure is the error `e`. -/
def okOr (e : ε) : Option α → Outcome ε α
  | some a => .ok a
  | none => .err e

/-- A check that returns the error `e` when it fails. -/
def require (condition : Prop) [Decidable condition] (e : ε) : Outcome ε Unit :=
  if condition then .ok () else .err e

@[simp]
theorem pure_eq (a : α) : (pure a : Outcome ε α) = .ok a := rfl

@[simp]
theorem ok_bind (a : α) (f : α → Outcome ε β) : (Outcome.ok a >>= f) = f a := rfl

@[simp]
theorem err_bind (e : ε) (f : α → Outcome ε β) : (Outcome.err e >>= f) = .err e := rfl

@[simp]
theorem crash_bind (f : α → Outcome ε β) : (Outcome.crash >>= f) = .crash := rfl

@[simp]
theorem map_ok (f : α → β) (a : α) : f <$> (Outcome.ok a : Outcome ε α) = .ok (f a) := rfl

@[simp]
theorem map_err (f : α → β) (e : ε) : f <$> (Outcome.err e : Outcome ε α) = .err e := rfl

@[simp]
theorem map_crash (f : α → β) : f <$> (Outcome.crash : Outcome ε α) = .crash := rfl

instance : LawfulMonad (Outcome ε) := LawfulMonad.mk' _
  (fun x ↦ by cases x <;> rfl) (fun _ _ ↦ rfl) (fun x _ _ ↦ by cases x <;> rfl)

/-- A composed call returns exactly when its first part does and the second part does from there. -/
theorem bind_eq_ok {x : Outcome ε α} {f : α → Outcome ε β} {b : β} :
    (x >>= f) = .ok b ↔ ∃ a, x = .ok a ∧ f a = .ok b := by
  cases x <;> simp

theorem bind_eq_err {x : Outcome ε α} {f : α → Outcome ε β} {e : ε} :
    (x >>= f) = .err e ↔ x = .err e ∨ ∃ a, x = .ok a ∧ f a = .err e := by
  cases x <;> simp

theorem bind_eq_crash {x : Outcome ε α} {f : α → Outcome ε β} :
    (x >>= f) = .crash ↔ x = .crash ∨ ∃ a, x = .ok a ∧ f a = .crash := by
  cases x <;> simp

@[simp]
theorem mapErr_ok (f : ε → ε') (a : α) : (Outcome.ok a : Outcome ε α).mapErr f = .ok a := rfl

@[simp]
theorem mapErr_err (f : ε → ε') (e : ε) : (Outcome.err e : Outcome ε α).mapErr f = .err (f e) := rfl

@[simp]
theorem mapErr_crash (f : ε → ε') : (Outcome.crash : Outcome ε α).mapErr f = .crash := rfl

@[simp]
theorem mapErr_eq_ok {f : ε → ε'} {x : Outcome ε α} {a : α} : x.mapErr f = .ok a ↔ x = .ok a := by
  cases x <;> simp

theorem mapErr_eq_err {f : ε → ε'} {x : Outcome ε α} {e : ε'} :
    x.mapErr f = .err e ↔ ∃ e₀, x = .err e₀ ∧ f e₀ = e := by
  cases x <;> simp

@[simp]
theorem mapErr_eq_crash {f : ε → ε'} {x : Outcome ε α} : x.mapErr f = .crash ↔ x = .crash := by
  cases x <;> simp

/-- The errors of a composed call are changed in both of its parts. -/
theorem mapErr_bind (f : ε → ε') (x : Outcome ε α) (k : α → Outcome ε β) :
    (x >>= k).mapErr f = x.mapErr f >>= fun a ↦ (k a).mapErr f := by
  cases x <;> rfl

theorem mapErr_mapErr {ε'' : Type u} (f : ε → ε') (g : ε' → ε'') (x : Outcome ε α) :
    (x.mapErr f).mapErr g = x.mapErr (g ∘ f) := by
  cases x <;> rfl

@[simp]
theorem mapErr_id (x : Outcome ε α) : x.mapErr id = x := by
  cases x <;> rfl

@[simp]
theorem expect_eq_ok {o : Option α} {a : α} : (expect o : Outcome ε α) = .ok a ↔ o = some a := by
  cases o <;> simp [expect]

@[simp]
theorem okOr_eq_ok {e : ε} {o : Option α} {a : α} : okOr e o = .ok a ↔ o = some a := by
  cases o <;> simp [okOr]

@[simp]
theorem require_eq_ok {condition : Prop} [Decidable condition] {e : ε} {u : Unit} :
    require condition e = .ok u ↔ condition := by
  unfold require
  split <;> simp_all

@[simp]
theorem require_ne_crash {condition : Prop} [Decidable condition] {e : ε} :
    require condition e ≠ .crash := by
  unfold require
  split <;> simp

theorem require_eq_err {condition : Prop} [Decidable condition] {e e' : ε} :
    require condition e = .err e' ↔ ¬condition ∧ e = e' := by
  unfold require
  split <;> simp_all

/-- A composed call that aborts has a part that does. -/
theorem bind_ne_crash {x : Outcome ε α} {f : α → Outcome ε β} (hx : x ≠ .crash)
    (hf : ∀ a, f a ≠ .crash) : (x >>= f) ≠ .crash := by
  cases x with
  | ok a => exact hf a
  | err e => simp
  | crash => exact absurd rfl hx

/-- Whether a call returns a value with a property. -/
def any (p : α → Bool) : Outcome ε α → Bool
  | .ok a => p a
  | .err _ | .crash => false

theorem any_eq_true {p : α → Bool} {x : Outcome ε α} :
    x.any p = true ↔ ∃ a, x = .ok a ∧ p a = true := by
  cases x <;> simp [any]

/-! ## Loops -/

/-- What every iteration keeps, the whole loop keeps. -/
theorem foldlM_induction {ι : Type*} {f : β → ι → Outcome ε β} {motive : β → Prop}
    {items : List ι}
    (hstep : ∀ s s' a, a ∈ items → motive s → f s a = .ok s' → motive s')
    {s s' : β} (hs : motive s) (hrun : items.foldlM f s = .ok s') : motive s' := by
  induction items generalizing s with
  | nil =>
    simp only [List.foldlM_nil, pure_eq, ok.injEq] at hrun
    exact hrun ▸ hs
  | cons a items ih =>
    rw [List.foldlM_cons, bind_eq_ok] at hrun
    obtain ⟨s₁, hs₁, hrest⟩ := hrun
    have hmotive := hstep s s₁ a List.mem_cons_self hs hs₁
    exact ih (fun s s' b hb ↦ hstep s s' b (List.mem_cons_of_mem a hb)) hmotive hrest

theorem forM_eq_ok {ι : Type*} {f : ι → Outcome ε PUnit} {items : List ι} :
    items.forM f = .ok ⟨⟩ ↔ ∀ a ∈ items, f a = .ok ⟨⟩ := by
  induction items with
  | nil => simp [List.forM]
  | cons a rest ih =>
    have hcons : (a :: rest).forM f = (f a >>= fun _ ↦ rest.forM f) := rfl
    rw [hcons, bind_eq_ok, List.forall_mem_cons]
    constructor
    · rintro ⟨⟨⟩, ha, hrest⟩
      exact ⟨ha, ih.mp hrest⟩
    · rintro ⟨ha, hrest⟩
      exact ⟨⟨⟩, ha, ih.mpr hrest⟩

theorem forM_ne_crash {ι : Type*} {f : ι → Outcome ε PUnit} (hf : ∀ a, f a ≠ .crash)
    (items : List ι) : items.forM f ≠ .crash := by
  induction items with
  | nil => simp
  | cons a items ih =>
    exact bind_ne_crash (hf a) fun _ ↦ ih

/-- A loop fails with the error of one of its items. -/
theorem exists_of_forM_eq_err {ι : Type*} {f : ι → Outcome ε PUnit} {items : List ι} {e : ε}
    (h : items.forM f = .err e) : ∃ a ∈ items, f a = .err e := by
  induction items with
  | nil => simp at h
  | cons a items ih =>
    have hcons : (a :: items).forM f = (f a >>= fun _ ↦ items.forM f) := rfl
    rw [hcons, bind_eq_err] at h
    rcases h with ha | ⟨_, -, hrest⟩
    · exact ⟨a, List.mem_cons_self, ha⟩
    · obtain ⟨b, hb, herr⟩ := ih hrest
      exact ⟨b, List.mem_cons_of_mem a hb, herr⟩

end Outcome

end SpineCodex
