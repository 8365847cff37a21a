import Mathlib

/-!
# Lists that grow at their end

A list is built from left to right: elements are appended, and only the last one may still change,
to something that is related to what it was.
-/

namespace SpineCodex.GrowingList

variable {α : Type*} {r : α → α → Prop} {list list' list'' : List α}

variable (r) in
/-- All but the last element are kept, the last becomes a related one, and others may follow. -/
def Grows (list list' : List α) : Prop :=
  list = [] ∨ ∃ front last last' back,
    list = front ++ [last] ∧ list' = front ++ last' :: back ∧ r last last'

theorem Grows.of_last {front : List α} {last last' : α} (h : r last last') :
    Grows r (front ++ [last]) (front ++ [last']) :=
  .inr ⟨front, last, last', [], rfl, rfl, h⟩

theorem Grows.append (hrefl : ∀ a, r a a) (list back : List α) : Grows r list (list ++ back) := by
  rcases List.eq_nil_or_concat list with rfl | ⟨front, last, rfl⟩
  · exact .inl rfl
  · exact .inr ⟨front, last, last, back, by simp, by simp, hrefl last⟩

theorem Grows.refl (hrefl : ∀ a, r a a) (list : List α) : Grows r list list := by
  simpa using Grows.append hrefl list []

theorem Grows.trans (htrans : ∀ a b c, r a b → r b c → r a c) (h : Grows r list list')
    (h' : Grows r list' list'') : Grows r list list'' := by
  rcases h with rfl | ⟨front, last, last', back, rfl, rfl, hlast⟩
  · exact .inl rfl
  rcases h' with hnil | ⟨front', end₁, end₂, back', heq, rfl, hend⟩
  · simp at hnil
  -- the last element of the first list is still the last one, or it is kept from now on
  rcases List.eq_nil_or_concat back with rfl | ⟨back₁, end₃, rfl⟩
  · obtain ⟨rfl, hsame⟩ := List.append_inj' heq rfl
    obtain rfl : last' = end₁ := by simpa using hsame
    exact .inr ⟨front, last, end₂, back', rfl, rfl, htrans _ _ _ hlast hend⟩
  · have hends : (front ++ last' :: back₁) ++ [end₃] = front' ++ [end₁] := by simpa using heq
    obtain ⟨hfront, -⟩ := List.append_inj' hends rfl
    exact .inr ⟨front, last, last', back₁ ++ end₂ :: back', rfl, by simp [← hfront], hlast⟩

end SpineCodex.GrowingList
