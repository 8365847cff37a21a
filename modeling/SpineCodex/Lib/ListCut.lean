import Mathlib.Data.List.DropRight

/-!
# Cutting a list before its last marked elements

A list has marked elements, and a cut of `n` of them keeps what stands before the `n`-th last
one, or before the first one when there are fewer.  The cut is given by concatenation, so that
programs which look for it by index and programs which do not can be compared.
-/

namespace SpineCodex

namespace ListCut

variable {α : Type*} (p : α → Bool)

/-- `front` is what a cut of `n` marked elements keeps of `l`. -/
def Before (n : ℕ) (l front : List α) : Prop :=
  ∃ a back, l = front ++ a :: back ∧ p a = true ∧
    (back.countP p + 1 = n ∨ front.countP p = 0 ∧ back.countP p + 1 < n)

/-- The positions of the marked elements. -/
def positions (l : List α) : List ℕ :=
  l.zipIdx.filterMap fun item ↦ if p item.1 then some item.2 else none

variable {p} {n m : ℕ} {l front front' : List α}

theorem Before.pos (h : Before p n l front) : 0 < n := by
  obtain ⟨a, back, -, -, hback | ⟨-, hback⟩⟩ := h <;> omega

theorem Before.countP_pos (h : Before p n l front) : 0 < l.countP p := by
  obtain ⟨a, back, rfl, ha, -⟩ := h
  rw [List.countP_append, List.countP_cons_of_pos ha]
  omega

/-- Two marked elements with equally many marked ones before them are the same. -/
theorem front_eq_of_countP {a a' : α} {back back' : List α} (hl : front ++ a :: back = front' ++ a' :: back')
    (ha : p a = true) (ha' : p a' = true) (hcount : front.countP p = front'.countP p) :
    front = front' := by
  rcases List.append_eq_append_iff.mp hl with ⟨more, hfront, hrest⟩ | ⟨more, hfront, hrest⟩
  · cases more with
    | nil => rw [hfront, List.append_nil]
    | cons b more =>
      obtain ⟨rfl, -⟩ := List.cons.inj hrest
      rw [hfront, List.countP_append, List.countP_cons_of_pos ha] at hcount
      omega
  · cases more with
    | nil => rw [hfront, List.append_nil]
    | cons b more =>
      obtain ⟨rfl, -⟩ := List.cons.inj hrest
      rw [hfront, List.countP_append, List.countP_cons_of_pos ha'] at hcount
      omega

/-- A cut is determined by its number of marked elements. -/
theorem Before.unique (h : Before p n l front) (h' : Before p n l front') : front = front' := by
  obtain ⟨a, back, rfl, ha, hback⟩ := h
  obtain ⟨a', back', hl, ha', hback'⟩ := h'
  have htotal := congrArg (List.countP p) hl
  simp only [List.countP_append, List.countP_cons_of_pos ha, List.countP_cons_of_pos ha'] at htotal
  refine front_eq_of_countP hl ha ha' ?_
  omega

/-- Cuts compose by adding their numbers. -/
theorem Before.trans (h : Before p n l front) (h' : Before p m front front') :
    Before p (n + m) l front' := by
  obtain ⟨a, back, rfl, ha, hback⟩ := h
  obtain ⟨a', back', rfl, ha', hback'⟩ := h'
  refine ⟨a', back' ++ a :: back, by simp, ha', ?_⟩
  simp only [List.countP_append, List.countP_cons_of_pos ha, List.countP_cons_of_pos ha'] at hback ⊢
  omega

/-- Behind a cut that leaves no marked element, larger cuts keep the same. -/
theorem Before.of_countP_eq_zero (h : Before p n l front) (hfront : front.countP p = 0) :
    Before p (n + m) l front := by
  obtain ⟨a, back, rfl, ha, hback⟩ := h
  exact ⟨a, back, rfl, ha, by omega⟩

/-- A cut does not depend on what stands behind the last marked element. -/
theorem Before.change_tail {shared tail tail' : List α} (h : Before p n (shared ++ tail) front)
    (htail : tail.countP p = 0) (htail' : tail'.countP p = 0) : Before p n (shared ++ tail') front := by
  obtain ⟨a, back, hl, ha, hback⟩ := h
  rcases List.append_eq_append_iff.mp hl with ⟨more, hfront, hrest⟩ | ⟨more, hshared, hrest⟩
  · -- the marked element would stand in the tail
    rw [hrest, List.countP_append, List.countP_cons_of_pos ha] at htail
    omega
  · cases more with
    | nil =>
      rw [List.nil_append] at hrest
      rw [← hrest, List.countP_cons_of_pos ha] at htail
      omega
    | cons b more =>
      obtain ⟨rfl, hmore⟩ := List.cons.inj hrest
      refine ⟨a, more ++ tail', by simp [hshared], ha, ?_⟩
      change back = more ++ tail at hmore
      rw [hmore, List.countP_append, htail] at hback
      rwa [List.countP_append, htail']

/-- Translating a list so that marked elements stay marked, and dropping unmarked ones, keeps the
number of marked elements. -/
theorem countP_filterMap {β : Type*} {f : α → Option β} {q : β → Bool} (hf : ∀ a, p a = (f a).any q)
    (l : List α) : (l.filterMap f).countP q = l.countP p := by
  induction l with
  | nil => rfl
  | cons a l ih =>
    rw [List.countP_cons, hf a, ← ih]
    cases ha : f a with
    | none => simp [ha]
    | some b => simp [ha, List.countP_cons]

/-- Such a translation translates what a cut keeps. -/
theorem Before.filterMap {β : Type*} {f : α → Option β} {q : β → Bool}
    (hf : ∀ a, p a = (f a).any q) (h : Before p n l front) :
    Before q n (l.filterMap f) (front.filterMap f) := by
  obtain ⟨a, back, rfl, ha, hback⟩ := h
  rw [hf a, Option.any_eq_true] at ha
  obtain ⟨b, hb, hmarked⟩ := ha
  refine ⟨b, back.filterMap f, ?_, hmarked, ?_⟩
  · rw [List.filterMap_append, List.filterMap_cons_some hb]
  · rwa [countP_filterMap hf, countP_filterMap hf]

/-- Dropping from the end stops at an element that is not dropped. -/
theorem rdropWhile_append {q : α → Bool} {tail : List α} {a : α} (hmem : a ∈ tail) (ha : q a = false) :
    (l ++ tail).rdropWhile q = l ++ tail.rdropWhile q := by
  have hkept : (tail.reverse.dropWhile q).isEmpty = false := by
    rw [List.isEmpty_eq_false_iff, Ne, List.dropWhile_eq_nil_iff]
    intro hall
    exact absurd (hall a (List.mem_reverse.mpr hmem)) (by simp [ha])
  rw [List.rdropWhile, List.reverse_append, List.dropWhile_append, hkept]
  simp [List.rdropWhile]

/-! ## Positions -/

theorem positions_concat (l : List α) (a : α) :
    positions p (l ++ [a]) = positions p l ++ if p a then [l.length] else [] := by
  rw [positions, List.zipIdx_append, List.filterMap_append, ← positions]
  congr 1
  by_cases ha : p a = true <;> simp [ha]

theorem length_positions (l : List α) : (positions p l).length = l.countP p := by
  induction l using List.reverseRecOn with
  | nil => rfl
  | append_singleton l a ih =>
    rw [positions_concat, List.length_append, ih, List.countP_append]
    by_cases ha : p a = true <;> simp [ha]

/-- Each position splits the list at a marked element. -/
theorem exists_of_positions {l : List α} {j i : ℕ} (h : (positions p l)[j]? = some i) :
    ∃ a back, l = l.take i ++ a :: back ∧ i < l.length ∧ p a = true ∧ (l.take i).countP p = j := by
  induction l using List.reverseRecOn generalizing j with
  | nil => simp [positions] at h
  | append_singleton l a ih =>
    rw [positions_concat] at h
    by_cases hj : j < (positions p l).length
    · rw [List.getElem?_append_left hj] at h
      obtain ⟨b, back, hl, hi, hb, hcount⟩ := ih h
      have htake : (l ++ [a]).take i = l.take i := List.take_append_of_le_length hi.le
      refine ⟨b, back ++ [a], ?_, by simp; omega, hb, htake ▸ hcount⟩
      rw [htake]
      nth_rewrite 1 [hl]
      simp
    · rw [List.getElem?_append_right (Nat.le_of_not_lt hj)] at h
      split_ifs at h with ha
      · obtain ⟨hzero, hi⟩ : j - (positions p l).length = 0 ∧ l.length = i := by
          cases hk : j - (positions p l).length with
          | zero => exact ⟨rfl, by simpa [hk] using h⟩
          | succ k => simp [hk] at h
        subst hi
        rw [length_positions] at hj hzero
        exact ⟨a, [], by simp, by simp, ha, by simp; omega⟩
      · simp at h

/-- The position that is `n` from the end, or else the first one, is where the list is cut. -/
theorem before_of_positions {i : ℕ}
    (h : (positions p l)[(positions p l).length - n]? = some i) : Before p n l (l.take i) := by
  obtain ⟨a, back, hl, hi, ha, hcount⟩ := exists_of_positions h
  have htotal := congrArg (List.countP p) hl
  rw [List.countP_append, List.countP_cons_of_pos ha, hcount] at htotal
  rw [length_positions] at htotal hcount
  exact ⟨a, back, hl, ha, by omega⟩

theorem exists_position (hl : 0 < l.countP p) (hn : 0 < n) :
    ∃ i, (positions p l)[(positions p l).length - n]? = some i ∧ i < l.length := by
  have hlt : (positions p l).length - n < (positions p l).length := by
    rw [length_positions]
    omega
  refine ⟨_, List.getElem?_eq_getElem hlt, ?_⟩
  obtain ⟨-, -, -, hi, -⟩ := exists_of_positions (List.getElem?_eq_getElem hlt)
  exact hi

/-- Every list with a marked element has a cut of each positive number. -/
theorem exists_before (hl : 0 < l.countP p) (hn : 0 < n) : ∃ front, Before p n l front := by
  obtain ⟨i, hi, -⟩ := exists_position hl hn
  exact ⟨l.take i, before_of_positions hi⟩

theorem exists_first_position (hl : 0 < l.countP p) : ∃ first, (positions p l)[0]? = some first := by
  have hpos : 0 < (positions p l).length := by rwa [length_positions]
  exact ⟨_, List.getElem?_eq_getElem hpos⟩

/-- What stands before a position is empty of marked elements for the first position only, and
otherwise goes on behind the first position with a marked element. -/
theorem take_position {first i j : ℕ} (hfirst : (positions p l)[0]? = some first)
    (hi : (positions p l)[j]? = some i) :
    if (l.take i).countP p = 0 then i = first
    else first < l.length ∧ ∃ a middle, p a = true ∧ l.take i = l.take first ++ a :: middle := by
  obtain ⟨a, back, hsplit, hlt, ha, hnone⟩ := exists_of_positions hfirst
  obtain ⟨b, rest, hb, hilt, hmark, -⟩ := exists_of_positions hi
  split_ifs with hcount
  · have hsame := front_eq_of_countP (hb.symm.trans hsplit) hmark ha (hcount.trans hnone.symm)
    have hlength := congrArg List.length hsame
    rwa [List.length_take_of_le hilt.le, List.length_take_of_le hlt.le] at hlength
  · obtain ⟨k, hk⟩ := exists_first_position (Nat.pos_of_ne_zero hcount)
    obtain ⟨c, middle, hc, -, hmarked, hzero⟩ := exists_of_positions hk
    have hl : (l.take i).take k ++ c :: (middle ++ b :: rest) = l.take first ++ a :: back := by
      rw [← List.cons_append, ← List.append_assoc, ← hc, ← hb, ← hsplit]
    have hsame := front_eq_of_countP hl hmarked ha (hzero.trans hnone.symm)
    exact ⟨hlt, c, middle, hmarked, hsame ▸ hc⟩

end ListCut

end SpineCodex
