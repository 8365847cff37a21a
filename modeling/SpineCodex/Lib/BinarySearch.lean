import Mathlib

/-!
# Binary search

The search of Rust's slices over a list that an order cuts into items below, at and above what is
searched.  The window is halved down to one item, which is compared once more.

For items with increasing keys the search finds what a scan finds (`binarySearchBy_key`), and the
partition point of a condition that holds up to some item is where a scan stops
(`drop_partitionPoint`).
-/

namespace SpineCodex

variable {α : Type*}

/-- The loop of `binary_search_by`: the window starts at `base` and has `size` items. -/
def searchLoop (order : α → Ordering) (items : List α) (base size : ℕ) : ℕ :=
  if 1 < size then
    let half := size / 2
    let mid := base + half
    if items[mid]?.map order = some .gt then searchLoop order items base (size - half)
    else searchLoop order items mid (size - half)
  else base
termination_by size
decreasing_by all_goals omega

/-- `binary_search_by`: the index of an equal item, or where one would be inserted. -/
def binarySearchBy (order : α → Ordering) (items : List α) : Except ℕ ℕ :=
  let base := searchLoop order items 0 items.length
  match items[base]?.map order with
  | some .eq => .ok base
  | some .lt => .error (base + 1)
  | some .gt | none => .error base

/-- `partition_point`. -/
def partitionPoint (condition : α → Bool) (items : List α) : ℕ :=
  match binarySearchBy (fun item ↦ if condition item then .lt else .gt) items with
  | .ok index | .error index => index

/-- The items below come first and the items above come last. -/
def CutBy (order : α → Ordering) (items : List α) : Prop :=
  items.Pairwise fun first second ↦
    (order second = .lt → order first = .lt) ∧ (order first = .gt → order second = .gt)

section Search

variable {order : α → Ordering} {items : List α}

/-- What lies behind the window is above, and what the window starts with is not, unless the window
starts the list. -/
structure Window (order : α → Ordering) (items : List α) (base size : ℕ) : Prop where
  nonempty : 0 < size
  inside : base + size ≤ items.length
  start : base = 0 ∨ items[base]?.map order ≠ some .gt
  above : ∀ index, base + size ≤ index → ∀ item, items[index]? = some item → order item = .gt

theorem CutBy.of_lt (h : CutBy order items) {first second : ℕ} (hlt : first < second)
    {a b : α} (ha : items[first]? = some a) (hb : items[second]? = some b) :
    (order b = .lt → order a = .lt) ∧ (order a = .gt → order b = .gt) := by
  obtain ⟨hfirst, rfl⟩ := List.getElem?_eq_some_iff.mp ha
  obtain ⟨hsecond, rfl⟩ := List.getElem?_eq_some_iff.mp hb
  exact List.pairwise_iff_getElem.mp h first second hfirst hsecond hlt

theorem window_searchLoop (hcut : CutBy order items) {base size : ℕ}
    (h : Window order items base size) : Window order items (searchLoop order items base size) 1 := by
  fun_induction searchLoop order items base size with
  | case1 base size hsize half mid habove ih =>
    have hhalf : half = size / 2 := rfl
    apply ih
    refine ⟨by omega, ?_, h.start, ?_⟩
    · have := h.inside
      omega
    · intro index hindex item hitem
      obtain ⟨middle, hmiddle, hgt⟩ := Option.map_eq_some_iff.mp habove
      -- the window now ends at the middle item or right behind it
      obtain hlt | rfl := Nat.lt_or_eq_of_le (show mid ≤ index by omega)
      · exact (hcut.of_lt hlt hmiddle hitem).2 hgt
      · rw [hmiddle] at hitem
        exact Option.some.inj hitem ▸ hgt
  | case2 base size hsize half mid hnot ih =>
    have hhalf : half = size / 2 := rfl
    have hinside := h.inside
    apply ih
    refine ⟨by omega, by omega, .inr hnot, ?_⟩
    intro index hindex
    exact h.above index (by omega)
  | case3 base size hsize =>
    have hone : size = 1 := by
      have := h.nonempty
      omega
    exact hone ▸ h

theorem window_of_ne_nil (h : items ≠ []) : Window order items 0 items.length := by
  refine ⟨List.length_pos_iff.mpr h, (zero_add _).le, .inl rfl, ?_⟩
  intro index hindex item hitem
  rw [List.getElem?_eq_none (by omega)] at hitem
  cases hitem

/-- A found index is that of an equal item; without one there is none, and the index that is
returned has what is below before it and what is above behind it. -/
theorem binarySearchBy_spec (hcut : CutBy order items) :
    match binarySearchBy order items with
    | .ok index => items[index]?.map order = some .eq
    | .error index => ∀ position item, items[position]? = some item →
        order item = if position < index then .lt else .gt := by
  by_cases hnil : items = []
  · subst hnil
    intro position item hitem
    cases hitem
  have hwindow := window_searchLoop hcut (window_of_ne_nil hnil)
  rw [binarySearchBy]
  set base := searchLoop order items 0 items.length
  have hbase : base < items.length := by
    have := hwindow.inside
    omega
  have hread : items[base]? = some items[base] := List.getElem?_eq_getElem hbase
  have habove : ∀ position item, items[position]? = some item → base < position →
      order item = .gt := fun position item hitem hlt ↦ hwindow.above position hlt item hitem
  rw [hread, Option.map_some]
  cases horder : order items[base] with
  | eq =>
    change items[base]?.map order = some .eq
    rw [hread, Option.map_some, horder]
  | lt =>
    intro position item hitem
    split_ifs with hposition
    · obtain hlt | rfl := Nat.lt_or_eq_of_le (Nat.lt_succ_iff.mp hposition)
      · exact (hcut.of_lt hlt hitem hread).1 horder
      · rw [hread] at hitem
        exact Option.some.inj hitem ▸ horder
    · exact habove position item hitem (by omega)
  | gt =>
    -- only the first item can end the search above
    have hzero : base = 0 := by
      apply hwindow.start.resolve_right
      rw [hread, Option.map_some, horder]
      exact fun h ↦ h rfl
    intro position item hitem
    rw [if_neg (by omega)]
    obtain hlt | rfl := Nat.lt_or_eq_of_le (show base ≤ position by omega)
    · exact habove position item hitem hlt
    · rw [hread] at hitem
      exact Option.some.inj hitem ▸ horder

end Search

/-! ## Keys and partitions -/

/-- In a list with increasing keys, the item at the index that is found is the one that a scan
finds. -/
theorem binarySearchBy_key {key : α → ℕ} {items : List α}
    (hkeys : items.Pairwise fun first second ↦ key first < key second) (wanted : ℕ) :
    ((binarySearchBy (fun item ↦ compare (key item) wanted) items).toOption.bind
      fun index ↦ items[index]?) = items.find? fun item ↦ key item == wanted := by
  have hcut : CutBy (fun item ↦ compare (key item) wanted) items := by
    refine hkeys.imp fun hlt ↦ ⟨fun hsecond ↦ ?_, fun hfirst ↦ ?_⟩
    · rw [Nat.compare_eq_lt] at hsecond ⊢
      omega
    · rw [Nat.compare_eq_gt] at hfirst ⊢
      omega
  have hspec := binarySearchBy_spec hcut
  cases hsearch : binarySearchBy (fun item ↦ compare (key item) wanted) items with
  | ok index =>
    rw [hsearch] at hspec
    obtain ⟨item, hitem, horder⟩ := Option.map_eq_some_iff.mp hspec
    rw [Nat.compare_eq_eq] at horder
    obtain ⟨hindex, rfl⟩ := List.getElem?_eq_some_iff.mp hitem
    change items[index]? = _
    rw [hitem, eq_comm, List.find?_eq_some_iff_getElem]
    refine ⟨beq_iff_eq.mpr horder, index, hindex, rfl, fun earlier hearlier ↦ ?_⟩
    have hlt := List.pairwise_iff_getElem.mp hkeys earlier index (by omega) hindex hearlier
    simp only [Bool.not_eq_eq_eq_not, Bool.not_true, beq_eq_false_iff_ne]
    omega
  | error index =>
    rw [hsearch] at hspec
    change none = _
    rw [eq_comm, List.find?_eq_none]
    intro item hitem heq
    obtain ⟨position, hposition, rfl⟩ := List.getElem_of_mem hitem
    have horder := hspec position _ (List.getElem?_eq_getElem hposition)
    rw [beq_iff_eq] at heq
    rw [heq, Nat.compare_eq_eq.mpr rfl] at horder
    split_ifs at horder

/-- A list is cut where a condition that holds of the items before an index, and of no other one,
ends. -/
theorem drop_eq_dropWhile {condition : α → Bool} {items : List α} {index : ℕ}
    (h : ∀ position item, items[position]? = some item → condition item = decide (position < index)) :
    items.drop index = items.dropWhile condition := by
  induction items generalizing index with
  | nil => rw [List.drop_nil, List.dropWhile_nil]
  | cons first items ih =>
    have hfirst := h 0 first rfl
    cases index with
    | zero => rw [List.drop_zero, List.dropWhile_cons_of_neg (by simp [hfirst])]
    | succ index =>
      rw [List.drop_succ_cons, List.dropWhile_cons_of_pos (by simp [hfirst])]
      apply ih
      intro position item hitem
      exact (h (position + 1) item hitem).trans (decide_eq_decide.mpr Nat.add_lt_add_iff_right)

/-- Behind the partition point of a condition that holds of the first items is what a scan leaves. -/
theorem drop_partitionPoint {condition : α → Bool} {items : List α}
    (hpartition : items.Pairwise fun first second ↦ condition second = true → condition first = true) :
    items.drop (partitionPoint condition items) = items.dropWhile condition := by
  set order : α → Ordering := fun item ↦ if condition item then .lt else .gt
  have hcut : CutBy order items := by
    refine hpartition.imp fun {first second} himp ↦ ?_
    simp only [order]
    cases hfirst : condition first <;> cases hsecond : condition second <;> simp_all
  have hspec := binarySearchBy_spec hcut
  rw [partitionPoint]
  cases hsearch : binarySearchBy order items with
  | ok index =>
    -- no item is equal
    rw [hsearch] at hspec
    obtain ⟨item, -, heq⟩ := Option.map_eq_some_iff.mp hspec
    simp only [order] at heq
    split_ifs at heq
  | error index =>
    rw [hsearch] at hspec
    apply drop_eq_dropWhile
    intro position item hitem
    have hside := hspec position item hitem
    simp only [order] at hside
    split_ifs at hside with hcondition hposition hposition
    · rw [hcondition, decide_eq_true hposition]
    · rw [Bool.eq_false_of_not_eq_true hcondition, decide_eq_false hposition]

section Sorted

variable {condition : α → Bool} {items : List α}

/-- A condition that only the first items meet is met by the items that a scan takes. -/
theorem takeWhile_eq_filter
    (h : items.Pairwise fun first second ↦ condition second = true → condition first = true) :
    items.takeWhile condition = items.filter condition := by
  induction items with
  | nil => rfl
  | cons first items ih =>
    obtain ⟨hfirst, hrest⟩ := List.pairwise_cons.mp h
    by_cases hcondition : condition first = true
    · rw [List.takeWhile_cons_of_pos hcondition, List.filter_cons_of_pos hcondition, ih hrest]
    · rw [List.takeWhile_cons_of_neg hcondition, List.filter_cons_of_neg hcondition, eq_comm,
        List.filter_eq_nil_iff]
      exact fun item hitem hlater ↦ hcondition (hfirst item hitem hlater)

theorem dropWhile_eq_filter
    (h : items.Pairwise fun first second ↦ condition second = true → condition first = true) :
    items.dropWhile condition = items.filter (!condition ·) := by
  induction items with
  | nil => rfl
  | cons first items ih =>
    obtain ⟨hfirst, hrest⟩ := List.pairwise_cons.mp h
    by_cases hcondition : condition first = true
    · rw [List.dropWhile_cons_of_pos hcondition, List.filter_cons_of_neg (by simp [hcondition]),
        ih hrest]
    · rw [List.dropWhile_cons_of_neg hcondition, eq_comm, List.filter_eq_self]
      intro item hitem
      rw [Bool.not_eq_true', Bool.eq_false_iff]
      obtain rfl | hlater := List.mem_cons.mp hitem
      · exact hcondition
      · exact fun hcontra ↦ hcondition (hfirst item hlater hcontra)

end Sorted

end SpineCodex
