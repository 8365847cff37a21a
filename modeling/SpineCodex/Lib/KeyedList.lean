import Mathlib

/-!
# Lists searched by key

A list of records looked up by the first record with a given key, updated in
place at that record and extended at its end.  As long as keys are distinct the
list is a finite map in insertion order.
-/

namespace SpineCodex.KeyedList

variable {α κ : Type*} [DecidableEq κ] (key : α → κ)

/-- The first record with key `k`. -/
def lookup (records : List α) (k : κ) : Option α := records.find? fun a ↦ key a == k

/-- The position of the first record with key `k`. -/
def index (records : List α) (k : κ) : Option ℕ := records.findIdx? fun a ↦ key a == k

variable {key}

theorem getElem?_of_index (records : List α) (k : κ) :
    (index key records k).bind (fun i ↦ records[i]?) = lookup key records k := by
  induction records with
  | nil => rfl
  | cons a records ih =>
    by_cases ha : key a = k
    · simp [index, lookup, List.findIdx?_cons, ha]
    · simp only [index, lookup] at ih
      simp [index, lookup, List.findIdx?_cons, ha, Option.bind_map, ih]

theorem index_isSome (records : List α) (k : κ) :
    (index key records k).isSome = (lookup key records k).isSome := by
  rw [Bool.eq_iff_iff]
  simp [index, lookup]

theorem lookup_key {records : List α} {k : κ} {a : α} (h : lookup key records k = some a) :
    key a = k := by
  simpa using List.find?_some h

theorem lookup_mem {records : List α} {k : κ} {a : α} (h : lookup key records k = some a) :
    a ∈ records :=
  List.mem_of_find?_eq_some h

theorem lookup_eq_none {records : List α} {k : κ} :
    lookup key records k = none ↔ k ∉ records.map key := by
  simp [lookup]

theorem lookup_isSome {records : List α} {k : κ} :
    (lookup key records k).isSome ↔ k ∈ records.map key := by
  simp [lookup]

/-- With distinct keys, the lookup finds exactly the record that carries the key. -/
theorem lookup_eq_some {records : List α} (hnodup : (records.map key).Nodup) {k : κ} {a : α} :
    lookup key records k = some a ↔ a ∈ records ∧ key a = k := by
  constructor
  · intro h
    exact ⟨lookup_mem h, lookup_key h⟩
  · rintro ⟨hmem, rfl⟩
    induction records with
    | nil => simp at hmem
    | cons b records ih =>
      rw [List.map_cons, List.nodup_cons] at hnodup
      rcases List.mem_cons.mp hmem with rfl | htail
      · simp [lookup]
      · have hne : key b ≠ key a := by
          intro heq
          exact hnodup.1 (heq ▸ List.mem_map_of_mem htail)
        simpa [lookup, hne] using ih hnodup.2 htail

theorem lookup_append (records more : List α) (k : κ) :
    lookup key (records ++ more) k = (lookup key records k).or (lookup key more k) := by
  simp [lookup]

/-- A map that keeps every key acts on the found record. -/
theorem lookup_map {f : α → α} (hf : ∀ a, key (f a) = key a) (records : List α) (k : κ) :
    lookup key (records.map f) k = (lookup key records k).map f := by
  simp [lookup, List.find?_map, hf]

/-- Updating the record at the position of `k` changes the lookup of `k` and no other. -/
theorem lookup_modify_index {f : α → α} (hf : ∀ a, key (f a) = key a) {records : List α} {k : κ}
    {i : ℕ} (hi : index key records k = some i) (k' : κ) :
    lookup key (records.modify i f) k' =
      if k' = k then (lookup key records k).map f else lookup key records k' := by
  induction records generalizing i with
  | nil => simp [index] at hi
  | cons a records ih =>
    by_cases ha : key a = k
    · have hzero : i = 0 := by
        simpa [index, List.findIdx?_cons, ha] using hi.symm
      subst hzero
      by_cases hk : k' = k
      · simp [lookup, hf, ha, hk]
      · have hne : ¬key a = k' := fun h ↦ hk (h ▸ ha)
        simp [lookup, hf, hne, hk]
    · obtain ⟨j, hj, rfl⟩ : ∃ j, index key records k = some j ∧ j + 1 = i := by
        simpa [index, List.findIdx?_cons, ha] using hi
      have htail := ih hj
      by_cases hak : key a = k'
      · have hk : ¬k' = k := fun h ↦ ha (hak.trans h)
        simp [lookup, List.modify_succ_cons, hak, hk]
      · simpa [lookup, List.modify_succ_cons, hak, ha] using htail

omit [DecidableEq κ] in
theorem map_key_modify {f : α → α} (hf : ∀ a, key (f a) = key a) (records : List α) (i : ℕ) :
    (records.modify i f).map key = records.map key := by
  induction records generalizing i with
  | nil => simp
  | cons a records ih =>
    cases i with
    | zero => simp [hf]
    | succ i => simp [List.modify_succ_cons, ih]

/-- Changing the records at one position of two lists keeps a relation between them, if the
changed records are related. -/
theorem forall₂_modify {β : Type*} {R : α → β → Prop} {f : α → α} {g : β → β} {xs : List α}
    {ys : List β} (h : List.Forall₂ R xs ys) {i : ℕ}
    (hfg : ∀ a b, xs[i]? = some a → R a b → R (f a) (g b)) :
    List.Forall₂ R (xs.modify i f) (ys.modify i g) := by
  induction h generalizing i with
  | nil => simp
  | @cons a b xs ys hab _ ih =>
    cases i with
    | zero =>
      simp only [List.modify_zero_cons]
      exact .cons (hfg a b rfl hab) ‹_›
    | succ i =>
      simp only [List.modify_succ_cons]
      exact .cons hab (ih fun a' b' ha' hab' ↦ hfg a' b' (by simpa using ha') hab')

end SpineCodex.KeyedList
