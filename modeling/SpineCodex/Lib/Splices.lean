import Mathlib

/-!
# Edits of a list, position by position

Edits name the positions of a list that are deleted and the values that are inserted before
a position.  `weave` carries them out in the obvious way, one position after the other.  A
splice replaces a run of positions by a segment; a pass over sorted splices that do not
overlap does the same as the edits that they stand for, and the same as the splices one by
one.
-/

namespace SpineCodex

variable {α β : Type*}

/-- Positions to delete, and values to insert before a position. -/
structure Edits (β : Type*) where
  deleted : List ℕ
  inserted : List (ℕ × β)
  deriving DecidableEq

namespace Edits

instance : Append (Edits β) where
  append first second := ⟨first.deleted ++ second.deleted, first.inserted ++ second.inserted⟩

def join (edits : List (Edits β)) : Edits β := ⟨edits.flatMap deleted, edits.flatMap inserted⟩

theorem join_cons (first : Edits β) (rest : List (Edits β)) :
    join (first :: rest) = first ++ join rest := rfl

@[simp] theorem deleted_append (first second : Edits β) :
    (first ++ second).deleted = first.deleted ++ second.deleted := rfl

@[simp] theorem inserted_append (first second : Edits β) :
    (first ++ second).inserted = first.inserted ++ second.inserted := rfl

theorem append_assoc (first second third : Edits β) :
    first ++ second ++ third = first ++ (second ++ third) := by
  change mk _ _ = mk _ _
  simp

theorem nil_append (edits : Edits β) : (⟨[], []⟩ : Edits β) ++ edits = edits := rfl

theorem append_nil (edits : Edits β) : edits ++ (⟨[], []⟩ : Edits β) = edits := by
  change mk _ _ = mk _ _
  simp

/-- What is inserted before position `k`. -/
def insertedAt (edits : Edits β) (k : ℕ) : List β :=
  (edits.inserted.filter (·.1 = k)).map Prod.snd

theorem insertedAt_append (first second : Edits β) (k : ℕ) :
    (first ++ second).insertedAt k = first.insertedAt k ++ second.insertedAt k := by
  simp [insertedAt]

theorem insertedAt_eq_nil {edits : Edits β} {k : ℕ} (h : ∀ entry ∈ edits.inserted, entry.1 ≠ k) :
    edits.insertedAt k = [] := by
  rw [insertedAt, List.filter_eq_nil_iff.mpr, List.map_nil]
  intro entry hentry
  simpa using h entry hentry

/-- No edit touches a position before `k`. -/
structure From (edits : Edits β) (k : ℕ) : Prop where
  deleted : ∀ p ∈ edits.deleted, k ≤ p
  inserted : ∀ entry ∈ edits.inserted, k ≤ entry.1

end Edits

/-- The list from position `k` on, with the edits carried out. -/
def weave (f : β → α) (edits : Edits β) (k : ℕ) : List α → List α
  | [] => (edits.insertedAt k).map f
  | a :: rest =>
      (edits.insertedAt k).map f ++ (if k ∈ edits.deleted then [] else [a]) ++
        weave f edits (k + 1) rest

section Weave

variable {f : β → α} {edits edits' : Edits β}

theorem weave_congr {k : ℕ} (hdeleted : ∀ p, k ≤ p → (p ∈ edits.deleted ↔ p ∈ edits'.deleted))
    (hinserted : ∀ p, k ≤ p → edits.insertedAt p = edits'.insertedAt p) (list : List α) :
    weave f edits k list = weave f edits' k list := by
  induction list generalizing k with
  | nil => rw [weave, weave, hinserted k (Nat.le_refl k)]
  | cons a rest ih =>
    rw [weave, weave, hinserted k (Nat.le_refl k),
      ih (fun p hp ↦ hdeleted p (Nat.le_of_succ_le hp))
        (fun p hp ↦ hinserted p (Nat.le_of_succ_le hp))]
    simp only [hdeleted k (Nat.le_refl k)]

/-- Positions without edits are kept. -/
theorem weave_skip {k n : ℕ} (h : edits.From (k + n)) {list : List α} (hn : n ≤ list.length) :
    weave f edits k list = list.take n ++ weave f edits (k + n) (list.drop n) := by
  induction n generalizing k list with
  | zero => rfl
  | succ n ih =>
    cases list with
    | nil => simp at hn
    | cons a rest =>
      have hkeep : k ∉ edits.deleted := fun hmem ↦ by have := h.deleted k hmem; omega
      have hnone : edits.insertedAt k = [] :=
        Edits.insertedAt_eq_nil fun entry hentry heq ↦ by
          have := h.inserted entry hentry
          omega
      have hshift : k + (n + 1) = k + 1 + n := by omega
      rw [weave, hnone, if_neg hkeep, ih (hshift ▸ h) (by simpa using hn), hshift]
      simp

/-- Deleted positions without insertions leave nothing. -/
theorem weave_deleted {k n : ℕ} (hdeleted : ∀ p, k ≤ p → p < k + n → p ∈ edits.deleted)
    (hinserted : ∀ p, k ≤ p → p < k + n → edits.insertedAt p = []) {list : List α}
    (hn : n ≤ list.length) : weave f edits k list = weave f edits (k + n) (list.drop n) := by
  induction n generalizing k list with
  | zero => rfl
  | succ n ih =>
    cases list with
    | nil => simp at hn
    | cons a rest =>
      rw [weave, hinserted k (Nat.le_refl k) (by omega),
        if_pos (hdeleted k (Nat.le_refl k) (by omega)),
        ih (fun p hp hlt ↦ hdeleted p (by omega) (by omega))
          (fun p hp hlt ↦ hinserted p (by omega) (by omega)) (by simpa using hn)]
      simp only [List.map_nil, List.nil_append, List.drop_succ_cons]
      congr 1
      omega

end Weave

/-! ## Splices -/

/-- A start, the number of positions replaced from there, and what replaces them. -/
abbrev Splice (β : Type*) := ℕ × ℕ × List β

def Splice.edits (splice : Splice β) : Edits β :=
  ⟨List.range' splice.1 splice.2.1, splice.2.2.map (splice.1, ·)⟩

def spliceEdits (splices : List (Splice β)) : Edits β := .join (splices.map Splice.edits)

theorem spliceEdits_append (first second : List (Splice β)) :
    spliceEdits (first ++ second) = spliceEdits first ++ spliceEdits second := by
  change Edits.mk _ _ = Edits.mk _ _
  simp [spliceEdits, Edits.join]

theorem spliceEdits_singleton (splice : Splice β) : spliceEdits [splice] = splice.edits :=
  Edits.append_nil splice.edits

/-- The pass over the list from position `k` on. -/
def spliceAll (f : β → α) (k : ℕ) (list : List α) : List (Splice β) → List α
  | [] => list
  | (start, count, segment) :: rest =>
      list.take (start - k) ++ segment.map f ++
        spliceAll f (start + count) ((list.drop (start - k)).drop count) rest

theorem mem_deleted_edits {splice : Splice β} {p : ℕ} :
    p ∈ splice.edits.deleted ↔ splice.1 ≤ p ∧ p < splice.1 + splice.2.1 := by
  rw [Splice.edits, List.mem_range'_1]

theorem spliceEdits_from {splices : List (Splice β)} {k : ℕ} (h : ∀ splice ∈ splices, k ≤ splice.1) :
    (spliceEdits splices).From k where
  deleted p hp := by
    simp only [spliceEdits, Edits.join, List.mem_flatMap, List.mem_map] at hp
    obtain ⟨_, ⟨splice, hsplice, rfl⟩, hmem⟩ := hp
    exact (h splice hsplice).trans (mem_deleted_edits.mp hmem).1
  inserted entry hentry := by
    simp only [spliceEdits, Edits.join, List.mem_flatMap, List.mem_map] at hentry
    obtain ⟨_, ⟨splice, hsplice, rfl⟩, hmem⟩ := hentry
    obtain ⟨_, -, rfl⟩ := List.mem_map.mp hmem
    exact h splice hsplice

theorem insertedAt_cons_self (k : ℕ) (segment : List β) :
    (Edits.mk [] (segment.map (k, ·))).insertedAt k = segment := by
  rw [Edits.insertedAt, List.filter_eq_self.mpr, List.map_map]
  · exact List.map_id segment
  · intro entry hentry
    obtain ⟨_, -, rfl⟩ := List.mem_map.mp hentry
    exact decide_eq_true rfl

/-- A segment inserted at the first position comes first. -/
theorem weave_insert (f : β → α) (k : ℕ) (segment : List β) (edits : Edits β) (list : List α) :
    weave f (⟨[], segment.map (k, ·)⟩ ++ edits) k list = segment.map f ++ weave f edits k list := by
  have hlater : ∀ p, k + 1 ≤ p →
      ((⟨[], segment.map (k, ·)⟩ : Edits β) ++ edits).insertedAt p = edits.insertedAt p := by
    intro p hp
    rw [Edits.insertedAt_append, Edits.insertedAt_eq_nil, List.nil_append]
    intro entry hentry
    obtain ⟨_, -, rfl⟩ := List.mem_map.mp hentry
    exact (Nat.lt_of_succ_le hp).ne
  have hdeleted : ∀ p, p ∈ ((⟨[], segment.map (k, ·)⟩ : Edits β) ++ edits).deleted ↔
      p ∈ edits.deleted := fun p ↦ Iff.rfl
  cases list with
  | nil =>
    rw [weave, weave, Edits.insertedAt_append, insertedAt_cons_self, List.map_append]
  | cons a rest =>
    rw [weave, weave, Edits.insertedAt_append, insertedAt_cons_self, List.map_append,
      weave_congr (fun p _ ↦ hdeleted p) hlater rest]
    simp only [hdeleted, List.append_assoc]

theorem weave_splice {f : β → α} (splice : Splice β) {edits : Edits β}
    (h : edits.From (splice.1 + splice.2.1)) {list : List α} (hlength : splice.2.1 ≤ list.length) :
    weave f (splice.edits ++ edits) splice.1 list =
      splice.2.2.map f ++ weave f edits (splice.1 + splice.2.1) (list.drop splice.2.1) := by
  obtain ⟨start, count, segment⟩ := splice
  dsimp only at h hlength ⊢
  have hdeletion : ∀ p, start ≤ p → p < start + count →
      ((⟨List.range' start count, []⟩ : Edits β) ++ edits).insertedAt p = [] := by
    intro p _ hlt
    refine Edits.insertedAt_eq_nil fun entry hentry heq ↦ ?_
    have := h.inserted entry hentry
    omega
  calc weave f (Splice.edits (start, count, segment) ++ edits) start list
    _ = weave f (⟨[], segment.map (start, ·)⟩ ++ (⟨List.range' start count, []⟩ ++ edits)) start
          list := rfl
    _ = segment.map f ++ weave f (⟨List.range' start count, []⟩ ++ edits) start list :=
        weave_insert f start segment _ list
    _ = segment.map f ++ weave f (⟨List.range' start count, []⟩ ++ edits) (start + count)
          (list.drop count) := by
        rw [weave_deleted _ hdeletion hlength]
        intro p hle hlt
        exact List.mem_append_left _ (List.mem_range'_1.mpr ⟨hle, hlt⟩)
    _ = segment.map f ++ weave f edits (start + count) (list.drop count) := by
        rw [weave_congr]
        · intro p hp
          rw [Edits.deleted_append, List.mem_append, List.mem_range'_1]
          exact or_iff_right fun hmem ↦ by omega
        · exact fun p _ ↦ rfl

theorem weave_of_no_edits (f : β → α) (k : ℕ) (list : List α) : weave f ⟨[], []⟩ k list = list := by
  induction list generalizing k with
  | nil => rfl
  | cons a rest ih =>
    rw [weave, ih]
    rfl

/-- Sorted splices that do not overlap, between two positions. -/
structure Within (low high : ℕ) (splices : List (Splice β)) : Prop where
  pairwise : splices.Pairwise fun a b ↦ a.1 + a.2.1 ≤ b.1
  start_le : ∀ splice ∈ splices, low ≤ splice.1
  end_le : ∀ splice ∈ splices, splice.1 + splice.2.1 ≤ high

namespace Within

theorem nil (low high : ℕ) : Within low high ([] : List (Splice β)) :=
  ⟨.nil, fun _ h ↦ absurd h List.not_mem_nil, fun _ h ↦ absurd h List.not_mem_nil⟩

theorem singleton {splice : Splice β} {low high : ℕ} (hlow : low ≤ splice.1)
    (hhigh : splice.1 + splice.2.1 ≤ high) : Within low high [splice] where
  pairwise := List.pairwise_singleton _ _
  start_le := by
    rintro _ (_ | ⟨_, hmem⟩)
    · exact hlow
    · cases hmem
  end_le := by
    rintro _ (_ | ⟨_, hmem⟩)
    · exact hhigh
    · cases hmem

theorem append {low middle middle' high : ℕ} {first second : List (Splice β)}
    (hfirst : Within low middle first) (hsecond : Within middle' high second)
    (hle : middle ≤ middle') (hlow : low ≤ middle') (hhigh : middle ≤ high) :
    Within low high (first ++ second) where
  pairwise := by
    refine List.pairwise_append.mpr ⟨hfirst.pairwise, hsecond.pairwise, fun a ha b hb ↦ ?_⟩
    exact (hfirst.end_le a ha).trans (hle.trans (hsecond.start_le b hb))
  start_le := by
    intro splice hsplice
    rcases List.mem_append.mp hsplice with hmem | hmem
    · exact hfirst.start_le splice hmem
    · exact hlow.trans (hsecond.start_le splice hmem)
  end_le := by
    intro splice hsplice
    rcases List.mem_append.mp hsplice with hmem | hmem
    · exact (hfirst.end_le splice hmem).trans hhigh
    · exact hsecond.end_le splice hmem

end Within

theorem spliceAll_eq_weave {f : β → α} {splices : List (Splice β)} {k : ℕ} {list : List α}
    (h : Within k (k + list.length) splices) :
    spliceAll f k list splices = weave f (spliceEdits splices) k list := by
  induction splices generalizing k list with
  | nil => exact (weave_of_no_edits f k list).symm
  | cons splice rest ih =>
    obtain ⟨hfirst, hpairwise⟩ := List.pairwise_cons.mp h.pairwise
    obtain ⟨d, hd⟩ := Nat.exists_eq_add_of_le (h.start_le splice List.mem_cons_self)
    have hend := h.end_le splice List.mem_cons_self
    have hfrom : (spliceEdits rest).From (splice.1 + splice.2.1) := spliceEdits_from hfirst
    have hall : (spliceEdits (splice :: rest)).From (k + d) := by
      refine spliceEdits_from fun other hother ↦ hd ▸ ?_
      rcases List.mem_cons.mp hother with rfl | hother
      · exact Nat.le_refl _
      · exact (Nat.le_add_right _ _).trans (hfirst other hother)
    have hrest : Within (splice.1 + splice.2.1)
        (splice.1 + splice.2.1 + ((list.drop d).drop splice.2.1).length) rest := by
      refine ⟨hpairwise, hfirst, fun other hother ↦ ?_⟩
      have := h.end_le other (List.mem_cons_of_mem _ hother)
      simp only [List.length_drop]
      omega
    calc spliceAll f k list (splice :: rest)
      _ = list.take d ++ splice.2.2.map f ++
            spliceAll f (splice.1 + splice.2.1) ((list.drop d).drop splice.2.1) rest := by
          rw [spliceAll, hd, Nat.add_sub_cancel_left]
      _ = list.take d ++ (splice.2.2.map f ++ weave f (spliceEdits rest) (splice.1 + splice.2.1)
            ((list.drop d).drop splice.2.1)) := by
          rw [ih hrest, List.append_assoc]
      _ = list.take d ++ weave f (splice.edits ++ spliceEdits rest) splice.1 (list.drop d) := by
          rw [weave_splice splice hfrom (by rw [List.length_drop]; omega)]
      _ = weave f (spliceEdits (splice :: rest)) k list := by
          rw [weave_skip hall (by omega), hd]
          rfl

/-! ## One splice after the other -/

namespace Splice

/-- A splice carried out alone, on a list whose first position is `k`. -/
def carryOut (f : β → α) (k : ℕ) (splice : Splice β) (list : List α) : List α :=
  list.take (splice.1 - k) ++ splice.2.2.map f ++ list.drop (splice.1 + splice.2.1 - k)

/-- Splices behind the first `n` positions leave those alone. -/
theorem foldr_carryOut_shift {f : β → α} {k n : ℕ} {splices : List (Splice β)}
    (h : ∀ splice ∈ splices, k + n ≤ splice.1) {list : List α} (hn : n ≤ list.length) :
    splices.foldr (carryOut f k) list =
      list.take n ++ splices.foldr (carryOut f (k + n)) (list.drop n) := by
  induction splices with
  | nil => exact (List.take_append_drop n list).symm
  | cons splice rest ih =>
    have hstart := h splice List.mem_cons_self
    have htaken : (list.take n).length = n := List.length_take_of_le hn
    rw [List.foldr_cons, List.foldr_cons, ih fun other hother ↦ h other (List.mem_cons_of_mem _ hother)]
    generalize rest.foldr (carryOut f (k + n)) (list.drop n) = later
    have hbefore : (list.take n ++ later).take (splice.1 - k) =
        list.take n ++ later.take (splice.1 - (k + n)) := by
      rw [List.take_append, List.take_of_length_le (by omega), htaken, Nat.sub_add_eq]
    have hbehind : (list.take n ++ later).drop (splice.1 + splice.2.1 - k) =
        later.drop (splice.1 + splice.2.1 - (k + n)) := by
      rw [List.drop_append, List.drop_eq_nil_of_le (by omega), htaken, Nat.sub_add_eq,
        List.nil_append]
    rw [carryOut, carryOut, hbefore, hbehind]
    simp only [List.append_assoc]

/-- One pass over sorted splices that do not overlap carries them out one by one, the last one
first. -/
theorem spliceAll_eq_foldr {f : β → α} {splices : List (Splice β)} {k : ℕ} {list : List α}
    (h : Within k (k + list.length) splices) :
    spliceAll f k list splices = splices.foldr (carryOut f k) list := by
  induction splices generalizing k list with
  | nil => rfl
  | cons splice rest ih =>
    obtain ⟨start, count, segment⟩ := splice
    obtain ⟨hfirst, hpairwise⟩ := List.pairwise_cons.mp h.pairwise
    have hstart : k ≤ start := h.start_le (start, count, segment) List.mem_cons_self
    have hend : start + count ≤ k + list.length :=
      h.end_le (start, count, segment) List.mem_cons_self
    have hposition : k + (start + count - k) = start + count := by omega
    have hbehind : ∀ other ∈ rest, k + (start + count - k) ≤ other.1 := by
      rw [hposition]
      exact hfirst
    have hrest : Within (start + count) (start + count + (list.drop (start + count - k)).length)
        rest := by
      refine ⟨hpairwise, hfirst, fun other hother ↦ ?_⟩
      have := h.end_le other (List.mem_cons_of_mem _ hother)
      rw [List.length_drop]
      omega
    have htaken : (list.take (start + count - k)).length = start + count - k :=
      List.length_take_of_le (by omega)
    calc spliceAll f k list ((start, count, segment) :: rest)
      _ = list.take (start - k) ++ segment.map f ++
            spliceAll f (start + count) (list.drop (start + count - k)) rest := by
          rw [spliceAll, List.drop_drop, show start - k + count = start + count - k by omega]
      _ = list.take (start - k) ++ segment.map f ++
            rest.foldr (carryOut f (start + count)) (list.drop (start + count - k)) := by
          rw [ih hrest]
      _ = carryOut f k (start, count, segment) (list.take (start + count - k) ++
            rest.foldr (carryOut f (start + count)) (list.drop (start + count - k))) := by
          rw [carryOut, List.take_append, List.drop_append, htaken, List.take_take,
            Nat.min_eq_left (by omega), List.drop_eq_nil_of_le htaken.le, Nat.sub_self,
            Nat.sub_eq_zero_of_le (by omega : start - k ≤ start + count - k)]
          simp
      _ = ((start, count, segment) :: rest).foldr (carryOut f k) list := by
          rw [List.foldr_cons, foldr_carryOut_shift hbehind (by omega), hposition]

end Splice

/-! ## Sorting splices -/

/-- Of two splices in a list, the first ends before the second starts, or is a mere
insertion after the end of the second. -/
def Splice.Apart (a b : Splice β) : Prop := a.1 + a.2.1 ≤ b.1 ∨ b.1 + b.2.1 ≤ a.1 ∧ a.2.1 = 0

/-- A stable sort by the first position. -/
def sortSplices (splices : List (Splice β)) : List (Splice β) :=
  splices.insertionSort fun a b ↦ a.1 ≤ b.1

theorem pairwise_orderedInsert {a : Splice β} {splices : List (Splice β)}
    (hsorted : splices.Pairwise fun a b ↦ a.1 + a.2.1 ≤ b.1) (h : ∀ b ∈ splices, a.Apart b) :
    (splices.orderedInsert (fun a b ↦ a.1 ≤ b.1) a).Pairwise fun a b ↦ a.1 + a.2.1 ≤ b.1 := by
  induction splices with
  | nil => exact List.pairwise_singleton _ a
  | cons b rest ih =>
    obtain ⟨hfirst, hrest⟩ := List.pairwise_cons.mp hsorted
    have hab := h b List.mem_cons_self
    rw [List.orderedInsert]
    split
    next hle =>
      refine List.pairwise_cons.mpr ⟨fun c hc ↦ ?_, hsorted⟩
      have hbc : b.1 ≤ c.1 := by
        rcases List.mem_cons.mp hc with rfl | hc
        · exact Nat.le_refl _
        · exact (Nat.le_add_right _ _).trans (hfirst c hc)
      rcases h c hc with hapart | ⟨_, hnone⟩
      · exact hapart
      · omega
    next hlt =>
      refine List.pairwise_cons.mpr ⟨fun c hc ↦ ?_, ih hrest fun c hc ↦ h c (List.mem_cons_of_mem _ hc)⟩
      rcases (List.mem_orderedInsert _).mp hc with rfl | hc
      · rcases hab with hapart | ⟨hapart, _⟩ <;> omega
      · exact hfirst c hc

theorem pairwise_sortSplices {splices : List (Splice β)} (h : splices.Pairwise Splice.Apart) :
    (sortSplices splices).Pairwise fun a b ↦ a.1 + a.2.1 ≤ b.1 := by
  induction splices with
  | nil => exact List.Pairwise.nil
  | cons a rest ih =>
    obtain ⟨hfirst, hrest⟩ := List.pairwise_cons.mp h
    exact pairwise_orderedInsert (ih hrest) fun b hb ↦
      hfirst b ((List.perm_insertionSort _ rest).mem_iff.mp hb)

theorem filter_orderedInsert (a : Splice β) (splices : List (Splice β)) (k : ℕ) :
    (splices.orderedInsert (fun a b ↦ a.1 ≤ b.1) a).filter (·.1 = k) =
      (a :: splices).filter (·.1 = k) := by
  induction splices with
  | nil => rfl
  | cons b rest ih =>
    rw [List.orderedInsert]
    split
    · rfl
    next hlt =>
      simp only [List.filter_cons] at ih ⊢
      rw [ih]
      by_cases ha : a.1 = k
      · have hb : b.1 ≠ k := by omega
        simp [ha, hb]
      · simp [ha]

theorem filter_sortSplices (splices : List (Splice β)) (k : ℕ) :
    (sortSplices splices).filter (·.1 = k) = splices.filter (·.1 = k) := by
  induction splices with
  | nil => rfl
  | cons a rest ih =>
    rw [sortSplices, List.insertionSort_cons, filter_orderedInsert, List.filter_cons,
      List.filter_cons]
    rw [sortSplices] at ih
    rw [ih]

theorem insertedAt_spliceEdits (splices : List (Splice β)) (k : ℕ) :
    (spliceEdits splices).insertedAt k = (splices.filter (·.1 = k)).flatMap (·.2.2) := by
  induction splices with
  | nil => rfl
  | cons a rest ih =>
    rw [spliceEdits, List.map_cons, Edits.join_cons, Edits.insertedAt_append]
    rw [spliceEdits] at ih
    rw [ih, List.filter_cons]
    split
    next h =>
      obtain rfl : a.1 = k := of_decide_eq_true h
      rw [List.flatMap_cons]
      congr 1
      exact insertedAt_cons_self a.1 a.2.2
    next h =>
      rw [Edits.insertedAt_eq_nil, List.nil_append]
      intro entry hentry
      obtain ⟨_, -, rfl⟩ := List.mem_map.mp hentry
      exact fun heq ↦ h (decide_eq_true heq)

/-- The sorted pass does what the splices stand for in the order they were given. -/
theorem spliceAll_sortSplices {f : β → α} {splices : List (Splice β)} {list : List α}
    (hapart : splices.Pairwise Splice.Apart)
    (hend : ∀ splice ∈ splices, splice.1 + splice.2.1 ≤ list.length) :
    spliceAll f 0 list (sortSplices splices) = weave f (spliceEdits splices) 0 list := by
  have hmem : ∀ splice, splice ∈ sortSplices splices ↔ splice ∈ splices :=
    fun splice ↦ (List.perm_insertionSort _ splices).mem_iff
  rw [spliceAll_eq_weave ⟨pairwise_sortSplices hapart, fun _ _ ↦ Nat.zero_le _, ?_⟩]
  · apply weave_congr
    · intro p _
      simp [spliceEdits, Edits.join, hmem]
    · intro p _
      rw [insertedAt_spliceEdits, insertedAt_spliceEdits, filter_sortSplices]
  · intro splice hsplice
    rw [Nat.zero_add]
    exact hend splice ((hmem splice).mp hsplice)

end SpineCodex
