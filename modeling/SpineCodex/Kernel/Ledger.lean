import SpineCodex.Replay.Eager

/-!
# The order of the source ledger

The cells of a ledger are strictly ordered by raw boundary.  Appending extends the cells,
and continuing in another namespace only renames the uncommitted ones.
-/

namespace SpineCodex

namespace SourceLedger

/-- The ledger behind a character that it accepts. -/
def pushed (l : SourceLedger) (character : SpineChar) : SourceLedger :=
  { l with
    cells := l.cells ++ [l.cellOf character]
    lastRawBoundary := some character.boundary
    nextOrdinal := l.nextOrdinal + 1 }

theorem appendOne_eq_ok {l l' : SourceLedger} {character : SpineChar} :
    l.appendOne character = .ok l' ↔
      (∀ last ∈ l.lastRawBoundary, last < character.boundary) ∧ l' = l.pushed character := by
  unfold appendOne
  cases hlast : l.lastRawBoundary with
  | none =>
    have hnone : ∀ last ∈ (none : Option RawBoundary), last < character.boundary := by simp
    simpa [hnone, pushed] using eq_comm
  | some last =>
    by_cases hle : character.boundary ≤ last
    · simp [Option.filter_some, hle]
    · simpa [Option.filter_some, hle, Nat.lt_of_not_le hle, pushed] using eq_comm

theorem appendOne_ne_crash (l : SourceLedger) (character : SpineChar) :
    l.appendOne character ≠ .crash := by
  unfold appendOne
  split <;> simp

/-- The characters that `append` accepts before it stops. -/
theorem append_spec (l : SourceLedger) (characters : List SpineChar) :
    ∃ accepted rest, characters = accepted ++ rest ∧ l.appendAll accepted = .ok (l.append characters).1 ∧
      (l.append characters).1.cells.length = l.cells.length + accepted.length := by
  induction characters generalizing l with
  | nil => exact ⟨[], [], rfl, rfl, rfl⟩
  | cons character rest ih =>
    rw [append]
    cases h : l.appendOne character with
    | ok l' =>
      obtain ⟨accepted, more, hsplit, hall, hlength⟩ := ih l'
      refine ⟨character :: accepted, more, by rw [hsplit, List.cons_append], ?_, ?_⟩
      · rw [appendAll_eq_foldlM, List.foldlM_cons, h, Outcome.ok_bind, ← appendAll_eq_foldlM]
        exact hall
      · obtain ⟨-, rfl⟩ := appendOne_eq_ok.mp h
        have hpushed : (l.pushed character).cells.length = l.cells.length + 1 := by simp [pushed]
        dsimp only
        rw [hlength, hpushed, List.length_cons]
        omega
    | err e => exact ⟨[], character :: rest, rfl, rfl, rfl⟩
    | crash => exact absurd h (l.appendOne_ne_crash character)

/-- What every ledger keeps. -/
structure Ordered (l : SourceLedger) : Prop where
  sorted : (l.cells.map (·.boundary.ordinal)).Pairwise (· < ·)
  last_eq : l.lastRawBoundary = l.cells.getLast?.map (·.boundary.ordinal)
  boundary_eq : ∀ cell ∈ l.cells, cell.character.boundary = cell.boundary.ordinal
  epoch_eq : ∀ cell ∈ l.cells, cell.id.epoch = l.epoch ∧ cell.boundary.epoch = l.epoch

theorem ordered_new (thread : ThreadNamespace) (epoch : ContextEpoch) : (new thread epoch).Ordered where
  sorted := List.Pairwise.nil
  last_eq := rfl
  boundary_eq := by simp [new]
  epoch_eq := by simp [new]

theorem character_cellOf (l : SourceLedger) (character : SpineChar) :
    (l.cellOf character).character = character := by
  cases character <;> rfl

/-- The boundaries of an ordered ledger are at most the last one. -/
theorem Ordered.le_last {l : SourceLedger} (h : l.Ordered) {cell : SourceCell} (hcell : cell ∈ l.cells) :
    ∃ last ∈ l.lastRawBoundary, cell.boundary.ordinal ≤ last := by
  obtain ⟨front, final, hcells⟩ : ∃ front final, l.cells = front ++ [final] :=
    ⟨l.cells.dropLast, l.cells.getLast (List.ne_nil_of_mem hcell),
      (List.dropLast_append_getLast _).symm⟩
  refine ⟨final.boundary.ordinal, by rw [h.last_eq, hcells]; simp, ?_⟩
  have hsorted := h.sorted
  rw [hcells, List.map_append, List.pairwise_append] at hsorted
  rw [hcells] at hcell
  rcases List.mem_append.mp hcell with hfront | hlast
  · exact le_of_lt (hsorted.2.2 _ (List.mem_map_of_mem hfront) _ (List.mem_singleton_self _))
  · rw [List.mem_singleton.mp hlast]

theorem Ordered.pushed {l : SourceLedger} (h : l.Ordered) {character : SpineChar}
    (hlast : ∀ last ∈ l.lastRawBoundary, last < character.boundary) : (l.pushed character).Ordered where
  sorted := by
    simp only [SourceLedger.pushed, List.map_append, List.map_singleton]
    refine List.pairwise_append.mpr ⟨h.sorted, List.pairwise_singleton _ _, ?_⟩
    intro a ha b hb
    obtain ⟨cell, hcell, rfl⟩ := List.mem_map.mp ha
    obtain ⟨last, hmem, hle⟩ := h.le_last hcell
    rw [List.mem_singleton.mp hb]
    exact lt_of_le_of_lt hle (hlast last hmem)
  last_eq := by simp [SourceLedger.pushed, cellOf]
  boundary_eq := by
    intro cell hcell
    rcases List.mem_append.mp hcell with hold | hnew
    · exact h.boundary_eq cell hold
    · rw [List.mem_singleton.mp hnew, character_cellOf]
      rfl
  epoch_eq := by
    intro cell hcell
    rcases List.mem_append.mp hcell with hold | hnew
    · exact h.epoch_eq cell hold
    · rw [List.mem_singleton.mp hnew]
      exact ⟨rfl, rfl⟩

/-- Appending keeps the cells, the namespace and the epoch. -/
theorem appendAll_frame {l l' : SourceLedger} {characters : List SpineChar}
    (happend : l.appendAll characters = .ok l') :
    l'.thread = l.thread ∧ l'.epoch = l.epoch ∧
      ∃ more, l'.cells = l.cells ++ more ∧ more.map (·.character) = characters := by
  induction characters generalizing l with
  | nil =>
    obtain rfl : l = l' := Outcome.ok.inj happend
    exact ⟨rfl, rfl, [], by simp, rfl⟩
  | cons character rest ih =>
    rw [appendAll_eq_foldlM, List.foldlM_cons] at happend
    obtain ⟨l₁, hone, hrest⟩ := Outcome.bind_eq_ok.mp happend
    rw [← appendAll_eq_foldlM] at hrest
    obtain ⟨-, rfl⟩ := appendOne_eq_ok.mp hone
    obtain ⟨hthread, hepoch, more, hcells, hmore⟩ := ih hrest
    refine ⟨hthread, hepoch, l.cellOf character :: more, ?_, ?_⟩
    · rw [hcells, SourceLedger.pushed, List.append_assoc]
      rfl
    · rw [List.map_cons, hmore, character_cellOf]

/-! ## Boundaries -/

/-- The raw boundaries of the cells. -/
def boundaries (l : SourceLedger) : List RawBoundary := l.cells.map (·.boundary.ordinal)

/-! ## Other namespaces -/

/-- The ledger that goes on in another namespace behind `committed` cells. -/
def movedTo (l : SourceLedger) (thread : ThreadNamespace) (committed : ℕ) : SourceLedger :=
  { l with
    thread := thread
    cells := l.cells.take committed ++
      (l.cells.drop committed).mapIdx fun k cell ↦ cell.renumber thread l.epoch k
    nextOrdinal := l.cells.length - committed }

theorem continueInNamespace_eq_ok {l l' : SourceLedger} {thread : ThreadNamespace} {committed : ℕ} :
    l.continueInNamespace thread committed = .ok l' ↔ committed ≤ l.cells.length ∧
      l' = if thread = l.thread then l else l.movedTo thread committed := by
  unfold continueInNamespace movedTo
  by_cases hlength : l.cells.length < committed
  · simp [hlength, Nat.not_le_of_lt hlength]
  · by_cases hthread : thread = l.thread
    · simpa [hlength, hthread, Nat.le_of_not_lt hlength] using eq_comm
    · simpa [hlength, hthread, Nat.le_of_not_lt hlength] using eq_comm

theorem map_movedTo {α : Type*} (f : SourceCell → α)
    (hf : ∀ cell thread epoch k, f (SourceCell.renumber cell thread epoch k) = f cell)
    (l : SourceLedger) (thread : ThreadNamespace) (committed : ℕ) :
    (l.movedTo thread committed).cells.map f = l.cells.map f := by
  have hmoved : ((l.cells.drop committed).mapIdx fun k cell ↦
      cell.renumber thread l.epoch k).map f = (l.cells.drop committed).map f := by
    apply List.ext_getElem?
    intro k
    simp [hf, Option.map_map, Function.comp_def]
  calc (l.movedTo thread committed).cells.map f
      = (l.cells.take committed).map f ++ (l.cells.drop committed).map f := by
        rw [movedTo, List.map_append, hmoved]
    _ = l.cells.map f := by rw [← List.map_append, List.take_append_drop]

theorem boundaries_movedTo (l : SourceLedger) (thread : ThreadNamespace) (committed : ℕ) :
    (l.movedTo thread committed).boundaries = l.boundaries :=
  map_movedTo _ (fun _ _ _ _ ↦ rfl) l thread committed

theorem mem_movedTo {l : SourceLedger} {thread : ThreadNamespace} {committed : ℕ} {cell : SourceCell}
    (h : cell ∈ (l.movedTo thread committed).cells) :
    cell ∈ l.cells ∨ ∃ old ∈ l.cells, ∃ k, cell = old.renumber thread l.epoch k := by
  rcases List.mem_append.mp h with hfront | hmoved
  · exact .inl (List.mem_of_mem_take hfront)
  · obtain ⟨k, hk, rfl⟩ := List.mem_mapIdx.mp hmoved
    exact .inr ⟨_, List.mem_of_mem_drop (List.getElem_mem _), k, rfl⟩

theorem Ordered.movedTo {l : SourceLedger} (h : l.Ordered) (thread : ThreadNamespace)
    (committed : ℕ) : (l.movedTo thread committed).Ordered where
  sorted := by
    have hsorted := h.sorted
    rw [← boundaries, ← l.boundaries_movedTo thread committed] at hsorted
    exact hsorted
  last_eq := by
    rw [← List.getLast?_map, ← boundaries, boundaries_movedTo, boundaries, List.getLast?_map]
    exact h.last_eq
  boundary_eq := by
    intro cell hcell
    rcases mem_movedTo hcell with hold | ⟨old, hold, k, rfl⟩
    · exact h.boundary_eq cell hold
    · exact h.boundary_eq old hold
  epoch_eq := by
    intro cell hcell
    rcases mem_movedTo hcell with hold | ⟨old, hold, k, rfl⟩
    · exact h.epoch_eq cell hold
    · exact ⟨rfl, rfl⟩

end SourceLedger

end SpineCodex
