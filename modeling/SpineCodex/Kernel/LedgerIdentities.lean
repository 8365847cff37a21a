import SpineCodex.Kernel.Ledger

/-!
# The identities of source cells

A ledger is driven by appends, epoch changes and continuations in other namespaces, failing
ones included.  As long as an epoch never goes back to a namespace that it has left, the
cells keep distinct identities although every continuation restarts the ordinals.
-/

namespace SpineCodex

/-- The operations of a ledger. -/
inductive LedgerOperation where
  | append (characters : List SpineChar)
  | advanceEpoch (next : ContextEpoch)
  | continueInNamespace (thread : ThreadNamespace) (committedPrefix : ℕ)

/-- A ledger beside what happened to it in its current epoch. -/
structure LedgerHistory where
  ledger : SourceLedger
  /-- The namespaces of the epoch, the current one included. -/
  visited : List ThreadNamespace
  /-- The characters that the epoch has accepted, in order. -/
  appended : List SpineChar

namespace SourceLedger

/-- The characters above the last boundary, up to the first one that is not. -/
def accepted (last : Option RawBoundary) : List SpineChar → List SpineChar
  | [] => []
  | character :: rest =>
      if ∀ previous ∈ last, previous < character.boundary then
        character :: accepted (some character.boundary) rest
      else []

/-- Appending goes on behind an accepted character and stops at any other. -/
theorem append_cons_fst (l : SourceLedger) (character : SpineChar) (rest : List SpineChar) :
    (l.append (character :: rest)).1 =
      if ∀ previous ∈ l.lastRawBoundary, previous < character.boundary then
        ((l.pushed character).append rest).1
      else l := by
  rw [append]
  cases happend : l.appendOne character with
  | ok l' =>
    obtain ⟨hlast, rfl⟩ := appendOne_eq_ok.mp happend
    rw [if_pos hlast]
  | err e =>
    have hrejected : ¬∀ previous ∈ l.lastRawBoundary, previous < character.boundary := by
      intro hlast
      have hok := appendOne_eq_ok.mpr ⟨hlast, rfl⟩
      rw [happend] at hok
      contradiction
    rw [if_neg hrejected]
  | crash => exact absurd happend (l.appendOne_ne_crash character)

theorem advanceEpoch_eq_ok {l l' : SourceLedger} {next : ContextEpoch} :
    l.advanceEpoch next = .ok l' ↔ checkedNext l.epoch = some next ∧ l' = new l.thread next := by
  simp only [advanceEpoch, Outcome.bind_eq_ok, Outcome.okOr_eq_ok, Outcome.require_eq_ok,
    Outcome.pure_eq, Outcome.ok.injEq]
  constructor
  · rintro ⟨expected, hexpected, -, rfl, rfl⟩
    exact ⟨hexpected, rfl⟩
  · rintro ⟨hnext, rfl⟩
    exact ⟨next, hnext, (), rfl, rfl⟩

end SourceLedger

namespace LedgerHistory

/-- The history of a ledger that nothing has happened to. -/
def new (thread : ThreadNamespace) (epoch : ContextEpoch) : LedgerHistory where
  ledger := .new thread epoch
  visited := [thread]
  appended := []

/-- One operation.  A failing append keeps what it has accepted, and the other operations
change nothing when they fail. -/
def step (h : LedgerHistory) : LedgerOperation → LedgerHistory
  | .append characters =>
      { h with
        ledger := (h.ledger.append characters).1
        appended := h.appended ++
          SourceLedger.accepted (h.appended.getLast?.map (·.boundary)) characters }
  | .advanceEpoch next =>
      match h.ledger.advanceEpoch next with
      | .ok ledger => { ledger := ledger, visited := [ledger.thread], appended := [] }
      | _ => h
  | .continueInNamespace thread committedPrefix =>
      match h.ledger.continueInNamespace thread committedPrefix with
      | .ok ledger => { h with ledger := ledger, visited := thread :: h.visited }
      | _ => h

def run (h : LedgerHistory) (operations : List LedgerOperation) : LedgerHistory :=
  operations.foldl step h

/-- The operation goes to no namespace that the epoch has left. -/
def Onward (h : LedgerHistory) : LedgerOperation → Prop
  | .continueInNamespace thread _ => thread = h.ledger.thread ∨ thread ∉ h.visited
  | _ => True

/-- No operation of the run goes back to a namespace. -/
def NeverRevisits (h : LedgerHistory) : List LedgerOperation → Prop
  | [] => True
  | operation :: rest => h.Onward operation ∧ (h.step operation).NeverRevisits rest

/-- The operation leaves the cell at `k` in the ledger, inside the committed prefix if it has
one. -/
def Leaves (h : LedgerHistory) (k : ℕ) : LedgerOperation → Prop
  | .append _ => True
  | .advanceEpoch next => checkedNext h.ledger.epoch ≠ some next
  | .continueInNamespace _ committedPrefix => k < committedPrefix

/-- Every operation of the run leaves the cell at `k`. -/
def LeavesAlong (h : LedgerHistory) (k : ℕ) : List LedgerOperation → Prop
  | [] => True
  | operation :: rest => h.Leaves k operation ∧ (h.step operation).LeavesAlong k rest

/-- What holds of a ledger in every run. -/
structure Numbered (h : LedgerHistory) : Prop where
  ordered : h.ledger.Ordered
  nodup : (h.ledger.cells.map (·.id)).Nodup
  below : ∀ cell ∈ h.ledger.cells, cell.id.thread = h.ledger.thread →
    cell.id.ordinal < h.ledger.nextOrdinal
  visited : ∀ cell ∈ h.ledger.cells, cell.id.thread ∈ h.visited
  current : h.ledger.thread ∈ h.visited
  characters : h.ledger.cells.map (·.character) = h.appended

theorem numbered_new (thread : ThreadNamespace) (epoch : ContextEpoch) : (new thread epoch).Numbered where
  ordered := SourceLedger.ordered_new thread epoch
  nodup := List.nodup_nil
  below := by simp [new, SourceLedger.new]
  visited := by simp [new, SourceLedger.new]
  current := List.mem_singleton_self thread
  characters := rfl

/-- The last boundary of the ledger is that of the last accepted character. -/
theorem Numbered.last_eq {h : LedgerHistory} (hn : h.Numbered) :
    h.appended.getLast?.map (·.boundary) = h.ledger.lastRawBoundary := by
  rw [hn.ordered.last_eq, ← hn.characters, List.getLast?_map, Option.map_map]
  cases hlast : h.ledger.cells.getLast? with
  | none => rfl
  | some cell => exact congrArg some (hn.ordered.boundary_eq cell (List.mem_of_getLast? hlast))

/-! ## Appending -/

/-- The history behind one accepted character. -/
def pushed (h : LedgerHistory) (character : SpineChar) : LedgerHistory :=
  { h with ledger := h.ledger.pushed character, appended := h.appended ++ [character] }

theorem Numbered.pushed {h : LedgerHistory} (hn : h.Numbered) {character : SpineChar}
    (hlast : ∀ previous ∈ h.ledger.lastRawBoundary, previous < character.boundary) :
    (h.pushed character).Numbered where
  ordered := hn.ordered.pushed hlast
  nodup := by
    have hfresh : ∀ cell ∈ h.ledger.cells, cell.id ≠ (h.ledger.cellOf character).id := by
      intro cell hcell heq
      have hbelow := hn.below cell hcell (congrArg (·.thread) heq)
      exact absurd (congrArg (·.ordinal) heq) (Nat.ne_of_lt hbelow)
    rw [LedgerHistory.pushed, SourceLedger.pushed, List.map_append, List.nodup_append]
    refine ⟨hn.nodup, List.nodup_singleton _, ?_⟩
    intro id hid new hnew
    obtain ⟨cell, hcell, rfl⟩ := List.mem_map.mp hid
    rw [List.map_singleton, List.mem_singleton] at hnew
    rw [hnew]
    exact hfresh cell hcell
  below := by
    intro cell hcell hthread
    rcases List.mem_append.mp hcell with hold | hnew
    · exact Nat.lt_succ_of_lt (hn.below cell hold hthread)
    · rw [List.mem_singleton.mp hnew]
      exact Nat.lt_succ_self _
  visited := by
    intro cell hcell
    rcases List.mem_append.mp hcell with hold | hnew
    · exact hn.visited cell hold
    · rw [List.mem_singleton.mp hnew]
      exact hn.current
  current := hn.current
  characters := by
    rw [LedgerHistory.pushed, SourceLedger.pushed, List.map_append, hn.characters,
      List.map_singleton, SourceLedger.character_cellOf]

theorem step_append_cons (h : LedgerHistory) (hn : h.Numbered) (character : SpineChar)
    (rest : List SpineChar) :
    h.step (.append (character :: rest)) =
      if ∀ previous ∈ h.ledger.lastRawBoundary, previous < character.boundary then
        (h.pushed character).step (.append rest)
      else h := by
  simp only [step, SourceLedger.append_cons_fst, SourceLedger.accepted, hn.last_eq, pushed]
  split_ifs <;> simp

theorem Numbered.append {h : LedgerHistory} (hn : h.Numbered) (characters : List SpineChar) :
    (h.step (.append characters)).Numbered := by
  induction characters generalizing h with
  | nil =>
    have hnil : h.step (.append []) = h := by simp [step, SourceLedger.append, SourceLedger.accepted]
    rwa [hnil]
  | cons character rest ih =>
    rw [step_append_cons h hn]
    split_ifs with hlast
    · exact ih (hn.pushed hlast)
    · exact hn

/-- Appending keeps every cell at its place. -/
theorem append_getElem? (l : SourceLedger) (characters : List SpineChar) {k : ℕ}
    (hk : k < l.cells.length) : (l.append characters).1.cells[k]? = l.cells[k]? := by
  induction characters generalizing l with
  | nil => rfl
  | cons character rest ih =>
    rw [SourceLedger.append_cons_fst]
    split_ifs
    · have hlonger : k < (l.pushed character).cells.length := by
        rw [SourceLedger.pushed, List.length_append]
        omega
      calc ((l.pushed character).append rest).1.cells[k]?
          = (l.pushed character).cells[k]? := ih _ hlonger
        _ = l.cells[k]? := List.getElem?_append_left hk
    · rfl

/-! ## Epochs and namespaces -/

theorem Numbered.advance {h : LedgerHistory} (hn : h.Numbered) (next : ContextEpoch) :
    (h.step (.advanceEpoch next)).Numbered := by
  rw [step]
  cases hadvance : h.ledger.advanceEpoch next with
  | ok ledger =>
    obtain ⟨-, rfl⟩ := SourceLedger.advanceEpoch_eq_ok.mp hadvance
    exact numbered_new h.ledger.thread next
  | err e => exact hn
  | crash => exact hn

/-- The identities behind a continuation: those of the prefix, then fresh ones from zero. -/
theorem map_id_movedTo (l : SourceLedger) (thread : ThreadNamespace) (committed : ℕ) :
    (l.movedTo thread committed).cells.map (·.id) = (l.cells.map (·.id)).take committed ++
      (List.range (l.cells.length - committed)).map fun k ↦ ⟨thread, l.epoch, k⟩ := by
  rw [SourceLedger.movedTo, List.map_append, List.map_take]
  congr 1
  apply List.ext_getElem
  · simp
  · intro k _ _
    simp [SourceCell.renumber]

theorem Numbered.moved {h : LedgerHistory} (hn : h.Numbered) {thread : ThreadNamespace}
    (hthread : thread ∉ h.visited) (committed : ℕ) :
    ({ h with ledger := h.ledger.movedTo thread committed, visited := thread :: h.visited } :
      LedgerHistory).Numbered where
  ordered := hn.ordered.movedTo thread committed
  nodup := by
    rw [map_id_movedTo, List.nodup_append]
    refine ⟨hn.nodup.sublist (List.take_sublist _ _), ?_, ?_⟩
    · refine List.nodup_range.map ?_
      intro a b hab
      exact congrArg (·.ordinal) hab
    · intro id hid new hnew heq
      obtain ⟨cell, hcell, rfl⟩ := List.mem_map.mp (List.mem_of_mem_take hid)
      obtain ⟨k, -, rfl⟩ := List.mem_map.mp hnew
      have hsame : cell.id.thread = thread := congrArg (·.thread) heq
      exact hthread (hsame ▸ hn.visited cell hcell)
  below := by
    intro cell hcell hown
    have hid : cell.id ∈ (h.ledger.movedTo thread committed).cells.map (·.id) :=
      List.mem_map_of_mem hcell
    rw [map_id_movedTo] at hid
    rcases List.mem_append.mp hid with hold | hnew
    · obtain ⟨old, hmem, heq⟩ := List.mem_map.mp (List.mem_of_mem_take hold)
      refine absurd (hn.visited old hmem) ?_
      rw [heq, hown]
      exact hthread
    · obtain ⟨k, hk, heq⟩ := List.mem_map.mp hnew
      rw [← heq]
      exact List.mem_range.mp hk
  visited := by
    intro cell hcell
    rcases SourceLedger.mem_movedTo hcell with hold | ⟨old, -, k, rfl⟩
    · exact List.mem_cons_of_mem thread (hn.visited cell hold)
    · exact List.mem_cons_self
  current := List.mem_cons_self
  characters := by
    rw [SourceLedger.map_movedTo _ (fun _ _ _ _ ↦ rfl)]
    exact hn.characters

theorem Numbered.continueIn {h : LedgerHistory} (hn : h.Numbered) {thread : ThreadNamespace}
    {committed : ℕ} (honward : h.Onward (.continueInNamespace thread committed)) :
    (h.step (.continueInNamespace thread committed)).Numbered := by
  rw [step]
  cases hcontinue : h.ledger.continueInNamespace thread committed with
  | ok ledger =>
    obtain ⟨-, rfl⟩ := SourceLedger.continueInNamespace_eq_ok.mp hcontinue
    by_cases hsame : thread = h.ledger.thread
    · subst hsame
      simp only [if_pos]
      exact { hn with
        visited := fun cell hcell ↦ List.mem_cons_of_mem _ (hn.visited cell hcell)
        current := List.mem_cons_self }
    · simp only [if_neg hsame]
      exact hn.moved (honward.resolve_left hsame) committed
  | err e => exact hn
  | crash => exact hn

/-! ## Runs -/

theorem Numbered.step {h : LedgerHistory} (hn : h.Numbered) {operation : LedgerOperation}
    (honward : h.Onward operation) : (h.step operation).Numbered := by
  cases operation with
  | append characters => exact hn.append characters
  | advanceEpoch next => exact hn.advance next
  | continueInNamespace thread committed => exact hn.continueIn honward

theorem Numbered.run {h : LedgerHistory} (hn : h.Numbered) {operations : List LedgerOperation}
    (hrun : h.NeverRevisits operations) : (h.run operations).Numbered := by
  induction operations generalizing h with
  | nil => exact hn
  | cons operation rest ih => exact ih (hn.step hrun.1) hrun.2

/-- An operation that leaves the cell at `k` leaves it with its identity. -/
theorem getElem?_step_of_leaves {h : LedgerHistory} {k : ℕ} {operation : LedgerOperation}
    (hk : k < h.ledger.cells.length) (hleaves : h.Leaves k operation) :
    (h.step operation).ledger.cells[k]? = h.ledger.cells[k]? := by
  cases operation with
  | append characters => exact append_getElem? h.ledger characters hk
  | advanceEpoch next =>
    rw [step]
    cases hadvance : h.ledger.advanceEpoch next with
    | ok ledger => exact absurd (SourceLedger.advanceEpoch_eq_ok.mp hadvance).1 hleaves
    | err e => rfl
    | crash => rfl
  | continueInNamespace thread committed =>
    rw [step]
    cases hcontinue : h.ledger.continueInNamespace thread committed with
    | ok ledger =>
      obtain ⟨hle, rfl⟩ := SourceLedger.continueInNamespace_eq_ok.mp hcontinue
      split_ifs
      · rfl
      · have hinside : k < (h.ledger.cells.take committed).length := by
          rw [List.length_take]
          exact lt_min hleaves hk
        calc (h.ledger.movedTo thread committed).cells[k]?
            = (h.ledger.cells.take committed)[k]? := List.getElem?_append_left hinside
          _ = h.ledger.cells[k]? := List.getElem?_take_of_lt hleaves
    | err e => rfl
    | crash => rfl

theorem getElem?_run_of_leaves {h : LedgerHistory} {k : ℕ} {operations : List LedgerOperation}
    (hk : k < h.ledger.cells.length) (hleaves : h.LeavesAlong k operations) :
    (h.run operations).ledger.cells[k]? = h.ledger.cells[k]? := by
  induction operations generalizing h with
  | nil => rfl
  | cons operation rest ih =>
    have hstep := getElem?_step_of_leaves hk hleaves.1
    have hstill : k < (h.step operation).ledger.cells.length := by
      rw [List.getElem?_eq_getElem hk] at hstep
      exact (List.getElem?_eq_some_iff.mp hstep).1
    exact (ih hstill hleaves.2).trans hstep

/-- In every run that never goes back to a namespace, the cells of the epoch have distinct
identities and increasing raw boundaries, stand for the characters that were appended, and
keep their identity for as long as they stay committed. -/
theorem cells_identified (thread : ThreadNamespace) (epoch : ContextEpoch)
    {operations : List LedgerOperation} (hrun : (new thread epoch).NeverRevisits operations) :
    let h := (new thread epoch).run operations
    (h.ledger.cells.map (·.id)).Nodup ∧
      (h.ledger.cells.map (·.boundary.ordinal)).Pairwise (· < ·) ∧
      h.ledger.cells.map (·.character) = h.appended ∧
      ∀ k < h.ledger.cells.length, ∀ later, h.LeavesAlong k later →
        (h.run later).ledger.cells[k]?.map (·.id) = h.ledger.cells[k]?.map (·.id) := by
  intro h
  have hn : h.Numbered := (numbered_new thread epoch).run hrun
  refine ⟨hn.nodup, hn.ordered.sorted, hn.characters, ?_⟩
  intro k hk later hleaves
  rw [getElem?_run_of_leaves hk hleaves]

/-- Two forks: the first cell stays with the first thread, the second goes to the last one. -/
def forkedOperations : List LedgerOperation :=
  [.append [.opaqueItem 1, .opaqueItem 3], .continueInNamespace ⟨"b", by decide⟩ 1,
    .append [.opaqueItem 4], .continueInNamespace ⟨"c", by decide⟩ 1,
    .append [.opaqueItem 9, .opaqueItem 7]]

theorem forked_cells_identified :
    let h := (new ⟨"a", by decide⟩ 1).run forkedOperations
    h.ledger.cells.map (·.id.ordinal) = [0, 0, 1, 2] ∧
      (h.ledger.cells.map (·.id)).Nodup ∧
      (h.run [.append [.opaqueItem 12], .continueInNamespace ⟨"d", by decide⟩ 1]).ledger.cells[0]?.map
        (·.id) = h.ledger.cells[0]?.map (·.id) := by
  have honward : (new ⟨"a", by decide⟩ 1).NeverRevisits forkedOperations :=
    ⟨trivial, .inr (by decide), trivial, .inr (by decide), trivial, trivial⟩
  obtain ⟨hnodup, -, -, hkept⟩ := cells_identified ⟨"a", by decide⟩ 1 honward
  exact ⟨by decide, hnodup, hkept 0 (by decide) _ ⟨trivial, Nat.one_pos, trivial⟩⟩

end LedgerHistory

end SpineCodex
