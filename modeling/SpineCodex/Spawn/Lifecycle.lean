import Mathlib

/-!
# The lifecycle of spawn transactions

Transactions and aborts run concurrently and share a state behind a mutex.  What they do
outside the mutex, on cancellation tokens and on mailbox cancellations, interleaves freely:
an abort cancels the token and activates the mailbox cancellation that it read, and a
transaction activates its own one when it finds an abort barrier or a cancelled token.
-/

namespace SpineCodex

/-- `ActiveSpawnTransaction`.  Tokens and mailbox cancellations are shared objects, here names. -/
structure ActiveSpawnTransaction where
  cancellationToken : ℕ
  mailboxCancellation : Option ℕ
  deriving Repr, DecidableEq

structure SpawnLifecycleState where
  activeTransaction : Option ActiveSpawnTransaction
  abortBarriers : ℕ
  deriving Repr, DecidableEq

/-! ## The critical sections -/

namespace SpawnLifecycleState

/-- `try_enter`, with whether it returned a guard. -/
def tryEnter (s : SpawnLifecycleState) (token : ℕ) : SpawnLifecycleState × Bool :=
  if 0 < s.abortBarriers ∨ s.activeTransaction.isSome then (s, false)
  else ({ s with activeTransaction := some ⟨token, none⟩ }, true)

/-- The critical section of `begin_abort`, with what it read from the active transaction. -/
def beginAbort (s : SpawnLifecycleState) : SpawnLifecycleState × Option ActiveSpawnTransaction :=
  ({ s with abortBarriers := s.abortBarriers + 1 }, s.activeTransaction)

/-- The critical section of `install_mailbox_cancellation`, with `should_activate`. -/
def installMailboxCancellation (s : SpawnLifecycleState) (mailbox : ℕ) :
    SpawnLifecycleState × Bool :=
  ({ s with
      activeTransaction := s.activeTransaction.map fun transaction ↦
        { transaction with mailboxCancellation := some mailbox } },
    decide (0 < s.abortBarriers))

/-- `drop` of a `SpawnTransactionGuard`. -/
def dropGuard (s : SpawnLifecycleState) : SpawnLifecycleState := { s with activeTransaction := none }

/-- `drop` of a `SpawnAbortBarrier`. -/
def dropBarrier (s : SpawnLifecycleState) : SpawnLifecycleState :=
  { s with abortBarriers := s.abortBarriers - 1 }

end SpawnLifecycleState

/-! ## Transactions and aborts -/

/-- How far a transaction has come.  Between the installation of its mailbox cancellation and the
check of its token it does not wait, so its guard cannot be dropped there. -/
inductive TransactionPhase where
  | entered
  | installing (shouldActivate : Bool)
  | checking
  | installed
  | left
  deriving Repr, DecidableEq

structure SpawnTransaction where
  token : ℕ
  mailbox : Option ℕ
  phase : TransactionPhase
  deriving Repr, DecidableEq

/-- How far an abort has come: it cancels the token, activates the mailbox cancellation, returns
its barrier, and the barrier is dropped. -/
inductive AbortPhase where
  | cancelling
  | activating
  | held
  | dropped
  deriving Repr, DecidableEq

structure SpawnAbort where
  captured : Option ActiveSpawnTransaction
  phase : AbortPhase
  deriving Repr, DecidableEq

structure SpawnSystem where
  state : SpawnLifecycleState
  transactions : List SpawnTransaction
  aborts : List SpawnAbort
  cancelled : Finset ℕ
  activated : Finset ℕ
  deriving DecidableEq

namespace SpawnSystem

def new : SpawnSystem := ⟨⟨none, 0⟩, [], [], ∅, ∅⟩

/-- The system after the critical section of `begin_abort`. -/
def beginAbort (s : SpawnSystem) : SpawnSystem :=
  { s with
    state := s.state.beginAbort.1
    aborts := s.aborts ++ [⟨s.state.beginAbort.2, .cancelling⟩] }

/-- One step of one of the concurrent parties. -/
inductive Step (s : SpawnSystem) : SpawnSystem → Prop
  | enter (token : ℕ) (h : (s.state.tryEnter token).2 = true) : Step s { s with
      state := (s.state.tryEnter token).1
      transactions := s.transactions ++ [⟨token, none, .entered⟩] }
  | install (i mailbox : ℕ) {token : ℕ} {old : Option ℕ}
      (h : s.transactions[i]? = some ⟨token, old, .entered⟩) : Step s { s with
        state := (s.state.installMailboxCancellation mailbox).1
        transactions := s.transactions.set i ⟨token, some mailbox,
          .installing (s.state.installMailboxCancellation mailbox).2⟩ }
  | activate (i : ℕ) {token mailbox : ℕ} {shouldActivate : Bool}
      (h : s.transactions[i]? = some ⟨token, some mailbox, .installing shouldActivate⟩) :
      Step s { s with
        transactions := s.transactions.set i ⟨token, some mailbox, .checking⟩
        activated := if shouldActivate then insert mailbox s.activated else s.activated }
  | check (i : ℕ) {token mailbox : ℕ}
      (h : s.transactions[i]? = some ⟨token, some mailbox, .checking⟩) :
      Step s { s with
        transactions := s.transactions.set i ⟨token, some mailbox, .installed⟩
        activated := if token ∈ s.cancelled then insert mailbox s.activated else s.activated }
  | leave (i : ℕ) {token : ℕ} {mailbox : Option ℕ} {phase : TransactionPhase}
      (h : s.transactions[i]? = some ⟨token, mailbox, phase⟩)
      (hphase : phase = .entered ∨ phase = .installed) : Step s { s with
        state := s.state.dropGuard
        transactions := s.transactions.set i ⟨token, mailbox, .left⟩ }
  | beginAbort : Step s s.beginAbort
  | cancel (a : ℕ) {captured : Option ActiveSpawnTransaction}
      (h : s.aborts[a]? = some ⟨captured, .cancelling⟩) : Step s { s with
        aborts := s.aborts.set a ⟨captured, .activating⟩
        cancelled := match captured with
          | some transaction => insert transaction.cancellationToken s.cancelled
          | none => s.cancelled }
  | activateAborted (a : ℕ) {captured : Option ActiveSpawnTransaction}
      (h : s.aborts[a]? = some ⟨captured, .activating⟩) : Step s { s with
        aborts := s.aborts.set a ⟨captured, .held⟩
        activated := match captured.bind (·.mailboxCancellation) with
          | some mailbox => insert mailbox s.activated
          | none => s.activated }
  | dropBarrier (a : ℕ) {captured : Option ActiveSpawnTransaction}
      (h : s.aborts[a]? = some ⟨captured, .held⟩) : Step s { s with
        state := s.state.dropBarrier
        aborts := s.aborts.set a ⟨captured, .dropped⟩ }
  | cancelToken (token : ℕ) : Step s { s with cancelled := insert token s.cancelled }
  | activateMailbox (mailbox : ℕ) : Step s { s with activated := insert mailbox s.activated }

abbrev Run := Relation.ReflTransGen Step

/-! ## The shared state and the parties agree -/

/-- The transaction has entered and not left. -/
def Active (s : SpawnSystem) (i : ℕ) (t : SpawnTransaction) : Prop :=
  s.transactions[i]? = some t ∧ t.phase ≠ .left

/-- What the mutex protects describes the parties. -/
structure Consistent (s : SpawnSystem) : Prop where
  active_eq : ∀ i t, Active s i t → s.state.activeTransaction = some ⟨t.token, t.mailbox⟩
  unique : ∀ i j t u, Active s i t → Active s j u → i = j
  barriers : s.state.abortBarriers = s.aborts.countP fun abort ↦ decide (abort.phase ≠ .dropped)
  fresh : ∀ (i : ℕ) (t : SpawnTransaction), s.transactions[i]? = some t → t.phase = .entered →
    t.mailbox = none

theorem consistent_new : Consistent new :=
  ⟨by simp [Active, new], by simp [Active, new], rfl, by simp [new]⟩

theorem getElem?_set_cases {α : Type*} {l : List α} {i j : ℕ} {a b : α}
    (h : (l.set i a)[j]? = some b) : (i = j ∧ b = a) ∨ (i ≠ j ∧ l[j]? = some b) := by
  by_cases hij : i = j
  · subst hij
    have hlt : i < l.length := by
      have hlen := (List.getElem?_eq_some_iff.mp h).1
      rwa [List.length_set] at hlen
    rw [List.getElem?_set_self hlt] at h
    exact .inl ⟨rfl, (Option.some.inj h).symm⟩
  · rw [List.getElem?_set_ne hij] at h
    exact .inr ⟨hij, h⟩

theorem getElem?_concat_cases {α : Type*} {l : List α} {j : ℕ} {a b : α}
    (h : (l ++ [a])[j]? = some b) : l[j]? = some b ∨ (j = l.length ∧ b = a) := by
  rcases Nat.lt_or_ge j l.length with hlt | hge
  · rw [List.getElem?_append_left hlt] at h
    exact .inl h
  · have hj : j = l.length := by
      have hlen := (List.getElem?_eq_some_iff.mp h).1
      rw [List.length_append, List.length_singleton] at hlen
      omega
    subst hj
    rw [List.getElem?_concat_length] at h
    exact .inr ⟨rfl, (Option.some.inj h).symm⟩

/-- The active transaction changes, in the list and in the shared state. -/
theorem Consistent.setTransaction {s s' : SpawnSystem} (h : Consistent s) {i : ℕ}
    {t t' : SpawnTransaction} (hactive : Active s i t)
    (htransactions : s'.transactions = s.transactions.set i t') (haborts : s'.aborts = s.aborts)
    (hbarriers : s'.state.abortBarriers = s.state.abortBarriers)
    (hstate : t'.phase ≠ .left → s'.state.activeTransaction = some ⟨t'.token, t'.mailbox⟩)
    (hfresh : t'.phase ≠ .entered) : Consistent s' := by
  have honly : ∀ j u, Active s' j u → j = i ∧ u = t' := by
    rintro j u ⟨hget, hphase⟩
    rw [htransactions] at hget
    rcases getElem?_set_cases hget with ⟨rfl, rfl⟩ | ⟨hne, hold⟩
    · exact ⟨rfl, rfl⟩
    · exact absurd (h.unique i j t u hactive ⟨hold, hphase⟩) hne
  refine ⟨?_, ?_, ?_, ?_⟩
  · intro j u hj
    obtain ⟨-, rfl⟩ := honly j u hj
    exact hstate hj.2
  · intro j k u v hj hk
    rw [(honly j u hj).1, (honly k v hk).1]
  · rw [hbarriers, haborts]
    exact h.barriers
  · intro j u hget hentered
    rw [htransactions] at hget
    rcases getElem?_set_cases hget with ⟨-, rfl⟩ | ⟨-, hold⟩
    · exact absurd hentered hfresh
    · exact h.fresh j u hold hentered

/-- A barrier that is not dropped is counted. -/
theorem Consistent.barrier_pos {s : SpawnSystem} (h : Consistent s) {a : ℕ} {abort : SpawnAbort}
    (hget : s.aborts[a]? = some abort) (hheld : abort.phase ≠ .dropped) :
    0 < s.state.abortBarriers := by
  rw [h.barriers, List.countP_pos_iff]
  exact ⟨abort, List.mem_of_getElem? hget, by simpa using hheld⟩

/-- One abort changes. -/
theorem Consistent.setAbort {s s' : SpawnSystem} (h : Consistent s) {a : ℕ} {abort abort' : SpawnAbort}
    (hget : s.aborts[a]? = some abort) (htransactions : s'.transactions = s.transactions)
    (haborts : s'.aborts = s.aborts.set a abort')
    (hactive : s'.state.activeTransaction = s.state.activeTransaction)
    (hheld : abort.phase ≠ .dropped)
    (hbarriers : s'.state.abortBarriers + 1 =
      s.state.abortBarriers + if abort'.phase ≠ .dropped then 1 else 0) : Consistent s' := by
  obtain ⟨hlt, hvalue⟩ := List.getElem?_eq_some_iff.mp hget
  have hpos := h.barrier_pos hget hheld
  have hsame : ∀ j u, Active s' j u ↔ Active s j u := by
    intro j u
    rw [Active, Active, htransactions]
  refine ⟨?_, ?_, ?_, ?_⟩
  · intro j u hj
    rw [hactive]
    exact h.active_eq j u ((hsame j u).mp hj)
  · exact fun j k u v hj hk ↦ h.unique j k u v ((hsame j u).mp hj) ((hsame k v).mp hk)
  · have hcount : s'.aborts.countP (fun abort ↦ decide (abort.phase ≠ .dropped)) =
        s.state.abortBarriers - 1 + if abort'.phase ≠ .dropped then 1 else 0 := by
      rw [haborts, List.countP_set hlt, h.barriers, hvalue]
      simp [hheld]
    rw [hcount]
    split_ifs at hbarriers ⊢ <;> omega
  · rw [htransactions]
    exact h.fresh

theorem Consistent.step {s s' : SpawnSystem} (h : Consistent s) (hstep : Step s s') :
    Consistent s' := by
  cases hstep with
  | enter token hok =>
    unfold SpawnLifecycleState.tryEnter at hok ⊢
    split_ifs at hok ⊢ with hblocked
    rw [not_or] at hblocked
    have hnone : ∀ i t, ¬Active s i t := by
      intro i t hactive
      rw [h.active_eq i t hactive] at hblocked
      exact hblocked.2 rfl
    have honly : ∀ j u, Active { s with
        state := { s.state with activeTransaction := some ⟨token, none⟩ }
        transactions := s.transactions ++ [⟨token, none, .entered⟩] } j u →
          j = s.transactions.length ∧ u = ⟨token, none, .entered⟩ := by
      rintro j u ⟨hget, hphase⟩
      rcases getElem?_concat_cases hget with hold | hlast
      · exact absurd ⟨hold, hphase⟩ (hnone j u)
      · exact hlast
    refine ⟨?_, ?_, h.barriers, ?_⟩
    · intro j u hj
      rw [(honly j u hj).2]
    · intro j k u v hj hk
      rw [(honly j u hj).1, (honly k v hk).1]
    · intro j u hget hentered
      rcases getElem?_concat_cases hget with hold | ⟨-, rfl⟩
      · exact h.fresh j u hold hentered
      · rfl
  | install i mailbox hget =>
    rename_i token old
    have hactive : Active s i ⟨token, old, .entered⟩ := ⟨hget, by simp⟩
    refine h.setTransaction hactive rfl rfl rfl (fun _ ↦ ?_) (by simp)
    simp [SpawnLifecycleState.installMailboxCancellation, h.active_eq _ _ hactive]
  | activate i hget =>
    rename_i token mailbox shouldActivate
    have hactive : Active s i ⟨token, some mailbox, .installing shouldActivate⟩ := ⟨hget, by simp⟩
    have hstate := h.active_eq _ _ hactive
    exact h.setTransaction hactive rfl rfl rfl (fun _ ↦ hstate) (by simp)
  | check i hget =>
    rename_i token mailbox
    have hactive : Active s i ⟨token, some mailbox, .checking⟩ := ⟨hget, by simp⟩
    have hstate := h.active_eq _ _ hactive
    exact h.setTransaction hactive rfl rfl rfl (fun _ ↦ hstate) (by simp)
  | leave i hget hphase =>
    rename_i token mailbox phase
    have hactive : Active s i ⟨token, mailbox, phase⟩ := by
      refine ⟨hget, ?_⟩
      rcases hphase with rfl | rfl
      · simp
      · simp
    exact h.setTransaction hactive rfl rfl rfl (by simp) (by simp)
  | beginAbort =>
    refine ⟨h.active_eq, h.unique, ?_, h.fresh⟩
    simp [beginAbort, SpawnLifecycleState.beginAbort, h.barriers]
  | cancel a hget => exact h.setAbort hget rfl rfl rfl (by simp) (by simp)
  | activateAborted a hget => exact h.setAbort hget rfl rfl rfl (by simp) (by simp)
  | dropBarrier a hget =>
    have hpos := h.barrier_pos hget (by simp)
    exact h.setAbort hget rfl rfl rfl (by simp)
      (by simpa [SpawnLifecycleState.dropBarrier] using Nat.sub_add_cancel hpos)
  | cancelToken token => exact ⟨h.active_eq, h.unique, h.barriers, h.fresh⟩
  | activateMailbox mailbox => exact ⟨h.active_eq, h.unique, h.barriers, h.fresh⟩

theorem Consistent.run {s s' : SpawnSystem} (h : Consistent s) (hrun : Run s s') : Consistent s' := by
  induction hrun with
  | refl => exact h
  | tail _ hstep ih => exact ih.step hstep

/-! ## A transaction that an abort has found -/

/-- Why the mailbox cancellation that a transaction installed after an abort is or will be
activated. -/
def Owed (s : SpawnSystem) (token mailbox : ℕ) : TransactionPhase → Prop
  | .entered => False
  | .installing shouldActivate => shouldActivate = true ∨ token ∈ s.cancelled
  | .checking => mailbox ∈ s.activated ∨ token ∈ s.cancelled
  | .installed | .left => mailbox ∈ s.activated

/-- Transaction `i` was active when abort `a` read its token and its mailbox cancellation. -/
structure Struck (i a token : ℕ) (read : Option ℕ) (s : SpawnSystem) (mailbox : Option ℕ)
    (phase : TransactionPhase) (abortPhase : AbortPhase) : Prop where
  transaction : s.transactions[i]? = some ⟨token, mailbox, phase⟩
  abort : s.aborts[a]? = some ⟨some ⟨token, read⟩, abortPhase⟩
  cancelled : abortPhase = .cancelling ∨ token ∈ s.cancelled
  before : ∀ m, read = some m → (mailbox = some m ∧ phase ≠ .entered) ∧
    (abortPhase = .cancelling ∨ abortPhase = .activating ∨ m ∈ s.activated)
  after : read = none → ∀ m, mailbox = some m → Owed s token m phase

theorem Owed.mono {s s' : SpawnSystem} {token mailbox : ℕ} {phase : TransactionPhase}
    (h : Owed s token mailbox phase) (hcancelled : s.cancelled ⊆ s'.cancelled)
    (hactivated : s.activated ⊆ s'.activated) : Owed s' token mailbox phase := by
  cases phase with
  | entered => exact h
  | installing shouldActivate => exact h.imp_right fun hmem ↦ hcancelled hmem
  | checking => exact h.imp (fun hmem ↦ hactivated hmem) fun hmem ↦ hcancelled hmem
  | installed => exact hactivated h
  | left => exact hactivated h

section

variable {i a token : ℕ} {read mailbox : Option ℕ} {phase : TransactionPhase} {abortPhase : AbortPhase}
  {s s' : SpawnSystem}

/-- Steps of other parties only add to the cancelled and activated objects. -/
theorem Struck.mono (h : Struck i a token read s mailbox phase abortPhase)
    (htransaction : s'.transactions[i]? = s.transactions[i]?) (habort : s'.aborts[a]? = s.aborts[a]?)
    (hcancelled : s.cancelled ⊆ s'.cancelled) (hactivated : s.activated ⊆ s'.activated) :
    Struck i a token read s' mailbox phase abortPhase where
  transaction := htransaction.trans h.transaction
  abort := habort.trans h.abort
  cancelled := h.cancelled.imp_right fun hmem ↦ hcancelled hmem
  before m hm := (h.before m hm).imp_right (Or.imp_right (Or.imp_right fun hmem ↦ hactivated hmem))
  after hnone m hm := (h.after hnone m hm).mono hcancelled hactivated

theorem subset_ite_insert (condition : Prop) [Decidable condition] (m : ℕ) (set : Finset ℕ) :
    set ⊆ if condition then insert m set else set := by
  split_ifs
  · exact Finset.subset_insert _ _
  · exact Finset.Subset.refl _

/-- The transaction itself makes a step. -/
theorem Struck.setTransaction (h : Struck i a token read s mailbox phase abortPhase)
    {mailbox' : Option ℕ} {phase' : TransactionPhase}
    (htransactions : s'.transactions = s.transactions.set i ⟨token, mailbox', phase'⟩)
    (haborts : s'.aborts = s.aborts) (hcancelled : s'.cancelled = s.cancelled)
    (hactivated : s.activated ⊆ s'.activated)
    (hbefore : ∀ m, read = some m → mailbox' = some m ∧ phase' ≠ .entered)
    (hafter : read = none → ∀ m, mailbox' = some m → Owed s' token m phase') :
    Struck i a token read s' mailbox' phase' abortPhase where
  transaction := by
    rw [htransactions, List.getElem?_set_self (List.getElem?_eq_some_iff.mp h.transaction).1]
  abort := haborts ▸ h.abort
  cancelled := hcancelled ▸ h.cancelled
  before m hm :=
    ⟨hbefore m hm, (h.before m hm).2.imp_right (Or.imp_right fun hmem ↦ hactivated hmem)⟩
  after := hafter

/-- The abort itself makes a step. -/
theorem Struck.setAbort (h : Struck i a token read s mailbox phase abortPhase)
    {abortPhase' : AbortPhase} (htransactions : s'.transactions = s.transactions)
    (haborts : s'.aborts = s.aborts.set a ⟨some ⟨token, read⟩, abortPhase'⟩)
    (hcancelled : s.cancelled ⊆ s'.cancelled) (hactivated : s.activated ⊆ s'.activated)
    (htoken : abortPhase' = .cancelling ∨ token ∈ s'.cancelled)
    (hread : ∀ m, read = some m →
      abortPhase' = .cancelling ∨ abortPhase' = .activating ∨ m ∈ s'.activated) :
    Struck i a token read s' mailbox phase abortPhase' where
  transaction := htransactions ▸ h.transaction
  abort := by rw [haborts, List.getElem?_set_self (List.getElem?_eq_some_iff.mp h.abort).1]
  cancelled := htoken
  before m hm := ⟨(h.before m hm).1, hread m hm⟩
  after hnone m hm := (h.after hnone m hm).mono hcancelled hactivated

theorem Struck.step (h : Struck i a token read s mailbox phase abortPhase) (hs : Consistent s)
    (hstep : Step s s') : ∃ mailbox' phase' abortPhase',
      Struck i a token read s' mailbox' phase' abortPhase' := by
  have hi : i < s.transactions.length := (List.getElem?_eq_some_iff.mp h.transaction).1
  have ha : a < s.aborts.length := (List.getElem?_eq_some_iff.mp h.abort).1
  cases hstep with
  | enter token' _ =>
    exact ⟨_, _, _, h.mono (List.getElem?_append_left hi) rfl (Finset.Subset.refl _)
      (Finset.Subset.refl _)⟩
  | install j mailbox' hget =>
    by_cases hij : j = i
    · subst hij
      rw [h.transaction] at hget
      obtain ⟨rfl, rfl, rfl⟩ := SpawnTransaction.mk.inj (Option.some.inj hget)
      refine ⟨_, _, _, h.setTransaction rfl rfl rfl (Finset.Subset.refl _) ?_ ?_⟩
      · intro m hm
        exact absurd rfl (h.before m hm).1.2
      · -- without a barrier the abort is over and has cancelled the token
        intro _ m _
        by_cases hbarriers : 0 < s.state.abortBarriers
        · exact .inl (decide_eq_true hbarriers)
        · refine .inr (h.cancelled.resolve_left fun hphase ↦ hbarriers ?_)
          exact hs.barrier_pos h.abort (by simp [hphase])
    · exact ⟨_, _, _, h.mono (List.getElem?_set_ne hij) rfl (Finset.Subset.refl _)
        (Finset.Subset.refl _)⟩
  | activate j hget =>
    by_cases hij : j = i
    · subst hij
      rw [h.transaction] at hget
      obtain ⟨rfl, rfl, rfl⟩ := SpawnTransaction.mk.inj (Option.some.inj hget)
      refine ⟨_, _, _, h.setTransaction rfl rfl rfl (subset_ite_insert _ _ _) ?_ ?_⟩
      · exact fun m hm ↦ ⟨(h.before m hm).1.1, by simp⟩
      · intro hnone m hm
        rcases h.after hnone m hm with hshould | hmem
        · obtain rfl := Option.some.inj hm
          exact .inl (by simp [hshould])
        · exact .inr hmem
    · exact ⟨_, _, _, h.mono (List.getElem?_set_ne hij) rfl (Finset.Subset.refl _)
        (subset_ite_insert _ _ _)⟩
  | check j hget =>
    by_cases hij : j = i
    · subst hij
      rw [h.transaction] at hget
      obtain ⟨rfl, rfl, rfl⟩ := SpawnTransaction.mk.inj (Option.some.inj hget)
      refine ⟨_, _, _, h.setTransaction rfl rfl rfl (subset_ite_insert _ _ _) ?_ ?_⟩
      · exact fun m hm ↦ ⟨(h.before m hm).1.1, by simp⟩
      · intro hnone m hm
        obtain rfl := Option.some.inj hm
        rcases h.after hnone _ rfl with hmem | hmem
        · exact subset_ite_insert _ _ _ hmem
        · simp [Owed, hmem]
    · exact ⟨_, _, _, h.mono (List.getElem?_set_ne hij) rfl (Finset.Subset.refl _)
        (subset_ite_insert _ _ _)⟩
  | leave j hget hphase =>
    by_cases hij : j = i
    · subst hij
      have hnone' := hs.fresh j _ h.transaction
      rw [h.transaction] at hget
      obtain ⟨rfl, rfl, rfl⟩ := SpawnTransaction.mk.inj (Option.some.inj hget)
      refine ⟨_, _, _, h.setTransaction rfl rfl rfl (Finset.Subset.refl _) ?_ ?_⟩
      · exact fun m hm ↦ ⟨(h.before m hm).1.1, by simp⟩
      · intro hnone m hm
        rcases hphase with rfl | rfl
        · exact absurd ((hnone' rfl).symm.trans hm) (by simp)
        · exact h.after hnone m hm
    · exact ⟨_, _, _, h.mono (List.getElem?_set_ne hij) rfl (Finset.Subset.refl _)
        (Finset.Subset.refl _)⟩
  | beginAbort =>
    exact ⟨_, _, _, h.mono rfl (List.getElem?_append_left ha) (Finset.Subset.refl _)
      (Finset.Subset.refl _)⟩
  | cancel b hget =>
    rename_i captured
    have hsub : s.cancelled ⊆ (match captured with
        | some transaction => insert transaction.cancellationToken s.cancelled
        | none => s.cancelled) := by
      cases captured with
      | none => exact Finset.Subset.refl _
      | some transaction => exact Finset.subset_insert _ _
    by_cases hba : b = a
    · subst hba
      rw [h.abort] at hget
      obtain ⟨rfl, rfl⟩ := SpawnAbort.mk.inj (Option.some.inj hget)
      exact ⟨_, _, _, h.setAbort rfl rfl hsub (Finset.Subset.refl _)
        (.inr (Finset.mem_insert_self _ _)) fun _ _ ↦ .inr (.inl rfl)⟩
    · exact ⟨_, _, _, h.mono rfl (List.getElem?_set_ne hba) hsub (Finset.Subset.refl _)⟩
  | activateAborted b hget =>
    rename_i captured
    have hsub : s.activated ⊆ (match captured.bind (·.mailboxCancellation) with
        | some mailbox => insert mailbox s.activated
        | none => s.activated) := by
      cases captured.bind (·.mailboxCancellation) with
      | none => exact Finset.Subset.refl _
      | some mailbox => exact Finset.subset_insert _ _
    by_cases hba : b = a
    · subst hba
      rw [h.abort] at hget
      obtain ⟨rfl, rfl⟩ := SpawnAbort.mk.inj (Option.some.inj hget)
      refine ⟨_, _, _, h.setAbort rfl rfl (Finset.Subset.refl _) hsub
        (.inr (h.cancelled.resolve_left (by simp))) ?_⟩
      rintro m rfl
      exact .inr (.inr (Finset.mem_insert_self _ _))
    · exact ⟨_, _, _, h.mono rfl (List.getElem?_set_ne hba) (Finset.Subset.refl _) hsub⟩
  | dropBarrier b hget =>
    by_cases hba : b = a
    · subst hba
      rw [h.abort] at hget
      obtain ⟨rfl, rfl⟩ := SpawnAbort.mk.inj (Option.some.inj hget)
      refine ⟨_, _, _, h.setAbort rfl rfl (Finset.Subset.refl _) (Finset.Subset.refl _)
        (.inr (h.cancelled.resolve_left (by simp))) ?_⟩
      intro m hm
      have hread := (h.before m hm).2
      simpa using hread
    · exact ⟨_, _, _, h.mono rfl (List.getElem?_set_ne hba) (Finset.Subset.refl _)
        (Finset.Subset.refl _)⟩
  | cancelToken token' =>
    exact ⟨_, _, _, h.mono rfl rfl (Finset.subset_insert _ _) (Finset.Subset.refl _)⟩
  | activateMailbox mailbox' =>
    exact ⟨_, _, _, h.mono rfl rfl (Finset.Subset.refl _) (Finset.subset_insert _ _)⟩

theorem Struck.run (h : Struck i a token read s mailbox phase abortPhase) (hs : Consistent s)
    (hrun : Run s s') : ∃ mailbox' phase' abortPhase',
      Struck i a token read s' mailbox' phase' abortPhase' := by
  induction hrun with
  | refl => exact ⟨_, _, _, h⟩
  | tail hrun hstep ih =>
    obtain ⟨_, _, _, hstruck⟩ := ih
    exact hstruck.step (hs.run hrun) hstep

end

/-! ## The contract of the lifecycle -/

/-- Once the abort has returned, the token of transaction `i` is cancelled, its mailbox cancellation
is activated if the abort found it, and otherwise it is activated when its installation is over. -/
structure Reached (i : ℕ) (t : SpawnTransaction) (s : SpawnSystem) : Prop where
  token : t.token ∈ s.cancelled
  before : ∀ m, t.mailbox = some m → m ∈ s.activated
  after : ∀ (t' : SpawnTransaction) (m : ℕ), s.transactions[i]? = some t' → t'.mailbox = some m →
    t'.phase = .installed ∨ t'.phase = .left → m ∈ s.activated

/-- What holds in every interleaving of transactions and aborts. -/
structure LifecycleContract (s : SpawnSystem) : Prop where
  single : ∀ i j t u, Active s i t → Active s j u → i = j
  closed : ∀ (a : ℕ) (abort : SpawnAbort), s.aborts[a]? = some abort → abort.phase ≠ .dropped →
    ∀ token, (s.state.tryEnter token).2 = false
  reached : ∀ i t, Active s i t → ∀ s', Run s.beginAbort s' → ∀ abort : SpawnAbort,
    s'.aborts[s.aborts.length]? = some abort → abort.phase = .held ∨ abort.phase = .dropped →
      Reached i t s'

/-- The abort finds the active transaction. -/
theorem Consistent.struck {s : SpawnSystem} (h : Consistent s) {i : ℕ} {t : SpawnTransaction}
    (hactive : Active s i t) :
    Struck i s.aborts.length t.token t.mailbox s.beginAbort t.mailbox t.phase .cancelling := by
  refine ⟨hactive.1, ?_, .inl rfl, ?_, ?_⟩
  · simp [beginAbort, SpawnLifecycleState.beginAbort, h.active_eq i t hactive]
  · intro m hm
    refine ⟨⟨hm, fun hentered ↦ ?_⟩, .inl rfl⟩
    exact absurd ((h.fresh i t hactive.1 hentered).symm.trans hm) (by simp)
  · intro hnone m hm
    exact absurd (hnone.symm.trans hm) (by simp)

theorem lifecycle_of_run {s : SpawnSystem} (h : Run new s) : LifecycleContract s := by
  have hs := consistent_new.run h
  refine ⟨hs.unique, ?_, ?_⟩
  · intro a abort hget hheld token
    have hpos := hs.barrier_pos hget hheld
    simp [SpawnLifecycleState.tryEnter, hpos]
  · intro i t hactive s' hrun abort hget hreturned
    obtain ⟨mailbox', phase', abortPhase', hstruck⟩ :=
      (hs.struck hactive).run (hs.step .beginAbort) hrun
    have habort := hstruck.abort
    rw [hget] at habort
    obtain rfl := Option.some.inj habort
    have hover : abortPhase' ≠ .cancelling ∧ abortPhase' ≠ .activating := by
      rcases hreturned with rfl | rfl
      · simp
      · simp
    refine ⟨hstruck.cancelled.resolve_left hover.1, ?_, ?_⟩
    · intro m hm
      exact ((hstruck.before m hm).2.resolve_left hover.1).resolve_left hover.2
    · intro t' m hget' hm hphase
      rw [hstruck.transaction] at hget'
      obtain rfl := Option.some.inj hget'
      cases hread : t.mailbox with
      | none =>
        have howed := hstruck.after hread m hm
        rcases hphase with rfl | rfl
        · exact howed
        · exact howed
      | some m' =>
        obtain ⟨⟨hmailbox, -⟩, hactivated⟩ := hstruck.before m' hread
        obtain rfl : m' = m := Option.some.inj (hmailbox.symm.trans hm)
        exact (hactivated.resolve_left hover.1).resolve_left hover.2

/-- A transaction that entered and has not installed its mailbox cancellation. -/
def enteredOnly : SpawnSystem := ⟨⟨some ⟨7, none⟩, 0⟩, [⟨7, none, .entered⟩], [], ∅, ∅⟩

/-- The transaction installs it after the barrier of an abort was dropped. -/
def installedLate : SpawnSystem :=
  ⟨⟨some ⟨7, some 3⟩, 0⟩, [⟨7, some 3, .installed⟩], [⟨some ⟨7, none⟩, .dropped⟩], {7}, {3}⟩

theorem activated_late : Run new enteredOnly ∧ Run enteredOnly.beginAbort installedLate ∧
    3 ∈ installedLate.activated := by
  have henter : Run new enteredOnly := .single (.enter 7 rfl)
  have hrun : Run enteredOnly.beginAbort installedLate :=
    .head (.cancel 0 rfl) <| .head (.activateAborted 0 rfl) <| .head (.dropBarrier 0 rfl) <|
      .head (.install 0 3 rfl) <| .head (.activate 0 rfl) <| .single (.check 0 rfl)
  refine ⟨henter, hrun, ?_⟩
  have hreached := (lifecycle_of_run henter).reached 0 ⟨7, none, .entered⟩ ⟨rfl, by simp⟩
    installedLate hrun ⟨some ⟨7, none⟩, .dropped⟩ rfl (.inr rfl)
  exact hreached.after ⟨7, some 3, .installed⟩ 3 rfl rfl (.inl rfl)

end SpawnSystem

end SpineCodex
