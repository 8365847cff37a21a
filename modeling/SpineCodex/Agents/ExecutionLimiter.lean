import Mathlib.Data.Finset.Card
import Mathlib.Tactic.Common

/-!
# Capacity of spine spawns

A unit of spawn capacity is owned first by a reservation, then by the path the reservation was
committed for, and last by the permit of the guard that claimed the path.  Reservations, paths and
permits are released by different code in any order.  The limiter itself only counts: `active` for
paths and permits, `pending` for reservations.

`Session` keeps the values that are alive next to the limiters, so that a run can say which of
them is committed, dropped or claimed.  What each operation does to the limiter and to the live
values is said once, in `Step`; the balance between the two is its invariant.

Every counted unit is a value in memory, so counters are natural numbers and the saturating
additions of the source are exact.
-/

namespace SpineCodex

namespace Agents

/-- What the mutex of a limiter guards. -/
structure AgentExecutionState where
  active : ℕ
  pending : ℕ
  reservedAgentPaths : Finset String
deriving DecidableEq

/-- A reservation that gives its unit back when it is dropped, unless it was committed. -/
structure AgentExecutionReservation where
  active : Bool
deriving DecidableEq

/-- The error of a request beyond the limit. -/
inductive CodexErr where
  | agentLimitReached (maxThreads : ℕ)
deriving DecidableEq

inductive MultiAgentVersion where
  | disabled
  | v1
  | v2
deriving DecidableEq

/-- Where a session comes from, as far as the limiters read it. -/
inductive SessionSource where
  | threadSpawn (agentPath : Option String)
  | otherSubAgent
  | other
deriving DecidableEq

namespace SessionSource

def getAgentPath : SessionSource → Option String
  | threadSpawn agentPath => agentPath
  | _ => none

def isSubAgent : SessionSource → Bool
  | threadSpawn _ | otherSubAgent => true
  | other => false

end SessionSource

/-- Turns of the root and of older agents are not limited. -/
def isExecutionLimited (multiAgentVersion : MultiAgentVersion) (sessionSource : SessionSource) :
    Bool :=
  multiAgentVersion == .v2 && sessionSource.isSubAgent

namespace AgentExecutionState

/-- The state of a limiter that nothing was reserved from. -/
def default : AgentExecutionState :=
  ⟨0, 0, ∅⟩

def reserve (maxThreads : ℕ) (state : AgentExecutionState) (count : ℕ) :
    Except CodexErr (AgentExecutionState × List AgentExecutionReservation) :=
  if count = 0 then .ok (state, [])
  else if state.active + state.pending + count > maxThreads then
    .error (.agentLimitReached maxThreads)
  else .ok ({ state with pending := state.pending + count }, List.replicate count ⟨true⟩)

/-- Whether the path was reserved; it is not afterwards. -/
def claim (state : AgentExecutionState) (agentPath : String) : Bool × AgentExecutionState :=
  (decide (agentPath ∈ state.reservedAgentPaths),
    { state with reservedAgentPaths := state.reservedAgentPaths.erase agentPath })

def releaseReserved (state : AgentExecutionState) (agentPath : String) : AgentExecutionState :=
  if agentPath ∈ state.reservedAgentPaths then
    { state with
      active := state.active - 1
      reservedAgentPaths := state.reservedAgentPaths.erase agentPath }
  else state

/-- Take a unit without asking for capacity, as limited turns do that were admitted before. -/
def guard (state : AgentExecutionState) : AgentExecutionState :=
  { state with active := state.active + 1 }

/-- What dropping a permit does to its limiter. -/
def dropPermit (state : AgentExecutionState) : AgentExecutionState :=
  { state with active := state.active - 1 }

end AgentExecutionState

namespace AgentExecutionReservation

def drop (self : AgentExecutionReservation) (state : AgentExecutionState) : AgentExecutionState :=
  if self.active then { state with pending := state.pending - 1 } else state

/-- Hand the unit over to a path.  The reservation is dropped at the end of the call. -/
def commit (self : AgentExecutionReservation) (state : AgentExecutionState) (agentPath : String) :
    AgentExecutionState :=
  drop { self with active := false }
    { active := state.active + 1
      pending := state.pending - 1
      reservedAgentPaths := insert agentPath state.reservedAgentPaths }

end AgentExecutionReservation

/-- Which limiter a permit belongs to. -/
inductive Limiter where
  | agentExecution
  | spineSpawn
deriving DecidableEq

/-- The two limiters of a session, and the reservations and permits that are alive. -/
structure Session where
  agentExecutionLimiter : AgentExecutionState
  spineSpawnLimiter : AgentExecutionState
  reservations : List AgentExecutionReservation
  permits : List Limiter
deriving DecidableEq

namespace Session

def start : Session :=
  ⟨.default, .default, [], []⟩

/-- The guard of a turn: a reserved path is claimed first, and only a turn without one is counted
by the limiter of running agents. -/
def executionGuard (self : Session) (multiAgentVersion : MultiAgentVersion)
    (sessionSource : SessionSource) : Session :=
  match sessionSource.getAgentPath.map self.spineSpawnLimiter.claim with
  | some (true, claimed) =>
    { self with spineSpawnLimiter := claimed, permits := .spineSpawn :: self.permits }
  | _ =>
    if isExecutionLimited multiAgentVersion sessionSource then
      { self with
        agentExecutionLimiter := self.agentExecutionLimiter.guard
        permits := .agentExecution :: self.permits }
    else self

/-- Dropping a guard drops its permit. -/
def dropGuard (self : Session) (permit : Limiter) : Session :=
  match permit with
  | .agentExecution =>
    { self with
      agentExecutionLimiter := self.agentExecutionLimiter.dropPermit
      permits := self.permits.erase .agentExecution }
  | .spineSpawn =>
    { self with
      spineSpawnLimiter := self.spineSpawnLimiter.dropPermit
      permits := self.permits.erase .spineSpawn }

/-- One operation of a session whose spawn limiter was initialised with `maxThreads`.  Values that
are consumed are alive before, and a path is only committed when it is not reserved. -/
inductive Step (maxThreads : ℕ) : Session → Session → Prop
  | reserve (self : Session) (count : ℕ) {state : AgentExecutionState}
      {reservations : List AgentExecutionReservation}
      (h : self.spineSpawnLimiter.reserve maxThreads count = .ok (state, reservations)) :
      Step maxThreads self
        { self with
          spineSpawnLimiter := state
          reservations := reservations ++ self.reservations }
  | refused (self : Session) (count : ℕ) {e : CodexErr}
      (h : self.spineSpawnLimiter.reserve maxThreads count = .error e) : Step maxThreads self self
  | commit (self : Session) (reservation : AgentExecutionReservation) (agentPath : String)
      (hlive : reservation ∈ self.reservations)
      (hpath : agentPath ∉ self.spineSpawnLimiter.reservedAgentPaths) :
      Step maxThreads self
        { self with
          spineSpawnLimiter := reservation.commit self.spineSpawnLimiter agentPath
          reservations := self.reservations.erase reservation }
  | dropReservation (self : Session) {reservation : AgentExecutionReservation}
      (hlive : reservation ∈ self.reservations) :
      Step maxThreads self
        { self with
          spineSpawnLimiter := reservation.drop self.spineSpawnLimiter
          reservations := self.reservations.erase reservation }
  | executionGuard (self : Session) (multiAgentVersion : MultiAgentVersion)
      (sessionSource : SessionSource) :
      Step maxThreads self (self.executionGuard multiAgentVersion sessionSource)
  | dropGuard (self : Session) {permit : Limiter} (hlive : permit ∈ self.permits) :
      Step maxThreads self (self.dropGuard permit)
  | releaseExecutionReservation (self : Session) (agentPath : String) :
      Step maxThreads self
        { self with spineSpawnLimiter := self.spineSpawnLimiter.releaseReserved agentPath }

/-- The sessions that operations in any order lead to. -/
inductive Reachable (maxThreads : ℕ) : Session → Prop
  | start : Reachable maxThreads start
  | step {self next : Session} (h : Reachable maxThreads self) (hstep : Step maxThreads self next) :
      Reachable maxThreads next

/-- The live permits of the spawn limiter. -/
def spawnPermits (self : Session) : ℕ :=
  self.permits.count .spineSpawn

/-- Every unit has one owner, and there are no more units than the limit. -/
structure Balanced (maxThreads : ℕ) (session : Session) : Prop where
  active : session.spineSpawnLimiter.active =
    session.spawnPermits + session.spineSpawnLimiter.reservedAgentPaths.card
  pending : session.spineSpawnLimiter.pending = session.reservations.length
  uncommitted : ∀ reservation ∈ session.reservations, reservation.active = true
  limited : session.spineSpawnLimiter.active + session.spineSpawnLimiter.pending ≤ maxThreads

variable {maxThreads : ℕ} {self next : Session}

/-- What reserving does when it succeeds. -/
theorem reserve_eq_ok {state state' : AgentExecutionState} {count : ℕ}
    {reservations : List AgentExecutionReservation}
    (h : state.reserve maxThreads count = .ok (state', reservations))
    (hlimited : state.active + state.pending ≤ maxThreads) :
    state' = { state with pending := state.pending + count } ∧
      reservations = List.replicate count ⟨true⟩ ∧
      state.active + (state.pending + count) ≤ maxThreads := by
  unfold AgentExecutionState.reserve at h
  split_ifs at h with hzero hlimit
  · obtain ⟨rfl, rfl⟩ := Prod.mk.inj (Except.ok.inj h)
    subst hzero
    exact ⟨rfl, rfl, hlimited⟩
  · obtain ⟨rfl, rfl⟩ := Prod.mk.inj (Except.ok.inj h)
    exact ⟨rfl, rfl, by omega⟩

theorem Balanced.start : Balanced maxThreads start where
  active := rfl
  pending := rfl
  uncommitted _ h := absurd h List.not_mem_nil
  limited := Nat.zero_le _

/-- A claimed path becomes a permit, and any other turn leaves the spawn limiter alone. -/
theorem Balanced.executionGuard (h : Balanced maxThreads self)
    (multiAgentVersion : MultiAgentVersion) (sessionSource : SessionSource) :
    Balanced maxThreads (self.executionGuard multiAgentVersion sessionSource) := by
  unfold Session.executionGuard
  split
  · rename_i claimed hclaim
    obtain ⟨agentPath, -, hclaimed⟩ := Option.map_eq_some_iff.mp hclaim
    obtain ⟨hmem, rfl⟩ := Prod.mk.inj hclaimed
    have hcard := Finset.card_erase_add_one (of_decide_eq_true hmem)
    refine ⟨?_, h.pending, h.uncommitted, h.limited⟩
    have hactive := h.active
    simp only [spawnPermits, List.count_cons_self] at hactive ⊢
    omega
  · split
    · exact ⟨by simpa [spawnPermits] using h.active, h.pending, h.uncommitted, h.limited⟩
    · exact h

theorem Balanced.dropGuard (h : Balanced maxThreads self) {permit : Limiter}
    (hlive : permit ∈ self.permits) : Balanced maxThreads (self.dropGuard permit) := by
  cases permit with
  | agentExecution =>
    refine ⟨?_, h.pending, h.uncommitted, h.limited⟩
    have hcount : (self.permits.erase .agentExecution).count .spineSpawn = self.spawnPermits :=
      List.count_erase_of_ne (by decide)
    exact h.active.trans (congrArg (· + _) hcount.symm)
  | spineSpawn =>
    have hcount : (self.permits.erase .spineSpawn).count .spineSpawn = self.spawnPermits - 1 :=
      List.count_erase_self
    have hpositive : 0 < self.spawnPermits := List.count_pos_iff.mpr hlive
    have hactive := h.active
    have hlimited := h.limited
    refine ⟨?_, h.pending, h.uncommitted, ?_⟩
    · change self.spineSpawnLimiter.active - 1 = (self.permits.erase .spineSpawn).count .spineSpawn +
        self.spineSpawnLimiter.reservedAgentPaths.card
      omega
    · change self.spineSpawnLimiter.active - 1 + self.spineSpawnLimiter.pending ≤ maxThreads
      omega

theorem Balanced.step (h : Balanced maxThreads self) (hstep : Step maxThreads self next) :
    Balanced maxThreads next := by
  have hactive := h.active
  have hpending := h.pending
  have hlimited := h.limited
  cases hstep with
  | reserve count hreserve =>
    obtain ⟨rfl, rfl, hlimit⟩ := reserve_eq_ok hreserve hlimited
    refine ⟨h.active, ?_, ?_, hlimit⟩
    · simp only [List.length_append, List.length_replicate]
      omega
    · intro reservation hmem
      rcases List.mem_append.mp hmem with hnew | hold
      · rw [List.eq_of_mem_replicate hnew]
      · exact h.uncommitted reservation hold
  | refused count _ => exact h
  | commit reservation agentPath hlive hpath =>
    have hlength := List.length_erase_of_mem hlive
    have hpositive := List.length_pos_of_mem hlive
    have hcard := Finset.card_insert_of_notMem hpath
    refine ⟨?_, ?_, fun other hmem ↦ h.uncommitted other (List.mem_of_mem_erase hmem), ?_⟩ <;>
      simp only [AgentExecutionReservation.commit, AgentExecutionReservation.drop, spawnPermits,
        Bool.false_eq_true, if_false] at hactive ⊢ <;> omega
  | @dropReservation reservation hlive =>
    have hlength := List.length_erase_of_mem hlive
    have hpositive := List.length_pos_of_mem hlive
    refine ⟨?_, ?_, fun other hmem ↦ h.uncommitted other (List.mem_of_mem_erase hmem), ?_⟩ <;>
      simp only [AgentExecutionReservation.drop, h.uncommitted reservation hlive, if_true,
        spawnPermits] at hactive ⊢ <;> omega
  | executionGuard multiAgentVersion sessionSource =>
    exact h.executionGuard multiAgentVersion sessionSource
  | dropGuard hlive => exact h.dropGuard hlive
  | releaseExecutionReservation agentPath =>
    by_cases hmem : agentPath ∈ self.spineSpawnLimiter.reservedAgentPaths
    · have hcard := Finset.card_erase_add_one hmem
      refine ⟨?_, ?_, h.uncommitted, ?_⟩ <;>
        simp only [AgentExecutionState.releaseReserved, if_pos hmem, spawnPermits] at hactive ⊢ <;>
        omega
    · simpa only [AgentExecutionState.releaseReserved, if_neg hmem] using h

theorem Reachable.balanced (h : Reachable maxThreads self) : Balanced maxThreads self := by
  induction h with
  | start => exact Balanced.start
  | step _ hstep ih => exact ih.step hstep

end Session

end Agents

end SpineCodex
