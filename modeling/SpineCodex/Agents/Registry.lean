import Mathlib.Data.Finset.Insert
import Mathlib.Data.List.AList
import Mathlib.Tactic.Common

/-!
# Slots of the agent registry

The registry counts the agents of a session next to two maps that a mutex guards: the agent tree,
from the key of an agent to its metadata, and the thread index, from a thread to the key of its
agent.  The counter is an atomic of its own, so a call changes the maps and the counter at
different times, and reserving goes through a loop of compare-and-exchange.

`System` runs the calls in pieces of which each is atomic: a piece that changed the maps and still
has to lower the counter is remembered in `owed`, a reservation in its loop in `attempts`.
Registering replaces what stood under the same thread or the same key without lowering the
counter, so slots are conserved in runs that register every thread and every key once.
-/

namespace SpineCodex

namespace Agents

/-- A thread, by the text of its identifier. -/
structure ThreadId where
  uuid : String
deriving DecidableEq

namespace AgentPath

def root : String :=
  "/root"

def isRoot (path : String) : Bool :=
  path == root

end AgentPath

/-- What is known of an agent, as far as the registry reads it.  An entry without a thread is a
path that is reserved. -/
structure AgentMetadata where
  agentId : Option ThreadId
  agentPath : Option String
  agentNickname : Option String
deriving DecidableEq

namespace AgentMetadata

def default : AgentMetadata :=
  ⟨none, none, none⟩

/-- Whether the metadata is that of the root agent. -/
def isRoot (self : AgentMetadata) : Bool :=
  self.agentPath.any AgentPath.isRoot

/-- Whether the metadata is that of a registered agent other than the root. -/
def isLive (self : AgentMetadata) : Bool :=
  self.agentId.isSome && !self.isRoot

/-- The key of an agent in the tree. -/
def key (self : AgentMetadata) (threadId : ThreadId) : String :=
  self.agentPath.getD ("thread:" ++ threadId.uuid)

end AgentMetadata

/-- What the mutex of the registry guards. -/
structure ActiveAgents where
  agentTree : AList fun _ : String ↦ AgentMetadata
  threadPaths : AList fun _ : ThreadId ↦ String
  usedAgentNicknames : Finset String
  nicknameResetCount : ℕ
deriving DecidableEq

/-- A nickname with the number of the round it is given out in. -/
def formatAgentNickname (name : String) (nicknameResetCount : ℕ) : String :=
  if nicknameResetCount = 0 then name
  else
    let value := nicknameResetCount + 1
    let suffix :=
      if 11 ≤ value % 100 ∧ value % 100 ≤ 13 then "th"
      else match value % 10 with
        | 1 => "st"
        | 2 => "nd"
        | 3 => "rd"
        | _ => "th"
    name ++ " the " ++ toString value ++ suffix

/-- The choice of the random number `pick`. -/
def choose (names : List String) (pick : ℕ) : Option String :=
  names[pick % names.length]?

namespace ActiveAgents

def default : ActiveAgents :=
  ⟨∅, ∅, ∅, 0⟩

def agentIdForPath (self : ActiveAgents) (agentPath : String) : Option ThreadId :=
  (self.agentTree.lookup agentPath).bind AgentMetadata.agentId

def liveAgents (self : ActiveAgents) : List AgentMetadata :=
  (self.agentTree.entries.map Sigma.snd).filter AgentMetadata.isLive

/-- Remove a thread, and say whether a counted agent went with it. -/
def releaseSpawnedThread (self : ActiveAgents) (threadId : ThreadId) : ActiveAgents × Bool :=
  match self.threadPaths.lookup threadId with
  | none => (self, false)
  | some path =>
    ({ self with
        threadPaths := self.threadPaths.erase threadId
        agentTree := self.agentTree.erase path },
      (self.agentTree.lookup path).any fun metadata ↦ !metadata.isRoot)

def registerRootThread (self : ActiveAgents) (threadId : ThreadId) : ActiveAgents :=
  let agentTree := match self.agentTree.lookup AgentPath.root with
    | some _ => self.agentTree
    | none => self.agentTree.insert AgentPath.root
      { AgentMetadata.default with agentId := threadId, agentPath := AgentPath.root }
  match (agentTree.lookup AgentPath.root).bind AgentMetadata.agentId with
  | some rootThreadId =>
    { self with
      agentTree := agentTree
      threadPaths := self.threadPaths.insert rootThreadId AgentPath.root }
  | none => { self with agentTree := agentTree }

/-- The nickname is noted as used, and what stood under the same thread or the same key is
replaced. -/
def registerSpawnedThread (self : ActiveAgents) (agentMetadata : AgentMetadata) : ActiveAgents :=
  match agentMetadata.agentId with
  | none => self
  | some threadId =>
    let key := agentMetadata.key threadId
    let usedAgentNicknames := agentMetadata.agentNickname.elim self.usedAgentNicknames
      fun nickname ↦ insert nickname self.usedAgentNicknames
    let agentTree := match self.threadPaths.lookup threadId with
      | some previous => if previous ≠ key then self.agentTree.erase previous else self.agentTree
      | none => self.agentTree
    let threadPaths := self.threadPaths.insert threadId key
    let threadPaths := match (agentTree.lookup key).bind AgentMetadata.agentId with
      | some previous => if previous ≠ threadId then threadPaths.erase previous else threadPaths
      | none => threadPaths
    { self with
      agentTree := agentTree.insert key agentMetadata
      threadPaths := threadPaths
      usedAgentNicknames := usedAgentNicknames }

def reserveAgentNickname (self : ActiveAgents) (names : List String) (preferred : Option String)
    (pick : ℕ) : ActiveAgents × Option String :=
  match preferred with
  | some nickname =>
    ({ self with usedAgentNicknames := insert nickname self.usedAgentNicknames }, some nickname)
  | none =>
    if names.isEmpty then (self, none)
    else
      let availableNames := (names.map (formatAgentNickname · self.nicknameResetCount)).filter
        fun name ↦ decide (name ∉ self.usedAgentNicknames)
      match choose availableNames pick with
      | some nickname =>
        ({ self with usedAgentNicknames := insert nickname self.usedAgentNicknames }, some nickname)
      | none =>
        -- The pool is used up, so a new round begins.
        let resetCount := self.nicknameResetCount + 1
        match choose names pick with
        | some name =>
          let nickname := formatAgentNickname name resetCount
          ({ self with usedAgentNicknames := {nickname}, nicknameResetCount := resetCount },
            some nickname)
        | none => ({ self with usedAgentNicknames := ∅, nicknameResetCount := resetCount }, none)

def reserveAgentPath (self : ActiveAgents) (agentPath : String) : Option ActiveAgents :=
  match self.agentTree.lookup agentPath with
  | some _ => none
  | none => some { self with
      agentTree := self.agentTree.insert agentPath
        { AgentMetadata.default with agentPath := agentPath } }

def releaseReservedAgentPath (self : ActiveAgents) (agentPath : String) : ActiveAgents :=
  if (self.agentTree.lookup agentPath).any fun metadata ↦ metadata.agentId.isNone then
    { self with agentTree := self.agentTree.erase agentPath }
  else self

end ActiveAgents

/-- A slot that is not committed yet, with the nickname and the path it holds. -/
structure SpawnReservation where
  active : Bool
  reservedAgentNickname : Option String
  reservedAgentPath : Option String
deriving DecidableEq

/-- A reservation in its loop, with the count it read last. -/
structure Attempt where
  current : ℕ
  maxThreads : ℕ
  count : ℕ
deriving DecidableEq

/-- A registry, the reservations that are alive, the reservations in their loops, and the number
of calls that have to lower the counter as their last action. -/
structure System where
  activeAgents : ActiveAgents
  totalCount : ℕ
  reservations : List SpawnReservation
  attempts : List Attempt
  owed : ℕ
deriving DecidableEq

/-- The atomic pieces of the calls.  Reservations and attempts are named by their position. -/
inductive Operation where
  | reserveSpawnSlots (maxThreads : Option ℕ) (count : ℕ)
  | compareExchange (attempt : ℕ) (spurious : Bool)
  | reserveAgentNickname (reservation : ℕ) (names : List String) (preferred : Option String)
      (pick : ℕ)
  | reserveAgentPath (reservation : ℕ) (agentPath : String)
  | commit (reservation : ℕ) (agentMetadata : AgentMetadata)
  | drop (reservation : ℕ)
  | releaseSpawnedThread (threadId : ThreadId)
  | registerRootThread (threadId : ThreadId)
  | fetchSub

namespace System

def start : System :=
  ⟨.default, 0, [], [], 0⟩

/-- The values a successful reservation returns. -/
def addReservations (self : System) (totalCount count : ℕ) : System :=
  { self with
    totalCount := totalCount
    reservations := List.replicate count ⟨true, none, none⟩ ++ self.reservations }

/-- Dropping a reservation gives its path back before its slot. -/
def dropReservation (self : System) (reservation : SpawnReservation) : System :=
  if reservation.active then
    { self with
      activeAgents := reservation.reservedAgentPath.elim self.activeAgents
        self.activeAgents.releaseReservedAgentPath
      owed := self.owed + 1 }
  else self

/-- One round of the loop of a reservation.  The exchange may fail for no reason. -/
def compareExchange (self : System) (attempt : ℕ) (spurious : Bool) (loop : Attempt) : System :=
  let next := loop.current + loop.count
  if next > loop.maxThreads then { self with attempts := self.attempts.eraseIdx attempt }
  else if self.totalCount = loop.current ∧ spurious = false then
    { self.addReservations next loop.count with attempts := self.attempts.eraseIdx attempt }
  else
    { self with attempts := self.attempts.set attempt { loop with current := self.totalCount } }

/-- Reserve a nickname.  Without one the call fails and the reservation stays as it is. -/
def reserveNickname (self : System) (reservation : ℕ) (names : List String)
    (preferred : Option String) (pick : ℕ) (value : SpawnReservation) : System :=
  let reserved := self.activeAgents.reserveAgentNickname names preferred pick
  { self with
    activeAgents := reserved.1
    reservations := self.reservations.set reservation
      { value with reservedAgentNickname := reserved.2.or value.reservedAgentNickname } }

/-- Reserve a path.  A path that exists is an error and changes nothing. -/
def reservePath (self : System) (reservation : ℕ) (agentPath : String)
    (value : SpawnReservation) : System :=
  match self.activeAgents.reserveAgentPath agentPath with
  | none => self
  | some activeAgents =>
    { self with
      activeAgents := activeAgents
      reservations :=
        self.reservations.set reservation { value with reservedAgentPath := some agentPath } }

/-- Register an agent under a reservation, which is dropped when the call returns and is not
active any more. -/
def commit (self : System) (reservation : ℕ) (agentMetadata : AgentMetadata)
    (value : SpawnReservation) : System :=
  dropReservation
    { self with
      activeAgents := self.activeAgents.registerSpawnedThread agentMetadata
      reservations := self.reservations.eraseIdx reservation }
    { value with active := false, reservedAgentNickname := none, reservedAgentPath := none }

/-- One atomic piece of a call, if the values it names are there. -/
def step (self : System) : Operation → Option System
  | .reserveSpawnSlots maxThreads count =>
    if count = 0 then some self
    else match maxThreads with
      | some maxThreads =>
        some { self with attempts := ⟨self.totalCount, maxThreads, count⟩ :: self.attempts }
      | none => some (self.addReservations (self.totalCount + count) count)
  | .compareExchange attempt spurious =>
    self.attempts[attempt]?.map (self.compareExchange attempt spurious)
  | .reserveAgentNickname reservation names preferred pick =>
    self.reservations[reservation]?.map (self.reserveNickname reservation names preferred pick)
  | .reserveAgentPath reservation agentPath =>
    self.reservations[reservation]?.map (self.reservePath reservation agentPath)
  | .commit reservation agentMetadata =>
    self.reservations[reservation]?.map (self.commit reservation agentMetadata)
  | .drop reservation =>
    self.reservations[reservation]?.map
      (dropReservation { self with reservations := self.reservations.eraseIdx reservation })
  | .releaseSpawnedThread threadId =>
    let released := self.activeAgents.releaseSpawnedThread threadId
    some { self with
      activeAgents := released.1
      owed := self.owed + released.2.toNat }
  | .registerRootThread threadId =>
    some { self with activeAgents := self.activeAgents.registerRootThread threadId }
  | .fetchSub =>
    if self.owed = 0 then none
    else some { self with totalCount := self.totalCount - 1, owed := self.owed - 1 }

end System

/-! ### The two maps -/

/-- The number of entries of a map that satisfy `p`, when one of them is taken out. -/
theorem countP_kerase {α β : Type*} [DecidableEq α] (p : β → Bool) (k : α)
    (entries : List (Σ _ : α, β)) :
    (entries.kerase k).countP (fun e ↦ p e.2) + ((entries.dlookup k).any p).toNat =
      entries.countP fun e ↦ p e.2 := by
  induction entries with
  | nil => rfl
  | cons e entries ih =>
    obtain ⟨k', v⟩ := e
    by_cases hk : k = k'
    · subst hk
      have herase : (⟨k, v⟩ :: entries).kerase k = entries := List.kerase_cons_eq rfl
      rw [herase, List.dlookup_cons_eq, List.countP_cons]
      cases hv : p v <;> simp [hv]
    · rw [List.kerase_cons_ne hk, List.dlookup_cons_ne _ _ hk, List.countP_cons, List.countP_cons]
      omega

namespace ActiveAgents

variable {self : ActiveAgents} {threadId : ThreadId} {agentPath : String}

/-- The thread index and the agent tree describe the same agents. -/
def Agree (self : ActiveAgents) : Prop :=
  ∀ threadId path, self.threadPaths.lookup threadId = some path ↔
    self.agentIdForPath path = some threadId

theorem length_liveAgents (self : ActiveAgents) :
    self.liveAgents.length = self.agentTree.entries.countP fun e ↦ e.2.isLive := by
  rw [liveAgents, ← List.countP_eq_length_filter, List.countP_map]
  rfl

theorem length_liveAgents_erase (self : ActiveAgents) (key : String) (threadPaths : AList fun _ : ThreadId ↦ String)
    (nicknames : Finset String) (resets : ℕ) :
    (⟨self.agentTree.erase key, threadPaths, nicknames, resets⟩ : ActiveAgents).liveAgents.length +
        ((self.agentTree.lookup key).any AgentMetadata.isLive).toNat =
      self.liveAgents.length := by
  rw [length_liveAgents, length_liveAgents]
  exact countP_kerase AgentMetadata.isLive key self.agentTree.entries

theorem length_liveAgents_insert (self : ActiveAgents) (key : String) (metadata : AgentMetadata)
    (threadPaths : AList fun _ : ThreadId ↦ String) (nicknames : Finset String) (resets : ℕ) :
    (⟨self.agentTree.insert key metadata, threadPaths, nicknames, resets⟩ :
          ActiveAgents).liveAgents.length +
        ((self.agentTree.lookup key).any AgentMetadata.isLive).toNat =
      self.liveAgents.length + metadata.isLive.toNat := by
  have hrest := countP_kerase AgentMetadata.isLive key self.agentTree.entries
  have hentry : metadata.isLive.toNat = if metadata.isLive then 1 else 0 := by
    cases metadata.isLive <;> rfl
  rw [length_liveAgents, length_liveAgents, ← hrest, AList.entries_insert, List.countP_cons, hentry]
  exact Nat.add_right_comm _ _ _

/-- An entry without a thread is not counted. -/
theorem any_isLive_of_agentIdForPath (h : self.agentIdForPath agentPath = none) :
    (self.agentTree.lookup agentPath).any AgentMetadata.isLive = false := by
  unfold agentIdForPath at h
  cases hlookup : self.agentTree.lookup agentPath with
  | none => rfl
  | some metadata =>
    rw [hlookup] at h
    simp only [Option.bind_some] at h
    simp [AgentMetadata.isLive, h]

/-- A registered thread has one entry, which is taken out of both maps. -/
theorem Agree.releaseSpawnedThread (h : self.Agree) (threadId : ThreadId) :
    (self.releaseSpawnedThread threadId).1.Agree ∧
      (self.releaseSpawnedThread threadId).1.liveAgents.length +
        (self.releaseSpawnedThread threadId).2.toNat = self.liveAgents.length := by
  unfold ActiveAgents.releaseSpawnedThread
  cases hindex : self.threadPaths.lookup threadId with
  | none => exact ⟨h, Nat.add_zero _⟩
  | some path =>
    have hid : (self.agentTree.lookup path).bind AgentMetadata.agentId = some threadId :=
      (h threadId path).mp hindex
    obtain ⟨metadata, hmetadata, hthread⟩ := Option.bind_eq_some_iff.mp hid
    constructor
    · intro other path'
      by_cases hother : other = threadId
      · subst hother
        dsimp only [agentIdForPath]
        rw [AList.lookup_erase]
        by_cases hpath : path' = path
        · rw [hpath, AList.lookup_erase]
          exact iff_of_false (by simp) (by simp)
        · rw [AList.lookup_erase_ne hpath]
          refine iff_of_false (by simp) fun hid' ↦ hpath ?_
          exact Option.some.inj (((h other path').mpr hid').symm.trans hindex)
      · dsimp only [agentIdForPath]
        rw [AList.lookup_erase_ne hother]
        by_cases hpath : path' = path
        · subst hpath
          rw [AList.lookup_erase]
          refine iff_of_false (fun hindex' ↦ hother ?_) (by simp)
          exact Option.some.inj (((h other path').mp hindex').symm.trans hid)
        · rw [AList.lookup_erase_ne hpath]
          exact h other path'
    · have hcount := length_liveAgents_erase self path
        (self.threadPaths.erase threadId) self.usedAgentNicknames self.nicknameResetCount
      dsimp only
      rw [hmetadata] at hcount ⊢
      simpa [AgentMetadata.isLive, hthread] using hcount

/-- Changes of the tree that leave the threads of all paths alone. -/
theorem Agree.of_agentIdForPath {other : ActiveAgents} (h : self.Agree)
    (hthreads : other.threadPaths = self.threadPaths)
    (hids : ∀ path, other.agentIdForPath path = self.agentIdForPath path) : other.Agree := by
  intro threadId path
  rw [hthreads, hids]
  exact h threadId path

theorem reserveAgentPath_eq_some {next : ActiveAgents}
    (h : self.reserveAgentPath agentPath = some next) (hagree : self.Agree) :
    next.Agree ∧ next.liveAgents.length = self.liveAgents.length := by
  unfold ActiveAgents.reserveAgentPath at h
  cases hlookup : self.agentTree.lookup agentPath with
  | some metadata => simp [hlookup] at h
  | none =>
    rw [hlookup] at h
    obtain rfl := Option.some.inj h
    constructor
    · refine hagree.of_agentIdForPath rfl fun path ↦ ?_
      unfold agentIdForPath
      by_cases hpath : path = agentPath
      · rw [hpath, AList.lookup_insert, hlookup]
        rfl
      · rw [AList.lookup_insert_ne hpath]
    · have hcount := length_liveAgents_insert self agentPath
        { AgentMetadata.default with agentPath := agentPath } self.threadPaths
        self.usedAgentNicknames self.nicknameResetCount
      rw [hlookup] at hcount
      exact hcount

theorem Agree.releaseReservedAgentPath (h : self.Agree) (agentPath : String) :
    (self.releaseReservedAgentPath agentPath).Agree ∧
      (self.releaseReservedAgentPath agentPath).liveAgents.length = self.liveAgents.length := by
  unfold ActiveAgents.releaseReservedAgentPath
  split_ifs with hreserved
  · have hid : self.agentIdForPath agentPath = none := by
      unfold agentIdForPath
      cases hlookup : self.agentTree.lookup agentPath with
      | none => rfl
      | some metadata =>
        rw [hlookup] at hreserved
        exact Option.isNone_iff_eq_none.mp hreserved
    constructor
    · refine h.of_agentIdForPath rfl fun path ↦ ?_
      by_cases hpath : path = agentPath
      · rw [hpath, hid, agentIdForPath, AList.lookup_erase]
        rfl
      · unfold agentIdForPath
        rw [AList.lookup_erase_ne hpath]
    · have hcount := length_liveAgents_erase self agentPath self.threadPaths
        self.usedAgentNicknames self.nicknameResetCount
      rw [any_isLive_of_agentIdForPath hid] at hcount
      exact hcount
  · exact ⟨h, rfl⟩

/-- A thread that is not indexed is registered under a key that has no thread. -/
theorem Agree.insert (h : self.Agree) {metadata : AgentMetadata} {key : String}
    (hthread : self.threadPaths.lookup threadId = none) (hkey : self.agentIdForPath key = none)
    (hid : metadata.agentId = some threadId) (nicknames : Finset String) (resets : ℕ) :
    (⟨self.agentTree.insert key metadata, self.threadPaths.insert threadId key, nicknames, resets⟩ :
      ActiveAgents).Agree := by
  intro other path
  unfold agentIdForPath
  dsimp only
  by_cases hother : other = threadId
  · subst hother
    rw [AList.lookup_insert]
    by_cases hpath : path = key
    · rw [hpath, AList.lookup_insert, Option.bind_some, hid]
      exact iff_of_true rfl rfl
    · rw [AList.lookup_insert_ne hpath]
      refine iff_of_false (fun heq ↦ hpath (Option.some.inj heq).symm) fun hid' ↦ ?_
      have hindex := (h other path).mpr hid'
      rw [hthread] at hindex
      cases hindex
  · rw [AList.lookup_insert_ne hother]
    by_cases hpath : path = key
    · subst hpath
      rw [AList.lookup_insert, Option.bind_some, hid]
      refine iff_of_false (fun hindex ↦ ?_) fun heq ↦ hother (Option.some.inj heq).symm
      have hid' := (h other path).mp hindex
      rw [hkey] at hid'
      cases hid'
    · rw [AList.lookup_insert_ne hpath]
      exact h other path

/-- Registering a root thread, when it is not the thread of another agent. -/
theorem Agree.registerRootThread (h : self.Agree)
    (hnew : self.agentTree.lookup AgentPath.root = none →
      self.threadPaths.lookup threadId = none) :
    (self.registerRootThread threadId).Agree ∧
      (self.registerRootThread threadId).liveAgents.length = self.liveAgents.length := by
  unfold ActiveAgents.registerRootThread
  cases hlookup : self.agentTree.lookup AgentPath.root with
  | some metadata =>
    dsimp only
    rw [hlookup, Option.bind_some]
    cases hid : metadata.agentId with
    | none => exact ⟨h, rfl⟩
    | some rootThreadId =>
      -- The root is registered under its thread already.
      have hindex : self.threadPaths.lookup rootThreadId = some AgentPath.root := by
        rw [h, agentIdForPath, hlookup, Option.bind_some, hid]
      refine ⟨fun other path ↦ ?_, rfl⟩
      by_cases hother : other = rootThreadId
      · subst hother
        rw [AList.lookup_insert, ← hindex]
        exact h other path
      · rw [AList.lookup_insert_ne hother]
        exact h other path
  | none =>
    dsimp only
    rw [AList.lookup_insert, Option.bind_some]
    have hkey : self.agentIdForPath AgentPath.root = none := by
      rw [agentIdForPath, hlookup]
      rfl
    have hcount := length_liveAgents_insert self AgentPath.root
      ⟨threadId, AgentPath.root, none⟩ (self.threadPaths.insert threadId AgentPath.root)
      self.usedAgentNicknames self.nicknameResetCount
    rw [hlookup] at hcount
    exact ⟨h.insert (hnew hlookup) hkey rfl _ _, hcount⟩

/-- Registering a thread that is not indexed under a key that has no thread. -/
theorem Agree.registerSpawnedThread (h : self.Agree) {metadata : AgentMetadata}
    (hid : metadata.agentId = some threadId) (hroot : metadata.isRoot = false)
    (hthread : self.threadPaths.lookup threadId = none)
    (hkey : self.agentIdForPath (metadata.key threadId) = none) :
    (self.registerSpawnedThread metadata).Agree ∧
      (self.registerSpawnedThread metadata).liveAgents.length = self.liveAgents.length + 1 := by
  have hvacant : (self.agentTree.lookup (metadata.key threadId)).bind AgentMetadata.agentId = none :=
    hkey
  have hlive : metadata.isLive.toNat = 1 := by
    rw [AgentMetadata.isLive, hid, hroot]
    rfl
  unfold ActiveAgents.registerSpawnedThread
  simp only [hid, hthread, hvacant]
  refine ⟨h.insert hthread hkey hid _ _, ?_⟩
  have hcount := length_liveAgents_insert self (metadata.key threadId) metadata
    (self.threadPaths.insert threadId (metadata.key threadId))
    (metadata.agentNickname.elim self.usedAgentNicknames
      fun nickname ↦ Insert.insert nickname self.usedAgentNicknames) self.nicknameResetCount
  rw [any_isLive_of_agentIdForPath hkey, hlive] at hcount
  exact hcount

/-- Nicknames do not touch the maps. -/
theorem reserveAgentNickname_maps (self : ActiveAgents) (names : List String)
    (preferred : Option String) (pick : ℕ) :
    (self.reserveAgentNickname names preferred pick).1.agentTree = self.agentTree ∧
      (self.reserveAgentNickname names preferred pick).1.threadPaths = self.threadPaths := by
  unfold reserveAgentNickname
  cases preferred with
  | some nickname => exact ⟨rfl, rfl⟩
  | none =>
    dsimp only
    split_ifs
    · exact ⟨rfl, rfl⟩
    · split
      · exact ⟨rfl, rfl⟩
      · split <;> exact ⟨rfl, rfl⟩

end ActiveAgents

/-! ### Runs -/

namespace System

variable {self next : System} {op : Operation}

/-- The systems reached by operations that are `allowed` where they happen. -/
inductive Reachable (allowed : System → Operation → Prop) : System → Prop
  | start : Reachable allowed start
  | step {self next : System} (h : Reachable allowed self) (op : Operation)
      (hallowed : allowed self op) (hstep : self.step op = some next) : Reachable allowed next

/-- A commit names its thread. -/
def CommitsThread : Operation → Prop
  | .commit _ agentMetadata => agentMetadata.agentId.isSome
  | _ => True

/-- A limit that every reservation is given. -/
def Limited (limit : Option ℕ) : Operation → Prop
  | .reserveSpawnSlots maxThreads _ => limit.isSome → maxThreads = limit
  | _ => True

/-- What is registered gets in the way of the operation: a commit is for the root, for a thread
that is indexed or for a key that has a thread, or a first root takes a thread that is indexed. -/
def Replaces (self : System) : Operation → Prop
  | .commit _ agentMetadata =>
    agentMetadata.isRoot = true ∨
      ∃ threadId, agentMetadata.agentId = some threadId ∧
        (self.activeAgents.threadPaths.lookup threadId ≠ none ∨
          self.activeAgents.agentIdForPath (agentMetadata.key threadId) ≠ none)
  | .registerRootThread threadId =>
    self.activeAgents.agentTree.lookup AgentPath.root = none ∧
      self.activeAgents.threadPaths.lookup threadId ≠ none
  | _ => False

/-- Every slot belongs to a reservation, to an agent or to a call that has to give it back. -/
structure Conserved (limit : Option ℕ) (system : System) : Prop where
  agree : system.activeAgents.Agree
  count : system.totalCount =
    system.reservations.length + system.activeAgents.liveAgents.length + system.owed
  active : ∀ reservation ∈ system.reservations, reservation.active = true
  attempts : ∀ loop ∈ system.attempts, limit.isSome → limit = some loop.maxThreads
  limited : ∀ maxThreads, limit = some maxThreads → system.totalCount ≤ maxThreads

variable {limit : Option ℕ}

theorem Conserved.start : Conserved limit start where
  agree _ _ := iff_of_false (by simp [System.start, ActiveAgents.default])
    (by simp [System.start, ActiveAgents.default, ActiveAgents.agentIdForPath])
  count := rfl
  active _ h := absurd h List.not_mem_nil
  attempts _ h := absurd h List.not_mem_nil
  limited _ _ := Nat.zero_le _

/-- New reservations take as many slots as they are. -/
theorem Conserved.addReservations (h : Conserved limit self) {totalCount count : ℕ}
    (htotal : totalCount = self.totalCount + count)
    (hlimited : ∀ maxThreads, limit = some maxThreads → totalCount ≤ maxThreads) :
    Conserved limit (self.addReservations totalCount count) := by
  refine ⟨h.agree, ?_, ?_, h.attempts, hlimited⟩
  · have hcount := h.count
    simp only [System.addReservations, List.length_append, List.length_replicate]
    omega
  · intro reservation hmem
    rcases List.mem_append.mp hmem with hnew | hold
    · rw [List.eq_of_mem_replicate hnew]
    · exact h.active reservation hold

/-- Attempts may end at any time. -/
theorem Conserved.eraseAttempt (h : Conserved limit self) (attempt : ℕ) :
    Conserved limit { self with attempts := self.attempts.eraseIdx attempt } :=
  ⟨h.agree, h.count, h.active,
    fun other hmem ↦ h.attempts other (List.mem_of_mem_eraseIdx hmem), h.limited⟩

theorem Conserved.reserveSpawnSlots (h : Conserved limit self) {maxThreads : Option ℕ} {count : ℕ}
    (hlimited : limit.isSome → maxThreads = limit)
    (hstep : self.step (.reserveSpawnSlots maxThreads count) = some next) :
    Conserved limit next := by
  unfold System.step at hstep
  dsimp only at hstep
  split_ifs at hstep with hzero
  · obtain rfl := Option.some.inj hstep
    exact h
  · cases maxThreads with
    | none =>
      obtain rfl := Option.some.inj hstep
      have hlimit : limit = none := by
        cases limit with
        | none => rfl
        | some maxThreads => cases hlimited rfl
      apply h.addReservations rfl
      intro maxThreads hsome
      rw [hlimit] at hsome
      cases hsome
    | some maxThreads =>
      obtain rfl := Option.some.inj hstep
      refine ⟨h.agree, h.count, h.active, fun loop hmem hsome ↦ ?_, h.limited⟩
      rcases List.mem_cons.mp hmem with rfl | hold
      · exact (hlimited hsome).symm
      · exact h.attempts loop hold hsome

/-- The exchange succeeds only on the count that was compared with the limit. -/
theorem Conserved.compareExchange (h : Conserved limit self) {attempt : ℕ} {loop : Attempt}
    (hloop : self.attempts[attempt]? = some loop) (spurious : Bool) :
    Conserved limit (self.compareExchange attempt spurious loop) := by
  have hlimit := h.attempts loop (List.mem_of_getElem? hloop)
  unfold System.compareExchange
  dsimp only
  split_ifs with hexceeds hexchange
  · exact h.eraseAttempt attempt
  · apply Conserved.eraseAttempt
    apply h.addReservations
    · rw [hexchange.1]
    · intro maxThreads hsome
      obtain rfl := Option.some.inj (hsome.symm.trans (hlimit (by rw [hsome]; rfl)))
      exact Nat.le_of_not_lt hexceeds
  · refine ⟨h.agree, h.count, h.active, fun other hmem ↦ ?_, h.limited⟩
    rcases List.mem_or_eq_of_mem_set hmem with hold | rfl
    · exact h.attempts other hold
    · exact hlimit

/-- A change of one reservation that keeps it active, with maps that describe the same agents. -/
theorem Conserved.setReservation (h : Conserved limit self) {activeAgents : ActiveAgents}
    (hagree : activeAgents.Agree)
    (hlive : activeAgents.liveAgents.length = self.activeAgents.liveAgents.length)
    {reservation : ℕ} {value : SpawnReservation} (hvalue : value.active = true) :
    Conserved limit { self with
      activeAgents := activeAgents
      reservations := self.reservations.set reservation value } := by
  refine ⟨hagree, ?_, fun other hmem ↦ ?_, h.attempts, h.limited⟩
  · rw [List.length_set, hlive]
    exact h.count
  · rcases List.mem_or_eq_of_mem_set hmem with hold | rfl
    · exact h.active other hold
    · exact hvalue

theorem Conserved.reserveNickname (h : Conserved limit self) {reservation : ℕ}
    {value : SpawnReservation} (hvalue : self.reservations[reservation]? = some value)
    (names : List String) (preferred : Option String) (pick : ℕ) :
    Conserved limit (self.reserveNickname reservation names preferred pick value) := by
  obtain ⟨htree, hindex⟩ :=
    self.activeAgents.reserveAgentNickname_maps names preferred pick
  apply h.setReservation
  · refine h.agree.of_agentIdForPath hindex fun path ↦ ?_
    rw [ActiveAgents.agentIdForPath, htree]
    rfl
  · rw [ActiveAgents.liveAgents, htree]
    rfl
  · exact h.active value (List.mem_of_getElem? hvalue)

theorem Conserved.reservePath (h : Conserved limit self) {reservation : ℕ}
    {value : SpawnReservation} (hvalue : self.reservations[reservation]? = some value)
    (agentPath : String) : Conserved limit (self.reservePath reservation agentPath value) := by
  unfold System.reservePath
  split
  · exact h
  · rename_i activeAgents hreserve
    obtain ⟨hagree, hlive⟩ := ActiveAgents.reserveAgentPath_eq_some hreserve h.agree
    exact h.setReservation hagree hlive (h.active value (List.mem_of_getElem? hvalue))

/-- A reservation that goes away leaves the others active. -/
theorem length_eraseIdx_of_getElem? {α : Type*} {l : List α} {i : ℕ} {a : α} (h : l[i]? = some a) :
    (l.eraseIdx i).length + 1 = l.length := by
  obtain ⟨hi, -⟩ := List.getElem?_eq_some_iff.mp h
  rw [List.length_eraseIdx_of_lt hi]
  omega

theorem Conserved.commit (h : Conserved limit self) {reservation : ℕ} {value : SpawnReservation}
    (hvalue : self.reservations[reservation]? = some value) {agentMetadata : AgentMetadata}
    (hthread : agentMetadata.agentId.isSome)
    (hnew : ¬self.Replaces (.commit reservation agentMetadata)) :
    Conserved limit (self.commit reservation agentMetadata value) := by
  obtain ⟨threadId, hid⟩ := Option.isSome_iff_exists.mp hthread
  have hparts : agentMetadata.isRoot = false ∧
      self.activeAgents.threadPaths.lookup threadId = none ∧
      self.activeAgents.agentIdForPath (agentMetadata.key threadId) = none := by
    simp only [Replaces, not_or, not_exists, not_and, not_not, Bool.not_eq_true] at hnew
    exact ⟨hnew.1, hnew.2 threadId hid⟩
  obtain ⟨hroot, hindex, hkey⟩ := hparts
  obtain ⟨hagree, hlive⟩ := h.agree.registerSpawnedThread hid hroot hindex hkey
  have hlength := length_eraseIdx_of_getElem? hvalue
  have hcount := h.count
  refine ⟨hagree, ?_, fun other hmem ↦ h.active other (List.mem_of_mem_eraseIdx hmem), h.attempts,
    h.limited⟩
  change self.totalCount = (self.reservations.eraseIdx reservation).length +
    (self.activeAgents.registerSpawnedThread agentMetadata).liveAgents.length + self.owed
  omega

theorem Conserved.dropReservation (h : Conserved limit self) {reservation : ℕ}
    {value : SpawnReservation} (hvalue : self.reservations[reservation]? = some value) :
    Conserved limit (dropReservation
      { self with reservations := self.reservations.eraseIdx reservation } value) := by
  have hlength := length_eraseIdx_of_getElem? hvalue
  have hcount := h.count
  have hmaps : (value.reservedAgentPath.elim self.activeAgents
        self.activeAgents.releaseReservedAgentPath).Agree ∧
      (value.reservedAgentPath.elim self.activeAgents
        self.activeAgents.releaseReservedAgentPath).liveAgents.length =
          self.activeAgents.liveAgents.length := by
    cases value.reservedAgentPath with
    | none => exact ⟨h.agree, rfl⟩
    | some agentPath => exact h.agree.releaseReservedAgentPath agentPath
  unfold System.dropReservation
  rw [if_pos (h.active value (List.mem_of_getElem? hvalue))]
  refine ⟨hmaps.1, ?_, fun other hmem ↦ h.active other (List.mem_of_mem_eraseIdx hmem), h.attempts,
    h.limited⟩
  change self.totalCount = (self.reservations.eraseIdx reservation).length +
    (value.reservedAgentPath.elim self.activeAgents
      self.activeAgents.releaseReservedAgentPath).liveAgents.length + (self.owed + 1)
  omega

theorem Conserved.step (h : Conserved limit self) (hthread : CommitsThread op)
    (hlimited : Limited limit op) (hnew : ¬self.Replaces op) (hstep : self.step op = some next) :
    Conserved limit next := by
  cases op with
  | reserveSpawnSlots maxThreads count => exact h.reserveSpawnSlots hlimited hstep
  | compareExchange attempt spurious =>
    obtain ⟨loop, hloop, rfl⟩ := Option.map_eq_some_iff.mp hstep
    exact h.compareExchange hloop spurious
  | reserveAgentNickname reservation names preferred pick =>
    obtain ⟨value, hvalue, rfl⟩ := Option.map_eq_some_iff.mp hstep
    exact h.reserveNickname hvalue names preferred pick
  | reserveAgentPath reservation agentPath =>
    obtain ⟨value, hvalue, rfl⟩ := Option.map_eq_some_iff.mp hstep
    exact h.reservePath hvalue agentPath
  | commit reservation agentMetadata =>
    obtain ⟨value, hvalue, rfl⟩ := Option.map_eq_some_iff.mp hstep
    exact h.commit hvalue hthread hnew
  | drop reservation =>
    obtain ⟨value, hvalue, rfl⟩ := Option.map_eq_some_iff.mp hstep
    exact h.dropReservation hvalue
  | releaseSpawnedThread threadId =>
    obtain rfl := Option.some.inj hstep
    obtain ⟨hagree, hlive⟩ := h.agree.releaseSpawnedThread threadId
    have hcount := h.count
    refine ⟨hagree, ?_, h.active, h.attempts, h.limited⟩
    dsimp only
    omega
  | registerRootThread threadId =>
    obtain rfl := Option.some.inj hstep
    have hindex : self.activeAgents.agentTree.lookup AgentPath.root = none →
        self.activeAgents.threadPaths.lookup threadId = none := by
      intro hvacant
      by_contra hindexed
      exact hnew ⟨hvacant, hindexed⟩
    obtain ⟨hagree, hlive⟩ := h.agree.registerRootThread hindex
    refine ⟨hagree, ?_, h.active, h.attempts, h.limited⟩
    dsimp only
    rw [hlive]
    exact h.count
  | fetchSub =>
    have hcount := h.count
    unfold System.step at hstep
    dsimp only at hstep
    split_ifs at hstep with howed
    obtain rfl := Option.some.inj hstep
    refine ⟨h.agree, ?_, h.active, h.attempts, fun maxThreads hsome ↦ ?_⟩
    · dsimp only
      omega
    · exact (Nat.sub_le _ _).trans (h.limited maxThreads hsome)

/-- In a run that replaces nothing registered, every slot belongs to a live reservation, to a
registered agent or to a call that is about to give it back; the maps describe the same agents;
and a limit given to every reservation is kept. -/
theorem Reachable.slots
    (h : Reachable (fun self op ↦ CommitsThread op ∧ Limited limit op ∧ ¬self.Replaces op) self) :
    self.totalCount =
        self.reservations.length + self.activeAgents.liveAgents.length + self.owed ∧
      (∀ threadId path, self.activeAgents.threadPaths.lookup threadId = some path ↔
        self.activeAgents.agentIdForPath path = some threadId) ∧
      ∀ maxThreads, limit = some maxThreads → self.totalCount ≤ maxThreads := by
  have hconserved : Conserved limit self := by
    induction h with
    | start => exact Conserved.start
    | step _ _ hallowed hstep ih => exact ih.step hallowed.1 hallowed.2.1 hallowed.2.2 hstep
  exact ⟨hconserved.count, hconserved.agree, hconserved.limited⟩

/-- A slot is reserved under a limit of one and committed, and its agent is released. -/
theorem slot_released :
    ∃ self : System,
      Reachable (fun self op ↦ CommitsThread op ∧ Limited (some 1) op ∧ ¬self.Replaces op) self ∧
        self.owed = 1 ∧ self.activeAgents.liveAgents = [] ∧ self.totalCount ≤ 1 := by
  have hstarted : Reachable
      (fun self op ↦ CommitsThread op ∧ Limited (some 1) op ∧ ¬self.Replaces op)
      { start with attempts := [⟨0, 1, 1⟩] } :=
    .step .start (.reserveSpawnSlots (some 1) 1) ⟨trivial, fun _ ↦ rfl, not_false⟩ rfl
  have hreserved := Reachable.step hstarted (.compareExchange 0 false)
    ⟨trivial, trivial, not_false⟩ rfl
  have hcommitted := Reachable.step hreserved (.commit 0 ⟨some ⟨"t"⟩, some "/root/a", none⟩)
    ⟨rfl, trivial, by
      rintro (hroot | ⟨threadId, hid, hindexed | hkey⟩)
      · exact absurd hroot (by decide)
      · exact hindexed rfl
      · cases hid
        exact hkey rfl⟩ rfl
  have hreleased := Reachable.step hcommitted (.releaseSpawnedThread ⟨"t"⟩)
    ⟨trivial, trivial, not_false⟩ rfl
  exact ⟨_, hreleased, by decide, by decide, (Reachable.slots hreleased).2.2 1 rfl⟩

/-- One thread is registered under two paths.  Two slots are counted for the one agent that is
left. -/
theorem second_registration_keeps_slot :
    ∃ self : System,
      Reachable (fun _ op ↦ CommitsThread op) self ∧ self.reservations = [] ∧ self.owed = 0 ∧
        self.attempts = [] ∧ self.activeAgents.liveAgents.length = 1 ∧ self.totalCount = 2 := by
  have hreserved : Reachable (fun _ op ↦ CommitsThread op) (start.addReservations 2 2) :=
    .step .start (.reserveSpawnSlots none 2) trivial rfl
  have hfirst := Reachable.step hreserved (.commit 0 ⟨some ⟨"t"⟩, some "/root/a", none⟩)
    (show CommitsThread _ from rfl) rfl
  have hsecond := Reachable.step hfirst (.commit 0 ⟨some ⟨"t"⟩, some "/root/b", none⟩)
    (show CommitsThread _ from rfl) rfl
  exact ⟨_, hsecond, by decide, by decide, by decide, by decide, by decide⟩

end System

end Agents

end SpineCodex
