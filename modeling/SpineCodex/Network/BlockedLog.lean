import SpineCodex.Lib.LastItems
import SpineCodex.Network.HostCheck

/-!
# The log of blocked requests

A proxy state buffers the requests it blocked and counts them.  The buffer and the count stand in
the same value as the configuration, behind one lock, and every operation that changes the
configuration replaces that value whole: what becomes of the log depends on when the operation
copied it.  A reload copies under the lock it writes with.  An edit of the domain lists copies
under a read lock, validates and compiles without a lock, and writes later, after a comparison of
the configuration, the constraints and the platform, but not of the log.

A run is a list of critical sections in the order the lock grants them.  Edits that are under way
are the tasks of the system.  Compiling a configuration (pattern sets, hooks, certificates) is a
parameter that may fail.
-/

namespace SpineCodex

open LastItems

/-- The configuration with the question of local binding answered. -/
def LocalBindingPolicy.resolvedConfig {Hook : Type} (policy : LocalBindingPolicy)
    (config : NetworkProxyConfig Hook) : NetworkProxyConfig Hook :=
  { config with allowLocalBinding := some (policy.resolve config) }

def NetworkProxyConfig.upsertDomainPermission {Hook : Type} (config : NetworkProxyConfig Hook)
    (host : List Char) (permission : NetworkDomainPermission) : NetworkProxyConfig Hook :=
  let kept := (config.domains.getD ⟨[]⟩).entries.filter fun entry =>
    normalizeHost entry.pattern != normalizeHost host
  -- the list is never empty, since the host was just added to it
  { config with domains := some ⟨kept ++ [⟨host, permission⟩]⟩ }

inductive DomainListKind where
  | allow
  | deny
deriving DecidableEq

namespace DomainListKind

def listName : DomainListKind → String
  | allow => "allowlist"
  | deny => "denylist"

def constraintField : DomainListKind → String
  | allow => "network.allowed_domains"
  | deny => "network.denied_domains"

def permission : DomainListKind → NetworkDomainPermission
  | allow => .allow
  | deny => .deny

variable {Hook : Type}

def entries (target : DomainListKind) (network : NetworkProxyConfig Hook) : List (List Char) :=
  (match target with
    | allow => network.allowedDomains
    | deny => network.deniedDomains).getD []

def oppositeEntries (target : DomainListKind) (network : NetworkProxyConfig Hook) :
    List (List Char) :=
  (match target with
    | allow => network.deniedDomains
    | deny => network.allowedDomains).getD []

end DomainListKind

namespace BlockedLog

/-! ## The guarded value -/

def maxBlockedEvents : ℕ := 200

/-- The largest count of a counter of 64 bits. -/
def maxTotal : ℕ := 2 ^ 64 - 1

/-- What the lock of a proxy guards, without the compiled sets. -/
structure ConfigState (Hook Platform Entry : Type) where
  executorOs : Platform
  config : NetworkProxyConfig Hook
  constraints : NetworkProxyConstraints
  blocked : List Entry
  blockedTotal : ℕ

/-- The oldest entries leave while there are too many. -/
def popOldest {Entry : Type} : List Entry → List Entry
  | [] => []
  | entry :: rest =>
    if (entry :: rest).length > maxBlockedEvents then popOldest rest else entry :: rest

theorem popOldest_eq_rtake {Entry : Type} (blocked : List Entry) :
    popOldest blocked = blocked.rtake maxBlockedEvents := by
  induction blocked with
  | nil => simp [popOldest]
  | cons entry rest ih =>
    rw [popOldest]
    split_ifs with h
    · have hlong : maxBlockedEvents ≤ rest.length := Nat.lt_succ_iff.mp h
      rw [ih]
      exact (@rtake_append_of_le _ [entry] rest _ hlong).symm
    · exact (rtake_of_length_le (not_lt.mp h)).symm

namespace ConfigState

variable {Hook Platform Entry : Type}

/-- A state as it is built, before anything was blocked. -/
def fresh (executorOs : Platform) (config : NetworkProxyConfig Hook)
    (constraints : NetworkProxyConstraints) : ConfigState Hook Platform Entry :=
  ⟨executorOs, config, constraints, [], 0⟩

def recordBlocked (guard : ConfigState Hook Platform Entry) (entry : Entry) :
    ConfigState Hook Platform Entry :=
  { guard with
    blocked := popOldest (guard.blocked ++ [entry])
    blockedTotal := min (guard.blockedTotal + 1) maxTotal }

/-- The write of a reload and of a replaced configuration. -/
def replaceConfigState (guard newState : ConfigState Hook Platform Entry) :
    ConfigState Hook Platform Entry :=
  { newState with blocked := guard.blocked, blockedTotal := guard.blockedTotal }

/-- A forced reload takes the buffer over and leaves the count of the loaded state. -/
def forceReload (guard newState : ConfigState Hook Platform Entry) :
    ConfigState Hook Platform Entry :=
  { newState with blocked := guard.blocked }

/-- Two states hold the same log. -/
def SameLog (left right : ConfigState Hook Platform Entry) : Prop :=
  left.blocked = right.blocked ∧ left.blockedTotal = right.blockedTotal

/-- What an edit of the domain lists compares before it writes. -/
def SamePolicy (left right : ConfigState Hook Platform Entry) : Prop :=
  left.constraints = right.constraints ∧ left.config = right.config ∧
    left.executorOs = right.executorOs

instance [DecidableEq Hook] [DecidableEq Platform] (left right : ConfigState Hook Platform Entry) :
    Decidable (left.SamePolicy right) :=
  inferInstanceAs (Decidable (_ ∧ _ ∧ _))

end ConfigState

/-! ## Edits in two sections -/

/-- What the checks of an edit depend on beside the guarded value. -/
structure Rules (Hook Platform : Type) where
  /-- The host rules of the `url` crate. -/
  urlHost : List Char → Option (List Char)
  validateMitmHook : Hook → Except (List Char) Unit
  localBindingPolicy : LocalBindingPolicy
  /-- The configuration of the compiled state, if it compiles. -/
  buildConfigState : NetworkProxyConfig Hook → NetworkProxyConstraints → Platform →
    Option (NetworkProxyConfig Hook)

inductive EditError where
  | invalidHost
  | constrained (field : String) (error : NetworkProxyConstraintError)
  | notCompiled (listName : String)

/-- An edit between two of its critical sections. -/
inductive Task (Hook Platform Entry : Type) where
  /-- Before the read of a round. -/
  | updateDomainList (host : List Char) (target : DomainListKind)
  /-- Before the write, with the value that was read and the configuration compiled from it. -/
  | installDomainList (host : List Char) (target : DomainListKind)
      (read : ConfigState Hook Platform Entry) (config : NetworkProxyConfig Hook)
  | setNetworkMode (mode : NetworkMode)
  | installNetworkMode (mode : NetworkMode) (constraints : NetworkProxyConstraints)
  | returned (result : Except EditError Unit)

section Sections

variable {Hook Platform Entry : Type} (rules : Rules Hook Platform)

def validateResolved (candidate : NetworkProxyConfig Hook) (constraints : NetworkProxyConstraints) :
    Except NetworkProxyConstraintError Unit :=
  validatePolicyAgainstConstraints rules.urlHost rules.validateMitmHook
    (rules.localBindingPolicy.resolvedConfig candidate) constraints

/-- A request to add a host, as it enters its loop. -/
def beginUpdate (input : List Char) (target : DomainListKind) : Task Hook Platform Entry :=
  let host := normalizeHost input
  if host.isEmpty then .returned (.error .invalidHost) else .updateDomainList host target

/-- The read of a round with what is computed from it before the lock is taken again. -/
def readDomainList (guard : ConfigState Hook Platform Entry) (host : List Char)
    (target : DomainListKind) : Task Hook Platform Entry :=
  let targetContains := (target.entries guard.config).any (normalizeHost · == host)
  let oppositeContains := (target.oppositeEntries guard.config).any (normalizeHost · == host)
  if targetContains && !oppositeContains then .returned (.ok ())
  else
    let candidate := guard.config.upsertDomainPermission host target.permission
    match validateResolved rules candidate guard.constraints with
    | .error error => .returned (.error (.constrained target.constraintField error))
    | .ok _ =>
      match rules.buildConfigState candidate guard.constraints guard.executorOs with
      | none => .returned (.error (.notCompiled target.listName))
      | some config => .installDomainList host target guard config

def readNetworkMode (guard : ConfigState Hook Platform Entry) (mode : NetworkMode) :
    Task Hook Platform Entry :=
  match validateResolved rules { guard.config with mode } guard.constraints with
  | .error error => .returned (.error (.constrained "network.mode" error))
  | .ok _ => .installNetworkMode mode guard.constraints

/-- The next section of an edit: the guarded value it leaves, and what remains to be done. -/
def resume [DecidableEq Hook] [DecidableEq Platform] (guard : ConfigState Hook Platform Entry) :
    Task Hook Platform Entry → ConfigState Hook Platform Entry × Task Hook Platform Entry
  | .updateDomainList host target => (guard, readDomainList rules guard host target)
  | .installDomainList host target read config =>
    -- the log of the compiled state is the one that was read
    if guard.SamePolicy read then ({ read with config }, .returned (.ok ()))
    else (guard, .updateDomainList host target)
  | .setNetworkMode mode => (guard, readNetworkMode rules guard mode)
  | .installNetworkMode mode constraints =>
    if guard.constraints = constraints then
      ({ guard with config := { guard.config with mode } }, .returned (.ok ()))
    else (guard, .setNetworkMode mode)
  | .returned result => (guard, .returned result)

end Sections

/-! ## Runs -/

/-- The guarded value, the edits under way, and everything that was drained. -/
structure System (Hook Platform Entry : Type) where
  state : ConfigState Hook Platform Entry
  tasks : List (Task Hook Platform Entry)
  drained : List Entry

/-- One critical section, or the begin of an edit. -/
inductive Op (Hook Platform Entry : Type) where
  | recordBlocked (entry : Entry)
  | drainBlocked
  | blockedSnapshot
  | reloadIfNeeded (newState : ConfigState Hook Platform Entry)
  | forceReload (newState : ConfigState Hook Platform Entry)
  | replaceConfigState (newState : ConfigState Hook Platform Entry)
  | addDomain (host : List Char) (target : DomainListKind)
  | setNetworkMode (mode : NetworkMode)
  | resume (task : ℕ)

/-- The requests recorded so far, split where the buffer was drained. -/
structure Recorded (Entry : Type) where
  finished : List (List Entry)
  current : List Entry

section Runs

variable {Hook Platform Entry : Type} [DecidableEq Hook] [DecidableEq Platform]

def System.step (rules : Rules Hook Platform) (system : System Hook Platform Entry) :
    Op Hook Platform Entry → System Hook Platform Entry
  | .recordBlocked entry => { system with state := system.state.recordBlocked entry }
  | .drainBlocked =>
    { system with
      state := { system.state with blocked := [] }
      drained := system.drained ++ system.state.blocked }
  | .blockedSnapshot => system
  | .reloadIfNeeded newState | .replaceConfigState newState =>
    { system with state := system.state.replaceConfigState newState }
  | .forceReload newState => { system with state := system.state.forceReload newState }
  | .addDomain host target => { system with tasks := system.tasks ++ [beginUpdate host target] }
  | .setNetworkMode mode => { system with tasks := system.tasks ++ [.setNetworkMode mode] }
  | .resume task =>
    (system.tasks[task]?.map fun next =>
      let resumed := BlockedLog.resume rules system.state next
      { system with state := resumed.1, tasks := system.tasks.set task resumed.2 }).getD system

def System.run (rules : Rules Hook Platform) (system : System Hook Platform Entry)
    (ops : List (Op Hook Platform Entry)) : System Hook Platform Entry :=
  ops.foldl (System.step rules) system

/-- A proxy whose state was just built. -/
def System.start (executorOs : Platform) (config : NetworkProxyConfig Hook)
    (constraints : NetworkProxyConstraints) : System Hook Platform Entry :=
  ⟨.fresh executorOs config constraints, [], []⟩

def Recorded.observe (recorded : Recorded Entry) : Op Hook Platform Entry → Recorded Entry
  | .recordBlocked entry => { recorded with current := recorded.current ++ [entry] }
  | .drainBlocked => ⟨recorded.finished ++ [recorded.current], []⟩
  | _ => recorded

/-- What the operations of a run recorded. -/
def Recorded.of (ops : List (Op Hook Platform Entry)) : Recorded Entry :=
  ops.foldl Recorded.observe ⟨[], []⟩

/-- All recorded requests, oldest first. -/
def Recorded.all (recorded : Recorded Entry) : List Entry :=
  recorded.finished.flatten ++ recorded.current

/-- The recorded requests without those that were the oldest of a full buffer. -/
def Recorded.kept (recorded : Recorded Entry) : List Entry :=
  (recorded.finished.map (List.rtake · maxBlockedEvents)).flatten ++
    recorded.current.rtake maxBlockedEvents

/-- Nothing is lost or repeated, and everything is counted. -/
structure System.Faithful (system : System Hook Platform Entry) (recorded : Recorded Entry) :
    Prop where
  inOrder : system.drained ++ system.state.blocked = recorded.kept
  counted : system.state.blockedTotal = recorded.all.length

/-- The buffer holds the end of the current stretch, and what was drained the stretches before. -/
structure System.Logged (system : System Hook Platform Entry) (recorded : Recorded Entry) :
    Prop where
  drained : system.drained = (recorded.finished.map (List.rtake · maxBlockedEvents)).flatten
  blocked : system.state.blocked = recorded.current.rtake maxBlockedEvents
  counted : system.state.blockedTotal = recorded.all.length

/-- The section keeps the log: the count has room, a forced reload brings the count along, and an
edit that is about to replace the state read the log as it stands. -/
def System.Keeps (system : System Hook Platform Entry) : Op Hook Platform Entry → Prop
  | .recordBlocked _ => system.state.blockedTotal < maxTotal
  | .forceReload newState => newState.blockedTotal = system.state.blockedTotal
  | .resume task => ∀ host target read config,
    system.tasks[task]? = some (.installDomainList host target read config) →
      system.state.SamePolicy read → read.SameLog system.state
  | _ => True

/-! ## One section -/

variable {system next : System Hook Platform Entry} {recorded : Recorded Entry}

omit [DecidableEq Hook] [DecidableEq Platform] in
theorem System.Logged.faithful (h : system.Logged recorded) : system.Faithful recorded where
  inOrder := by rw [h.drained, h.blocked, Recorded.kept]
  counted := h.counted

omit [DecidableEq Hook] [DecidableEq Platform] in
/-- Where nothing is recorded or drained, the log is right exactly if it stays. -/
theorem System.Logged.faithful_iff (h : system.Logged recorded)
    (hdrained : next.drained = system.drained) :
    next.Faithful recorded ↔ next.state.SameLog system.state := by
  constructor
  · intro hnext
    have hkept : system.drained ++ next.state.blocked = system.drained ++ system.state.blocked := by
      rw [← hdrained, hnext.inOrder, hdrained, h.faithful.inOrder]
    exact ⟨List.append_cancel_left hkept, hnext.counted.trans h.counted.symm⟩
  · intro hsame
    constructor
    · rw [hdrained, hsame.1, h.faithful.inOrder]
    · rw [hsame.2, h.counted]

omit [DecidableEq Hook] [DecidableEq Platform] in
theorem System.Logged.of_sameLog (h : system.Logged recorded)
    (hdrained : next.drained = system.drained) (hsame : next.state.SameLog system.state) :
    next.Logged recorded where
  drained := by rw [hdrained, h.drained]
  blocked := by rw [hsame.1, h.blocked]
  counted := by rw [hsame.2, h.counted]

variable (rules : Rules Hook Platform)

/-- The only section of an edit that can touch the log is the write of a domain list. -/
theorem resume_sameLog_iff (guard : ConfigState Hook Platform Entry)
    (task : Task Hook Platform Entry) :
    (resume rules guard task).1.SameLog guard ↔
      ∀ host target read config, task = .installDomainList host target read config →
        guard.SamePolicy read → read.SameLog guard := by
  cases task with
  | installDomainList host target read config =>
    rw [resume]
    split_ifs with hpolicy
    · constructor
      · intro hsame host' target' read' config' heq _
        cases heq
        exact hsame
      · intro h
        exact h host target read config rfl hpolicy
    · refine iff_of_true ⟨rfl, rfl⟩ fun host' target' read' config' heq hread ↦ ?_
      cases heq
      exact absurd hread hpolicy
  | installNetworkMode mode constraints =>
    rw [resume]
    split_ifs
    · exact iff_of_true ⟨rfl, rfl⟩ (fun _ _ _ _ h ↦ by cases h)
    · exact iff_of_true ⟨rfl, rfl⟩ (fun _ _ _ _ h ↦ by cases h)
  | updateDomainList => exact iff_of_true ⟨rfl, rfl⟩ (fun _ _ _ _ h ↦ by cases h)
  | setNetworkMode => exact iff_of_true ⟨rfl, rfl⟩ (fun _ _ _ _ h ↦ by cases h)
  | returned => exact iff_of_true ⟨rfl, rfl⟩ (fun _ _ _ _ h ↦ by cases h)

/-- Sections that record and drain nothing, and what it means for them to keep the log. -/
def Op.Quiet : Op Hook Platform Entry → Prop
  | .recordBlocked _ | .drainBlocked => False
  | _ => True

omit [DecidableEq Hook] [DecidableEq Platform] in
theorem Op.Quiet.observe_eq {op : Op Hook Platform Entry} (h : op.Quiet) :
    recorded.observe op = recorded := by
  cases op with
  | recordBlocked => exact h.elim
  | drainBlocked => exact h.elim
  | _ => rfl

theorem Op.Quiet.drained_step {op : Op Hook Platform Entry} (h : op.Quiet) :
    (system.step rules op).drained = system.drained := by
  cases op with
  | recordBlocked => rfl
  | drainBlocked => exact h.elim
  | resume task =>
    rw [System.step]
    cases system.tasks[task]? <;> rfl
  | _ => rfl

theorem Op.Quiet.keeps_iff {op : Op Hook Platform Entry} (h : op.Quiet) :
    system.Keeps op ↔ (system.step rules op).state.SameLog system.state := by
  cases op with
  | recordBlocked => exact h.elim
  | drainBlocked => exact h.elim
  | forceReload newState =>
    exact ⟨fun hcount ↦ ⟨rfl, hcount⟩, fun hsame ↦ hsame.2⟩
  | resume task =>
    rw [System.Keeps, System.step]
    cases hnext : system.tasks[task]? with
    | none => exact iff_of_true (fun _ _ _ _ h ↦ by cases h) ⟨rfl, rfl⟩
    | some next =>
      refine Iff.trans ?_ (resume_sameLog_iff rules system.state next).symm
      simp only [Option.some.injEq]
  | _ => exact iff_of_true trivial ⟨rfl, rfl⟩

/-- A recorded entry is counted unless the counter is full. -/
theorem System.Logged.record (h : system.Logged recorded) (entry : Entry)
    (hroom : system.state.blockedTotal < maxTotal) :
    (system.step rules (.recordBlocked entry)).Logged
      (recorded.observe (.recordBlocked entry : Op Hook Platform Entry)) where
  drained := h.drained
  blocked := by
    calc
      popOldest (system.state.blocked ++ [entry])
        = (system.state.blocked ++ [entry]).rtake maxBlockedEvents := popOldest_eq_rtake _
      _ = (recorded.current.rtake maxBlockedEvents ++ [entry]).rtake maxBlockedEvents := by
        rw [h.blocked]
      _ = (recorded.current ++ [entry]).rtake maxBlockedEvents := rtake_append_rtake _ _ _
  counted := by
    calc
      min (system.state.blockedTotal + 1) maxTotal
        = system.state.blockedTotal + 1 := min_eq_left hroom
      _ = recorded.all.length + 1 := by rw [h.counted]
      _ = (recorded.finished.flatten ++ (recorded.current ++ [entry])).length := by
        simp only [Recorded.all, List.length_append, List.length_singleton, Nat.add_assoc]

theorem System.Logged.drain (h : system.Logged recorded) :
    (system.step rules .drainBlocked).Logged
      (recorded.observe (.drainBlocked : Op Hook Platform Entry)) where
  drained := by
    calc
      system.drained ++ system.state.blocked
        = recorded.kept := h.faithful.inOrder
      _ = ((recorded.finished ++ [recorded.current]).map
            (List.rtake · maxBlockedEvents)).flatten := by
        rw [Recorded.kept, List.map_append, List.flatten_append, List.map_singleton,
          List.flatten_singleton]
  blocked := by simp [System.step, Recorded.observe]
  counted := by
    rw [← show recorded.all = (recorded.observe (.drainBlocked : Op Hook Platform Entry)).all by
      simp [Recorded.all, Recorded.observe]]
    exact h.counted

theorem System.Logged.step (h : system.Logged recorded) {op : Op Hook Platform Entry}
    (hkeeps : system.Keeps op) : (system.step rules op).Logged (recorded.observe op) := by
  by_cases hquiet : op.Quiet
  · rw [hquiet.observe_eq]
    exact h.of_sameLog (hquiet.drained_step rules) ((hquiet.keeps_iff rules).mp hkeeps)
  · cases op with
    | recordBlocked entry => exact h.record rules entry hkeeps
    | drainBlocked => exact h.drain rules
    | _ => exact absurd trivial hquiet

/-- A section that does not keep the log is seen at once. -/
theorem System.Logged.keeps_of_faithful (h : system.Logged recorded)
    {op : Op Hook Platform Entry}
    (hfaithful : (system.step rules op).Faithful (recorded.observe op)) : system.Keeps op := by
  by_cases hquiet : op.Quiet
  · rw [hquiet.observe_eq] at hfaithful
    exact (hquiet.keeps_iff rules).mpr
      ((h.faithful_iff (hquiet.drained_step rules)).mp hfaithful)
  · cases op with
    | recordBlocked entry =>
      have hcounted : min (system.state.blockedTotal + 1) maxTotal =
          (recorded.finished.flatten ++ (recorded.current ++ [entry])).length := hfaithful.counted
      have hbefore := h.counted
      simp only [Recorded.all, List.length_append, List.length_singleton] at hcounted hbefore
      change system.state.blockedTotal < maxTotal
      omega
    | drainBlocked => exact trivial
    | _ => exact absurd trivial hquiet

/-! ## Whole runs -/

omit [DecidableEq Hook] [DecidableEq Platform] in
theorem System.logged_start (executorOs : Platform) (config : NetworkProxyConfig Hook)
    (constraints : NetworkProxyConstraints) :
    (System.start executorOs config constraints : System Hook Platform Entry).Logged ⟨[], []⟩ where
  drained := rfl
  blocked := (List.rtake_nil maxBlockedEvents).symm
  counted := rfl

/-- The first section that does not keep the log makes it wrong. -/
theorem System.Logged.run_iff (h : system.Logged recorded) (ops : List (Op Hook Platform Entry)) :
    (∀ done, done <+: ops →
        (system.run rules done).Faithful (done.foldl Recorded.observe recorded)) ↔
      ∀ done op, done ++ [op] <+: ops → (system.run rules done).Keeps op := by
  induction ops generalizing system recorded with
  | nil =>
    refine iff_of_true (fun done hdone ↦ ?_) fun done op hdone ↦ ?_
    · rw [List.prefix_nil.mp hdone]
      exact h.faithful
    · exact absurd (List.prefix_nil.mp hdone) (List.append_ne_nil_of_right_ne_nil _ (by simp))
  | cons op rest ih =>
    constructor
    · intro hfaithful
      have hkeeps : system.Keeps op :=
        h.keeps_of_faithful rules (hfaithful [op] (List.prefix_append [op] rest))
      have hrest := (ih (h.step rules hkeeps)).mp fun done hdone ↦
        hfaithful (op :: done) (List.cons_prefix_cons.mpr ⟨rfl, hdone⟩)
      intro done op' hdone
      cases done with
      | nil =>
        cases (List.cons_prefix_cons.mp hdone).1
        exact hkeeps
      | cons first done =>
        obtain ⟨rfl, htail⟩ := List.cons_prefix_cons.mp hdone
        exact hrest done op' htail
    · intro hkeeps done hdone
      have hlogged := h.step rules (hkeeps [] op (List.prefix_append [op] rest))
      cases done with
      | nil => exact h.faithful
      | cons first done =>
        obtain ⟨rfl, htail⟩ := List.cons_prefix_cons.mp hdone
        exact (ih hlogged).mpr (fun done' op' hdone' ↦
          hkeeps (first :: done') op' (List.cons_prefix_cons.mpr ⟨rfl, hdone'⟩)) done htail

/-- Along a run nothing is lost, repeated or left uncounted exactly if every section keeps the
log. -/
theorem blockedLog_faithful_iff (executorOs : Platform) (config : NetworkProxyConfig Hook)
    (constraints : NetworkProxyConstraints) (ops : List (Op Hook Platform Entry)) :
    (∀ done, done <+: ops →
        ((System.start executorOs config constraints).run rules done).Faithful (.of done)) ↔
      ∀ done op, done ++ [op] <+: ops →
        ((System.start executorOs config constraints).run rules done).Keeps op :=
  System.Logged.run_iff rules (System.logged_start executorOs config constraints) ops

end Runs

/-! ## Runs that do not keep the log -/

/-- Checks that let every edit pass. -/
def permissiveRules : Rules Empty Unit where
  urlHost := some
  validateMitmHook := Empty.elim
  localBindingPolicy := .defaultFalse
  buildConfigState config _ _ := some config

def plainConfig : NetworkProxyConfig Empty where
  enabled := true
  allowUpstreamProxy := false
  dangerouslyAllowNonLoopbackProxy := false
  dangerouslyAllowAllUnixSockets := none
  mode := .full
  domains := none
  unixSockets := none
  allowLocalBinding := none
  mitm := false
  mitmHooks := []

def noConstraints : NetworkProxyConstraints where
  enabled := none
  mode := none
  allowUpstreamProxy := none
  dangerouslyAllowNonLoopbackProxy := none
  dangerouslyAllowAllUnixSockets := none
  allowedDomains := none
  allowlistExpansionEnabled := none
  deniedDomains := none
  denylistExpansionEnabled := none
  allowUnixSockets := none
  allowLocalBinding := none

def plainSystem : System Empty Unit ℕ :=
  .start () plainConfig noConstraints

/-- What a run on the plain system leaves: the drained entries, the buffered ones and the count. -/
def outcome (ops : List (Op Empty Unit ℕ)) : List ℕ × List ℕ × ℕ :=
  let system := plainSystem.run permissiveRules ops
  (system.drained, system.state.blocked, system.state.blockedTotal)

/-- An entry recorded while a domain is being added is lost, an entry drained meanwhile comes back,
and a forced reload starts the count anew. -/
theorem edit_and_reload_break_log :
    outcome [.addDomain "example.com".toList .allow, .resume 0, .recordBlocked 7, .resume 0] =
        ([], [], 0) ∧
      outcome [.recordBlocked 7, .addDomain "example.com".toList .deny, .resume 0, .drainBlocked,
        .resume 0] = ([7], [7], 1) ∧
      outcome [.recordBlocked 7, .forceReload (.fresh () plainConfig noConstraints)] =
        ([], [7], 0) ∧
      ¬ (plainSystem.run permissiveRules [.addDomain "example.com".toList .allow, .resume 0,
        .recordBlocked 7, .resume 0]).Faithful ⟨[], [7]⟩ := by
  refine ⟨by decide +kernel, by decide +kernel, by decide +kernel, fun h ↦ ?_⟩
  have hcounted := h.counted
  revert hcounted
  decide +kernel

end BlockedLog

end SpineCodex
