import SpineCodex.Paths.Containment
import SpineCodex.Permissions.Policy

/-!
# The deciding rule

Seen from a POSIX context, a policy is a list of rules: a trail and a mode. Of the rules whose trail
is a prefix of a path's, the longest decides, and of equally long ones the strongest mode. Access
resolution of a policy is the mode of the deciding rule.
-/

namespace SpineCodex

open PathUri (UrlRules)

/-! ## Rules over trails -/

section Rules

variable {α : Type*} {rules : List (List α × FileSystemAccessMode)} {position trail : List α}
  {mode : FileSystemAccessMode}

/-- The rule at a trail decides the mode of a position. -/
structure Decides (rules : List (List α × FileSystemAccessMode)) (position trail : List α)
    (mode : FileSystemAccessMode) : Prop where
  mem : (trail, mode) ∈ rules
  above : trail <+: position
  best : ∀ other ∈ rules, other.1 <+: position → keyLe (other.1.length, other.2) (trail.length, mode) = true

theorem Decides.mode_eq {trail' : List α} {mode' : FileSystemAccessMode}
    (h : Decides rules position trail mode) (h' : Decides rules position trail' mode') :
    mode = mode' := by
  have heq := keyLe_antisymm (h'.best _ h.mem h.above) (h.best _ h'.mem h'.above)
  exact congrArg Prod.snd heq

/-- A denial that does not decide is shorter than the rule that does. -/
theorem Decides.length_lt (h : Decides rules position trail mode) (hmode : mode ≠ .deny)
    {other : List α} (hother : (other, .deny) ∈ rules) (habove : other <+: position) :
    other.length < trail.length := by
  have hle := h.best _ hother habove
  simp only [keyLe, Bool.or_eq_true, decide_eq_true_eq, Bool.and_eq_true, beq_iff_eq] at hle
  rcases hle with hlt | ⟨-, hrank⟩
  · exact hlt
  · cases mode <;> simp_all [FileSystemAccessMode.rank]

/-- No rule above a position is longer than the deciding one. -/
theorem Decides.length_le (h : Decides rules position trail mode) {other : List α × FileSystemAccessMode}
    (hother : other ∈ rules) (habove : other.1 <+: position) : other.1.length ≤ trail.length := by
  have hle := h.best _ hother habove
  simp only [keyLe, Bool.or_eq_true, decide_eq_true_eq, Bool.and_eq_true, beq_iff_eq] at hle
  omega

/-- Some rule decides if there is one above the position. -/
theorem exists_decides [DecidableEq α] {other : List α × FileSystemAccessMode} (hother : other ∈ rules)
    (habove : other.1 <+: position) : ∃ trail mode, Decides rules position trail mode := by
  let keys := (rules.filter (·.1.isPrefixOf position)).map fun rule => (rule.1.length, rule.2)
  have hmem : (other.1.length, other.2) ∈ keys := by
    simp only [keys, List.mem_map, List.mem_filter, List.isPrefixOf_iff_prefix]
    exact ⟨other, ⟨hother, habove⟩, rfl⟩
  cases hbest : maxByKey keys with
  | none =>
    rw [maxByKey_eq_none_iff.mp hbest] at hmem
    cases hmem
  | some best =>
    obtain ⟨hin, hmax⟩ := maxByKey_eq_some_iff.mp hbest
    simp only [keys, List.mem_map, List.mem_filter, List.isPrefixOf_iff_prefix] at hin hmax
    obtain ⟨rule, ⟨hrule, hbefore⟩, rfl⟩ := hin
    exact ⟨rule.1, rule.2, hrule, hbefore, fun rule' hrule' h => hmax _ ⟨rule', ⟨hrule', h⟩, rfl⟩⟩

end Rules

/-! ## The rules of a policy -/

namespace FileSystemSandboxPolicy

variable {url : UrlRules} {policy : FileSystemSandboxPolicy}
  {context : FileSystemSandboxPolicyContext} {path : PathUri} {t : List (List UInt8)}
  {mode : FileSystemAccessMode}

/-- The trails of the roots, with their modes. -/
def rules (url : UrlRules) (policy : FileSystemSandboxPolicy) (context : FileSystemSandboxPolicyContext) :
    List (List (List UInt8) × FileSystemAccessMode) :=
  (policy.resolvedEntries url context).filterMap fun (root, access) =>
    root.trail.map fun trail => (trail, access)

theorem mem_rules {rule : List (List UInt8) × FileSystemAccessMode} :
    rule ∈ policy.rules url context ↔
      ∃ root, (root, rule.2) ∈ policy.resolvedEntries url context ∧ root.trail = some rule.1 := by
  simp only [rules, List.mem_filterMap, Option.map_eq_some_iff, Prod.exists]
  constructor
  · rintro ⟨root, access, hmem, trail, htrail, rfl⟩
    exact ⟨root, hmem, htrail⟩
  · rintro ⟨root, hmem, htrail⟩
    exact ⟨root, rule.2, hmem, rule.1, htrail, rfl⟩

theorem inferPathConvention_of_mem_resolvedEntries {root : PathUri × FileSystemAccessMode}
    (h : root ∈ policy.resolvedEntries url context) :
    root.1.inferPathConvention = context.cwd.inferPathConvention := by
  simp only [resolvedEntries, resolvedEntry, List.mem_flatMap, List.mem_map, List.mem_filter,
    beq_iff_eq] at h
  obtain ⟨entry, -, path, ⟨-, hpath⟩, rfl⟩ := h
  exact hpath

theorem mem_rootsAbove (hposix : context.cwd.inferPathConvention = some .posix)
    (hpath : path.trail = some t) {depth : ℕ} :
    (depth, mode) ∈ policy.rootsAbove url context path ↔
      ∃ trail, (trail, mode) ∈ policy.rules url context ∧ trail <+: t ∧ depth = trail.length := by
  simp only [rootsAbove, List.mem_filterMap, Option.bind_eq_some_iff, Option.ite_none_right_eq_some,
    Option.some.injEq, Prod.mk.injEq, mem_rules]
  constructor
  · rintro ⟨⟨root, access⟩, hroot, depth, hdepth, hstarts, rfl, rfl⟩
    have hconvention := (inferPathConvention_of_mem_resolvedEntries hroot).trans hposix
    obtain ⟨trail, htrail⟩ := PathUri.exists_trail hconvention (by rw [hdepth]; rfl)
    rw [PathUri.lexicalDepth_of_trail htrail] at hdepth
    cases hdepth
    exact ⟨trail, ⟨root, hroot, htrail⟩, (PathUri.startsWith_iff_isPrefix hpath htrail).mp hstarts, rfl⟩
  · rintro ⟨trail, ⟨root, hroot, htrail⟩, habove, rfl⟩
    exact ⟨(root, mode), hroot, trail.length, PathUri.lexicalDepth_of_trail htrail,
      (PathUri.startsWith_iff_isPrefix hpath htrail).mpr habove, rfl, rfl⟩

/-- The deciding root is the deciding rule. -/
theorem maxByKey_rootsAbove (hposix : context.cwd.inferPathConvention = some .posix)
    (hpath : path.trail = some t) {depth : ℕ} :
    maxByKey (policy.rootsAbove url context path) = some (depth, mode) ↔
      ∃ trail, Decides (policy.rules url context) t trail mode ∧ depth = trail.length := by
  rw [maxByKey_eq_some_iff, mem_rootsAbove hposix hpath]
  constructor
  · rintro ⟨⟨trail, hmem, habove, rfl⟩, hbest⟩
    refine ⟨trail, ⟨hmem, habove, fun other hother hbefore => ?_⟩, rfl⟩
    exact hbest (other.1.length, other.2)
      ((mem_rootsAbove hposix hpath).mpr ⟨other.1, hother, hbefore, rfl⟩)
  · rintro ⟨trail, h, rfl⟩
    refine ⟨⟨trail, h.mem, h.above, rfl⟩, fun key hkey => ?_⟩
    obtain ⟨other, hother, hbefore, hlength⟩ := (mem_rootsAbove hposix hpath).mp hkey
    have hle := h.best (other, key.2) hother hbefore
    rwa [← hlength] at hle

/-- The policy compares the path with its roots. -/
structure Resolves (url : UrlRules) (policy : FileSystemSandboxPolicy)
    (context : FileSystemSandboxPolicyContext) (path : PathUri) : Prop where
  comparable : Comparable context path
  unambiguous : policy.hasAmbiguousRoot url context = false

theorem resolveAccess_of_resolves (hkind : policy.kind = .restricted)
    (h : policy.Resolves url context path) :
    policy.resolveAccess url context path =
      ((maxByKey (policy.rootsAbove url context path)).map (·.2)).getD .deny := by
  simp [resolveAccess, hkind, h.comparable, h.unambiguous]

theorem resolveAccess_of_not_resolves (hkind : policy.kind = .restricted)
    (h : ¬ policy.Resolves url context path) : policy.resolveAccess url context path = .deny := by
  by_cases hcomparable : Comparable context path
  · have hambiguous : policy.hasAmbiguousRoot url context = true := by
      by_contra hnot
      exact h ⟨hcomparable, Bool.not_eq_true _ ▸ hnot⟩
    simp [resolveAccess, hkind, hambiguous]
  · simp [resolveAccess, hkind, hcomparable]

/-- A restricted policy gives access where it compares the path with its roots and a rule that is
not a denial decides. -/
theorem resolveAccess_eq_iff (hkind : policy.kind = .restricted)
    (hposix : context.cwd.inferPathConvention = some .posix) (hpath : path.trail = some t)
    (hmode : mode ≠ .deny) :
    policy.resolveAccess url context path = mode ↔
      policy.Resolves url context path ∧ ∃ trail, Decides (policy.rules url context) t trail mode := by
  by_cases hresolves : policy.Resolves url context path
  · rw [resolveAccess_of_resolves hkind hresolves, and_iff_right hresolves]
    cases hbest : maxByKey (policy.rootsAbove url context path) with
    | none =>
      refine ⟨fun h => absurd h.symm hmode, fun ⟨trail, h⟩ => ?_⟩
      rw [(maxByKey_rootsAbove hposix hpath).mpr ⟨trail, h, rfl⟩] at hbest
      cases hbest
    | some best =>
      obtain ⟨trail, hdecides, -⟩ := (maxByKey_rootsAbove hposix hpath).mp hbest
      constructor
      · intro h
        change best.2 = mode at h
        exact ⟨trail, h ▸ hdecides⟩
      · rintro ⟨trail', h⟩
        exact hdecides.mode_eq h
  · rw [resolveAccess_of_not_resolves hkind hresolves]
    exact ⟨fun h => absurd h.symm hmode, fun h => absurd h.1 hresolves⟩

/-- Where a rule that is not a denial decides, access is not denied. -/
theorem ne_deny_of_decides (hkind : policy.kind = .restricted)
    (hposix : context.cwd.inferPathConvention = some .posix) (hpath : path.trail = some t)
    (hresolves : policy.Resolves url context path) {trail : List (List UInt8)}
    (hdecides : Decides (policy.rules url context) t trail mode) (hmode : mode ≠ .deny) :
    policy.resolveAccess url context path ≠ .deny := by
  rw [(resolveAccess_eq_iff hkind hposix hpath hmode).mpr ⟨hresolves, trail, hdecides⟩]
  exact hmode

/-- Access is only given to paths that have a trail. -/
theorem Resolves.exists_trail (h : policy.Resolves url context path)
    (hposix : context.cwd.inferPathConvention = some .posix) : ∃ t, path.trail = some t := by
  obtain ⟨-, hconvention, hdepth, -⟩ := h.comparable
  exact PathUri.exists_trail (hconvention.trans hposix) hdepth

theorem resolves_of_resolveAccess (hkind : policy.kind = .restricted)
    (h : policy.resolveAccess url context path ≠ .deny) : policy.Resolves url context path := by
  by_contra hnot
  exact h (resolveAccess_of_not_resolves hkind hnot)

end FileSystemSandboxPolicy

end SpineCodex
