import SpineCodex.Permissions.Intersection
import SpineCodex.Permissions.Precedence

/-!
# Additional permissions

The grants of a profile are appended to the entries of a policy. As the deepest root above a path decides,
a grant can take access away: a root to read below one to write, a root with an ambiguous position, which
denies everything, or a root to write whose metadata directories are protected. What is left of the
access to one path is told from the roots that were added.
-/

namespace SpineCodex

open PathUri (UrlRules plainUrl localFile)

namespace FileSystemSandboxPolicy

def mergeFileSystemPolicyWithAdditionalPermissions (policy : FileSystemSandboxPolicy)
    (additionalPermissions : FileSystemPermissions) : FileSystemSandboxPolicy :=
  match policy.kind with
  | .restricted =>
    { policy with
      entries := pushMissing policy.entries additionalPermissions.entries
      globScanMaxDepth := mergeGlobScanMaxDepth policy.entries policy.globScanMaxDepth
        additionalPermissions.entries additionalPermissions.globScanMaxDepth }
  | .unrestricted | .externalSandbox => policy

def effectiveFileSystemSandboxPolicy (policy : FileSystemSandboxPolicy)
    (additionalPermissions : Option AdditionalPermissionProfile) : FileSystemSandboxPolicy :=
  match additionalPermissions.bind (·.fileSystem) with
  | none => policy
  | some permissions =>
    if permissions.entries.isEmpty then policy
    else policy.mergeFileSystemPolicyWithAdditionalPermissions permissions

/-! ## What is added -/

theorem exists_pushMissing_eq (entries rest : List FileSystemSandboxEntry) :
    ∃ added, pushMissing entries rest = entries ++ added ∧ added ⊆ rest := by
  induction rest generalizing entries with
  | nil => exact ⟨[], (List.append_nil _).symm, List.Subset.refl _⟩
  | cons entry rest ih =>
    rw [pushMissing]
    split_ifs
    · obtain ⟨added, hadded, hsubset⟩ := ih entries
      exact ⟨added, hadded, List.subset_cons_of_subset _ hsubset⟩
    · obtain ⟨added, hadded, hsubset⟩ := ih (entries ++ [entry])
      refine ⟨entry :: added, ?_, List.cons_subset_cons _ hsubset⟩
      rw [hadded, List.append_assoc, List.singleton_append]

/-- The entries of a profile that the policy did not have. -/
def addedEntries (policy : FileSystemSandboxPolicy)
    (additionalPermissions : Option AdditionalPermissionProfile) : FileSystemSandboxPolicy :=
  restricted ((policy.effectiveFileSystemSandboxPolicy additionalPermissions).entries.drop
    policy.entries.length)

/-- An effective policy has the entries of the policy, and behind them the added ones. -/
theorem effective_entries {policy : FileSystemSandboxPolicy} (hkind : policy.kind = .restricted)
    (profile : Option AdditionalPermissionProfile) :
    (policy.effectiveFileSystemSandboxPolicy profile).kind = .restricted ∧
      (policy.effectiveFileSystemSandboxPolicy profile).entries =
        policy.entries ++ (policy.addedEntries profile).entries ∧
      ∀ entry ∈ (policy.addedEntries profile).entries, ∃ given ∈ profile, entry ∈ given.entries := by
  have hnone : policy.entries.drop policy.entries.length = [] := List.drop_length
  cases hpermissions : profile.bind (·.fileSystem) with
  | none =>
    simp only [addedEntries, effectiveFileSystemSandboxPolicy, hpermissions, restricted, hnone]
    exact ⟨hkind, (List.append_nil _).symm, fun entry hentry ↦ absurd hentry List.not_mem_nil⟩
  | some permissions =>
    simp only [addedEntries, effectiveFileSystemSandboxPolicy, hpermissions, restricted]
    split_ifs with hempty
    · rw [hnone]
      exact ⟨hkind, (List.append_nil _).symm, fun entry hentry ↦ absurd hentry List.not_mem_nil⟩
    · obtain ⟨added, hadded, hsubset⟩ := exists_pushMissing_eq policy.entries permissions.entries
      simp only [mergeFileSystemPolicyWithAdditionalPermissions, hkind, hadded, List.drop_left]
      refine ⟨trivial, trivial, fun entry hentry ↦ ?_⟩
      obtain ⟨given, hgiven, hfiles⟩ := Option.bind_eq_some_iff.mp hpermissions
      refine ⟨given, hgiven, ?_⟩
      rw [AdditionalPermissionProfile.entries, hfiles]
      exact hsubset hentry

section Access

variable {url : UrlRules} {policy : FileSystemSandboxPolicy} {context : FileSystemSandboxPolicyContext}
  {path : PathUri} {profile : Option AdditionalPermissionProfile}

theorem effective_resolvedEntries (hkind : policy.kind = .restricted) :
    (policy.effectiveFileSystemSandboxPolicy profile).resolvedEntries url context =
      policy.resolvedEntries url context ++ (policy.addedEntries profile).resolvedEntries url context := by
  rw [resolvedEntries, (effective_entries hkind profile).2.1, List.flatMap_append]
  rfl

theorem effective_rootsAbove (hkind : policy.kind = .restricted) :
    (policy.effectiveFileSystemSandboxPolicy profile).rootsAbove url context path =
      policy.rootsAbove url context path ++ (policy.addedEntries profile).rootsAbove url context path := by
  rw [rootsAbove, effective_resolvedEntries hkind, List.filterMap_append]
  rfl

theorem effective_hasAmbiguousRoot (hkind : policy.kind = .restricted) :
    (policy.effectiveFileSystemSandboxPolicy profile).hasAmbiguousRoot url context =
      (policy.hasAmbiguousRoot url context || (policy.addedEntries profile).hasAmbiguousRoot url context) := by
  rw [hasAmbiguousRoot, effective_resolvedEntries hkind, List.any_append]
  rfl

/-- Grants add no denial. -/
theorem added_ne_deny (hkind : policy.kind = .restricted)
    (hgrants : ∀ given ∈ profile, ∀ entry ∈ given.entries, entry.access ≠ .deny)
    {key : ℕ × FileSystemAccessMode} (hkey : key ∈ (policy.addedEntries profile).rootsAbove url context path) :
    key.2 ≠ .deny := by
  simp only [rootsAbove, resolvedEntries, resolvedEntry, List.mem_filterMap, List.mem_flatMap, List.mem_map,
    Option.bind_eq_some_iff, Option.ite_none_right_eq_some, Option.some.injEq] at hkey
  obtain ⟨_, ⟨entry, hentry, _, -, rfl⟩, depth, -, -, rfl⟩ := hkey
  obtain ⟨given, hgiven, hin⟩ := (effective_entries hkind profile).2.2 entry hentry
  exact hgrants given hgiven entry hin

/-- What decides without the added roots is one of the roots with them. -/
theorem effective_resolveAccess (hkind : policy.kind = .restricted)
    (hbase : policy.resolveAccess url context path ≠ .deny) :
    (policy.effectiveFileSystemSandboxPolicy profile).resolveAccess url context path =
      if (policy.addedEntries profile).hasAmbiguousRoot url context then .deny
      else ((maxByKey (policy.rootsAbove url context path ++
        (policy.addedEntries profile).rootsAbove url context path)).map (·.2)).getD .deny := by
  obtain ⟨hcomparable, hunambiguous⟩ := resolves_of_resolveAccess hkind hbase
  have hambiguous := @effective_hasAmbiguousRoot url policy context profile hkind
  rw [hunambiguous, Bool.false_or] at hambiguous
  rw [resolveAccess, (effective_entries hkind profile).1, hambiguous, effective_rootsAbove hkind]
  simp only [hcomparable, not_true_eq_false, if_false]

/-- The key that decides about a path that is not denied. -/
theorem exists_maxByKey (hkind : policy.kind = .restricted) {mode : FileSystemAccessMode}
    (hbase : policy.resolveAccess url context path = mode) (hmode : mode ≠ .deny) :
    ∃ depth, maxByKey (policy.rootsAbove url context path) = some (depth, mode) := by
  rw [resolveAccess_of_resolves hkind (resolves_of_resolveAccess hkind (hbase ▸ hmode))] at hbase
  cases hbest : maxByKey (policy.rootsAbove url context path) with
  | none =>
    rw [hbest] at hbase
    exact absurd hbase.symm hmode
  | some best =>
    rw [hbest] at hbase
    exact ⟨best.1, congrArg some (Prod.ext rfl hbase)⟩

/-- With the added roots, the same key decides or one of an added root. -/
theorem exists_effective_key (hkind : policy.kind = .restricted) {mode : FileSystemAccessMode}
    (hbase : policy.resolveAccess url context path = mode) (hmode : mode ≠ .deny)
    (profile : Option AdditionalPermissionProfile) :
    ∃ best, maxByKey (policy.rootsAbove url context path ++
        (policy.addedEntries profile).rootsAbove url context path) = some best ∧
      best ∈ policy.rootsAbove url context path ++
        (policy.addedEntries profile).rootsAbove url context path ∧
      (∀ key ∈ policy.rootsAbove url context path ++
        (policy.addedEntries profile).rootsAbove url context path, keyLe key best = true) ∧
      (best.2 = mode ∨ best ∈ (policy.addedEntries profile).rootsAbove url context path) := by
  obtain ⟨depth, hdepth⟩ := exists_maxByKey hkind hbase hmode
  obtain ⟨hmem, hmax⟩ := maxByKey_eq_some_iff.mp hdepth
  cases hbest : maxByKey (policy.rootsAbove url context path ++
      (policy.addedEntries profile).rootsAbove url context path) with
  | none =>
    exact absurd (List.append_eq_nil_iff.mp (maxByKey_eq_none_iff.mp hbest)).1
      (List.ne_nil_of_mem hmem)
  | some best =>
    obtain ⟨hin, hle⟩ := maxByKey_eq_some_iff.mp hbest
    refine ⟨best, rfl, hin, hle, (List.mem_append.mp hin).imp_left fun hold ↦ ?_⟩
    rw [keyLe_antisymm (hmax best hold) (hle _ (List.mem_append_left _ hmem))]

/-- A readable path stays readable exactly if no added root is ambiguous. -/
theorem readable_kept_iff (hkind : policy.kind = .restricted)
    (hgrants : ∀ given ∈ profile, ∀ entry ∈ given.entries, entry.access ≠ .deny)
    (hbase : policy.resolveAccess url context path ≠ .deny) :
    (policy.effectiveFileSystemSandboxPolicy profile).resolveAccess url context path ≠ .deny ↔
      (policy.addedEntries profile).hasAmbiguousRoot url context = false := by
  rw [effective_resolveAccess hkind hbase]
  split_ifs with hambiguous
  · rw [hambiguous]
    exact ⟨fun h ↦ absurd rfl h, fun h ↦ absurd h Bool.false_ne_true.symm⟩
  · refine iff_of_true ?_ (Bool.not_eq_true _ ▸ hambiguous)
    obtain ⟨best, hbest, -, -, hmode | hadded⟩ := exists_effective_key hkind rfl hbase profile
    · rw [hbest]
      exact fun hdeny ↦ hbase (hmode.symm.trans hdeny)
    · rw [hbest]
      exact added_ne_deny hkind hgrants hadded

/-- Every added root to read above the path is met by a root to write that is no less deep. -/
def ReadsMet (url : UrlRules) (policy : FileSystemSandboxPolicy) (profile : Option AdditionalPermissionProfile)
    (context : FileSystemSandboxPolicyContext) (path : PathUri) : Prop :=
  ∀ depth, (depth, .read) ∈ (policy.addedEntries profile).rootsAbove url context path →
    ∃ deeper ≥ depth, (deeper, .write) ∈
      (policy.effectiveFileSystemSandboxPolicy profile).rootsAbove url context path

/-- A path that resolves to write access still does so exactly if no added root is ambiguous and no added
root to read decides. -/
theorem write_kept_iff (hkind : policy.kind = .restricted)
    (hgrants : ∀ given ∈ profile, ∀ entry ∈ given.entries, entry.access ≠ .deny)
    (hbase : policy.resolveAccess url context path = .write) :
    (policy.effectiveFileSystemSandboxPolicy profile).resolveAccess url context path = .write ↔
      (policy.addedEntries profile).hasAmbiguousRoot url context = false ∧
        policy.ReadsMet url profile context path := by
  rw [effective_resolveAccess hkind (by rw [hbase]; decide), ReadsMet, effective_rootsAbove hkind]
  split_ifs with hambiguous
  · rw [hambiguous]
    exact iff_of_false (by decide) fun h ↦ Bool.false_ne_true h.1.symm
  · rw [and_iff_right (Bool.not_eq_true _ ▸ hambiguous)]
    obtain ⟨best, hbest, hin, hmax, hmode⟩ := exists_effective_key hkind hbase (by decide) profile
    rw [hbest]
    constructor
    · intro hwrite other hother
      refine ⟨best.1, ?_, ?_⟩
      · have hle := hmax _ (List.mem_append_right _ hother)
        simp only [keyLe, Bool.or_eq_true, decide_eq_true_eq, Bool.and_eq_true, beq_iff_eq] at hle
        omega
      · have hkey : best = (best.1, .write) := Prod.ext rfl hwrite
        exact hkey ▸ hin
    · intro hreads
      refine hmode.elim id fun hadded ↦ ?_
      change best.2 = .write
      cases hmode : best.2 with
      | write => rfl
      | deny => exact absurd hmode (added_ne_deny hkind hgrants hadded)
      | read =>
        have hkey : best = (best.1, .read) := Prod.ext rfl hmode
        obtain ⟨deeper, hdeeper, hwrite⟩ := hreads best.1 (hkey ▸ hadded)
        have hle := hmax _ hwrite
        simp only [keyLe, hmode, FileSystemAccessMode.rank, Bool.or_eq_true, decide_eq_true_eq,
          Bool.and_eq_true, beq_iff_eq] at hle
        omega

end Access

/-! ## Grants that keep access and grants that take it away -/

def grantsOf (entries : List FileSystemSandboxEntry) : Option AdditionalPermissionProfile :=
  some ⟨none, some ⟨entries, none⟩⟩

end FileSystemSandboxPolicy

end SpineCodex
