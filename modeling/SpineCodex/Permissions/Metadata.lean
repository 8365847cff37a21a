import SpineCodex.Permissions.Policy

/-!
# Protected metadata and the order of entries

The check for protected metadata stops at the first writable root and name whose directory contains
the path and asks only whether that directory is reopened. The other parts of the write check do not
depend on the order of the entries. With nested writable roots, several protected directories can
contain one path, and which of them is found first decides.
-/

namespace SpineCodex

open PathUri (UrlRules plainUrl localFile)

namespace FileSystemSandboxPolicy

variable {url : UrlRules} {policy : FileSystemSandboxPolicy}
  {context : FileSystemSandboxPolicyContext} {path : PathUri}

/-- The policy with other entries. -/
def withEntries (policy : FileSystemSandboxPolicy) (entries : List FileSystemSandboxEntry) :
    FileSystemSandboxPolicy :=
  { policy with entries := entries }

/-! ## What does not depend on the order -/

section Order

variable {entries : List FileSystemSandboxEntry}

theorem resolvedEntries_perm (h : entries.Perm policy.entries) :
    ((policy.withEntries entries).resolvedEntries url context).Perm
      (policy.resolvedEntries url context) :=
  h.flatMap_right _

theorem reopens_perm (h : entries.Perm policy.entries) (dir : PathUri) :
    (policy.withEntries entries).reopens url context path dir = policy.reopens url context path dir :=
  (resolvedEntries_perm h).any_eq

theorem resolveAccess_perm (h : entries.Perm policy.entries) :
    (policy.withEntries entries).resolveAccess url context path =
      policy.resolveAccess url context path := by
  have hambiguous : (policy.withEntries entries).hasAmbiguousRoot url context =
      policy.hasAmbiguousRoot url context := (resolvedEntries_perm h).any_eq
  have hbest : maxByKey ((policy.withEntries entries).rootsAbove url context path) =
      maxByKey (policy.rootsAbove url context path) :=
    maxByKey_perm ((resolvedEntries_perm h).filterMap _)
  rw [resolveAccess, resolveAccess, hambiguous, hbest]
  rfl

theorem hasFullDiskWriteAccessWithContext_perm (h : entries.Perm policy.entries) :
    (policy.withEntries entries).hasFullDiskWriteAccessWithContext context =
      policy.hasFullDiskWriteAccessWithContext context := by
  have hroot : (policy.withEntries entries).hasRootAccess (·.canWrite) =
      policy.hasRootAccess (·.canWrite) := congrArg _ h.any_eq
  have hoverride : ∀ entry convention,
      (policy.withEntries entries).hasSameTargetWriteOverride entry convention =
        policy.hasSameTargetWriteOverride entry convention := fun _ _ => h.any_eq
  have hnarrowing : ∀ convention,
      (policy.withEntries entries).hasWriteNarrowingEntries convention =
        policy.hasWriteNarrowingEntries convention := by
    intro convention
    simp only [hasWriteNarrowingEntries, hoverride]
    exact congrArg _ h.any_eq
  simp only [hasFullDiskWriteAccessWithContext, hasFullDiskWriteAccessForConvention, hroot, hnarrowing]
  rfl

end Order

/-! ## The first protected directory -/

/-- All protected directories of writable roots that contain the path. -/
def protectedDirs (url : UrlRules) (policy : FileSystemSandboxPolicy)
    (context : FileSystemSandboxPolicyContext) (path : PathUri) : List PathUri :=
  (policy.resolvedEntries url context).flatMap fun entry => (protectedAbove url path entry).map (·.1)

/-- The first protected directory that the roots of one entry give. -/
def firstProtected (url : UrlRules) (context : FileSystemSandboxPolicyContext) (path : PathUri)
    (entry : FileSystemSandboxEntry) : Option (PathUri × List Char) :=
  (resolvedEntry url context entry).findSome? fun root => (protectedAbove url path root).head?

theorem findSome?_resolvedEntries :
    (policy.resolvedEntries url context).findSome? (fun root => (protectedAbove url path root).head?) =
      policy.entries.findSome? (firstProtected url context path) := by
  rw [resolvedEntries]
  induction policy.entries with
  | nil => rfl
  | cons entry entries ih =>
    rw [List.flatMap_cons, List.findSome?_append, ih, List.findSome?_cons, firstProtected]
    cases (resolvedEntry url context entry).findSome? fun root =>
      (protectedAbove url path root).head? with
    | none => rfl
    | some found => rfl

theorem mem_protectedDirs {dir : PathUri} :
    dir ∈ policy.protectedDirs url context path ↔ ∃ entry ∈ policy.entries,
      ∃ root ∈ resolvedEntry url context entry, ∃ name, (dir, name) ∈ protectedAbove url path root := by
  simp only [protectedDirs, resolvedEntries, List.mem_flatMap, List.mem_map, Prod.exists,
    exists_and_right, exists_eq_right]
  aesop

theorem mem_protectedDirs_of_firstProtected {entry : FileSystemSandboxEntry}
    {found : PathUri × List Char} (hentry : entry ∈ policy.entries)
    (h : firstProtected url context path entry = some found) :
    found.1 ∈ policy.protectedDirs url context path := by
  obtain ⟨root, hroot, hhead⟩ := List.exists_of_findSome?_eq_some h
  exact mem_protectedDirs.mpr ⟨entry, hentry, root, hroot, found.2, List.mem_of_head? hhead⟩

/-- An entry that gives a protected directory gives a first one. -/
theorem exists_firstProtected {dir : PathUri} (h : dir ∈ policy.protectedDirs url context path) :
    ∃ entry ∈ policy.entries, ∃ found, firstProtected url context path entry = some found := by
  obtain ⟨entry, hentry, root, hroot, name, hname⟩ := mem_protectedDirs.mp h
  refine ⟨entry, hentry, Option.isSome_iff_exists.mp ?_⟩
  rw [firstProtected, List.findSome?_isSome_iff]
  exact ⟨root, hroot, by simpa using List.ne_nil_of_mem hname⟩

/-! ## The write check -/

/-- Every protected directory above the path is reopened. -/
def Reopened (url : UrlRules) (policy : FileSystemSandboxPolicy)
    (context : FileSystemSandboxPolicyContext) (path : PathUri) : Prop :=
  ∀ dir ∈ policy.protectedDirs url context path, policy.reopens url context path dir = true

/-- What the order of the entries does not change, and what a protected directory demands. -/
structure MetadataProtected (url : UrlRules) (policy : FileSystemSandboxPolicy)
    (context : FileSystemSandboxPolicyContext) (path : PathUri) : Prop where
  order : ∀ entries, entries.Perm policy.entries →
    (policy.withEntries entries).canWritePath url context path =
      policy.canWritePath url context path
  reopened : policy.hasFullDiskWriteAccessWithContext context = false →
    policy.canWritePath url context path = true → policy.Reopened url context path

theorem metadataWriteDenial_eq_none_iff (hkind : policy.kind = .restricted) :
    policy.metadataWriteDenial url context path = none ↔
      ∀ found, policy.entries.findSome? (firstProtected url context path) = some found →
        policy.reopens url context path found.1 = true := by
  rw [metadataWriteDenial, if_neg (not_not_intro hkind), findSome?_resolvedEntries]
  cases policy.entries.findSome? (firstProtected url context path) with
  | none => simp
  | some found => simp

/-- A path with write access is written unless the first protected directory is closed. -/
theorem canWritePath_iff (hkind : policy.kind = .restricted) :
    policy.canWritePath url context path = true ↔
      policy.resolveAccess url context path = .write ∧
        (policy.hasFullDiskWriteAccessWithContext context = true ∨
          ∀ found, policy.entries.findSome? (firstProtected url context path) = some found →
            policy.reopens url context path found.1 = true) := by
  rw [canWritePath, Bool.and_eq_true, Bool.or_eq_true, FileSystemAccessMode.canWrite_eq_true,
    Option.isNone_iff_eq_none, metadataWriteDenial_eq_none_iff hkind]

theorem canWritePath_withEntries_iff {entries : List FileSystemSandboxEntry}
    (hkind : policy.kind = .restricted) (h : entries.Perm policy.entries) :
    (policy.withEntries entries).canWritePath url context path = true ↔
      policy.resolveAccess url context path = .write ∧
        (policy.hasFullDiskWriteAccessWithContext context = true ∨
          ∀ found, entries.findSome? (firstProtected url context path) = some found →
            policy.reopens url context path found.1 = true) := by
  have hkind' : (policy.withEntries entries).kind = .restricted := hkind
  rw [canWritePath_iff hkind', resolveAccess_perm h, hasFullDiskWriteAccessWithContext_perm h]
  simp only [reopens_perm h]
  rfl

/-- Some entry gives a first protected directory that is reopened. -/
def ReopensFirst (url : UrlRules) (policy : FileSystemSandboxPolicy)
    (context : FileSystemSandboxPolicyContext) (path : PathUri) : Prop :=
  ∃ entry ∈ policy.entries, ∃ found, firstProtected url context path entry = some found ∧
    policy.reopens url context path found.1 = true

/-- An entry whose first protected directory is reopened can be put first. -/
theorem exists_perm_canWritePath (hkind : policy.kind = .restricted)
    (haccess : policy.resolveAccess url context path = .write)
    (h : policy.ReopensFirst url context path) :
    ∃ entries, entries.Perm policy.entries ∧
      (policy.withEntries entries).canWritePath url context path = true := by
  obtain ⟨entry, hentry, found, hfound, hreopens⟩ := h
  have hperm := (List.perm_cons_erase hentry).symm
  refine ⟨entry :: policy.entries.erase entry, hperm, ?_⟩
  rw [canWritePath_withEntries_iff hkind hperm]
  refine ⟨haccess, .inr fun other hother => ?_⟩
  rw [List.findSome?_cons, hfound] at hother
  cases hother
  exact hreopens

/-- If all protected directories are reopened, only the access of the path decides. -/
theorem canWritePath_of_reopened {entries : List FileSystemSandboxEntry}
    (hkind : policy.kind = .restricted) (h : entries.Perm policy.entries)
    (hreopened : policy.Reopened url context path) :
    (policy.withEntries entries).canWritePath url context path = true ↔
      policy.resolveAccess url context path = .write := by
  rw [canWritePath_withEntries_iff hkind h, and_iff_left_iff_imp]
  refine fun _ => .inr fun found hfound => ?_
  obtain ⟨entry, hentry, hfirst⟩ := List.exists_of_findSome?_eq_some hfound
  exact hreopened _ (mem_protectedDirs_of_firstProtected (h.mem_iff.mp hentry) hfirst)

/-- If no first protected directory is reopened, the path must lie in none. -/
theorem canWritePath_of_not_reopensFirst {entries : List FileSystemSandboxEntry}
    (hkind : policy.kind = .restricted) (h : entries.Perm policy.entries)
    (hfirst : ¬ policy.ReopensFirst url context path) :
    (policy.withEntries entries).canWritePath url context path = true ↔
      policy.resolveAccess url context path = .write ∧
        (policy.hasFullDiskWriteAccessWithContext context = true ∨
          ∀ entry ∈ policy.entries, firstProtected url context path entry = none) := by
  have hclosed : (∀ found, entries.findSome? (firstProtected url context path) = some found →
      policy.reopens url context path found.1 = true) ↔
      ∀ entry ∈ policy.entries, firstProtected url context path entry = none := by
    constructor
    · intro hall entry hentry
      refine List.findSome?_eq_none_iff.mp ?_ entry (h.mem_iff.mpr hentry)
      refine Option.eq_none_iff_forall_ne_some.mpr fun found hfound => ?_
      obtain ⟨other, hother, hsome⟩ := List.exists_of_findSome?_eq_some hfound
      exact hfirst ⟨other, h.mem_iff.mp hother, found, hsome, hall found hfound⟩
    · intro hnone found hfound
      obtain ⟨other, hother, hsome⟩ := List.exists_of_findSome?_eq_some hfound
      rw [hnone other (h.mem_iff.mp hother)] at hsome
      cases hsome
  rw [canWritePath_withEntries_iff hkind h, hclosed]

/-- A criterion for the answer that does not mention the order makes it independent of the order. -/
theorem canWritePath_eq_of_iff {p : Prop}
    (h : ∀ entries, entries.Perm policy.entries →
      ((policy.withEntries entries).canWritePath url context path = true ↔ p))
    (entries : List FileSystemSandboxEntry) (hperm : entries.Perm policy.entries) :
    (policy.withEntries entries).canWritePath url context path =
      policy.canWritePath url context path := by
  rw [Bool.eq_iff_iff, h entries hperm]
  exact (h policy.entries (.refl _)).symm

/-- The write check protects metadata in every order of the entries exactly if the first protected
directories that the entries give are all closed, unless all protected directories are reopened or
the check does not get to them. -/
theorem metadataProtected_iff (hkind : policy.kind = .restricted) :
    MetadataProtected url policy context path ↔
      policy.resolveAccess url context path ≠ .write ∨
      policy.hasFullDiskWriteAccessWithContext context = true ∨
      policy.Reopened url context path ∨ ¬ policy.ReopensFirst url context path := by
  constructor
  · intro h
    by_contra hnot
    push Not at hnot
    obtain ⟨haccess, hdisk, hreopened, hfirst⟩ := hnot
    obtain ⟨entries, hperm, hwrite⟩ := exists_perm_canWritePath hkind haccess hfirst
    rw [h.order entries hperm] at hwrite
    exact hreopened (h.reopened (Bool.not_eq_true _ ▸ hdisk) hwrite)
  · rintro (haccess | hdisk | hreopened | hfirst)
    · have hnever : ∀ entries, entries.Perm policy.entries →
          ((policy.withEntries entries).canWritePath url context path = true ↔ False) := by
        intro entries hperm
        simp [canWritePath_withEntries_iff hkind hperm, haccess]
      exact ⟨canWritePath_eq_of_iff hnever,
        fun _ hwrite => ((hnever policy.entries (.refl _)).mp hwrite).elim⟩
    · have hwrite : ∀ entries, entries.Perm policy.entries →
          ((policy.withEntries entries).canWritePath url context path = true ↔
            policy.resolveAccess url context path = .write) := by
        intro entries hperm
        rw [canWritePath_withEntries_iff hkind hperm, and_iff_left (.inl hdisk)]
      exact ⟨canWritePath_eq_of_iff hwrite, by simp [hdisk]⟩
    · exact ⟨canWritePath_eq_of_iff fun entries hperm =>
        canWritePath_of_reopened hkind hperm hreopened, fun _ _ => hreopened⟩
    · refine ⟨canWritePath_eq_of_iff fun entries hperm =>
        canWritePath_of_not_reopensFirst hkind hperm hfirst, fun hdisk hwrite dir hdir => ?_⟩
      -- a writable path would have no protected directory
      have hnone := ((canWritePath_of_not_reopensFirst hkind (.refl _) hfirst).mp hwrite).2
      obtain ⟨entry, hentry, found, hfound⟩ := exists_firstProtected hdir
      rw [hnone.resolve_left (by simp [hdisk]) entry hentry] at hfound
      cases hfound

/-! ## Nested writable roots -/

def writeEntry (path : PathUri) : FileSystemSandboxEntry := .new (.path path) .write

/-- A writable root inside the protected directory of another one. -/
def nestedRoots : FileSystemSandboxPolicy :=
  .restricted [writeEntry (localFile ["a"]), writeEntry (localFile ["a", ".git", "b"])]

/-- The metadata of the inner root is written in this order of the entries, though nothing reopens
it, and not in the other one. -/
theorem nested_metadata_written :
    nestedRoots.hasFullDiskWriteAccessWithContext rootContext = false ∧
    nestedRoots.canWritePath plainUrl rootContext (localFile ["a", ".git", "b", ".git", "x"]) = true ∧
    (nestedRoots.withEntries nestedRoots.entries.reverse).canWritePath plainUrl rootContext
      (localFile ["a", ".git", "b", ".git", "x"]) = false ∧
    localFile ["a", ".git", "b", ".git"] ∈ nestedRoots.protectedDirs plainUrl rootContext
      (localFile ["a", ".git", "b", ".git", "x"]) ∧
    nestedRoots.reopens plainUrl rootContext (localFile ["a", ".git", "b", ".git", "x"])
      (localFile ["a", ".git", "b", ".git"]) = false := by
  decide +kernel

/-- The protected directory of the outer root is reopened for what is below the inner one. -/
theorem metadata_protected_below_inner_root :
    nestedRoots.canWritePath plainUrl rootContext (localFile ["a", ".git", "b", "x"]) = true ∧
    MetadataProtected plainUrl nestedRoots rootContext (localFile ["a", ".git", "b", "x"]) := by
  have hreopened : nestedRoots.Reopened plainUrl rootContext (localFile ["a", ".git", "b", "x"]) := by
    unfold Reopened
    decide +kernel
  exact ⟨by decide +kernel, (metadataProtected_iff rfl).mpr (.inr (.inr (.inl hreopened)))⟩

end FileSystemSandboxPolicy

end SpineCodex
