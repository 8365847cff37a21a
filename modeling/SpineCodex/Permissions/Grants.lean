import SpineCodex.Permissions.Intersection
import SpineCodex.Permissions.Precedence

/-!
# Grants and requests

What the intersection gives to a path, the request and the grant give too, as far as they do not deny
it: every denial that meets an accepted root is kept. A read entry of the request or of the grant
below an accepted write root is not kept, so there the intersection can give more.
-/

namespace SpineCodex

open PathUri (UrlRules plainUrl localFile)

/-! ## Intersections of rules -/

section Rules

variable {α : Type*} [DecidableEq α]

/-- What the accepted rules and the kept denials of two rule lists satisfy. -/
structure Intersects (requested granted rules : List (List α × FileSystemAccessMode)) : Prop where
  accepted : ∀ rule ∈ rules, rule.2 ≠ .deny →
    rule ∈ granted ∧ ∃ trail mode, Decides requested rule.1 trail mode ∧ mode ≠ .deny
  kept : ∀ rule ∈ rules, rule.2 ≠ .deny → ∀ trail, (trail, .deny) ∈ requested ∨ (trail, .deny) ∈ granted →
    trail <+: rule.1 ∨ rule.1 <+: trail → (trail, .deny) ∈ rules

variable {requested granted rules : List (List α × FileSystemAccessMode)} {position trail : List α}
  {mode : FileSystemAccessMode}

/-- The request does not deny what the intersection gives. -/
theorem Intersects.decides_requested (h : Intersects requested granted rules)
    (hdecides : Decides rules position trail mode) (hmode : mode ≠ .deny) :
    ∃ trail' mode', Decides requested position trail' mode' ∧ mode' ≠ .deny := by
  obtain ⟨-, root, rootMode, hroot, hrootMode⟩ := h.accepted _ hdecides.mem hmode
  have habove := hroot.above.trans hdecides.above
  obtain ⟨trail', mode', hdecides'⟩ := exists_decides hroot.mem habove
  refine ⟨trail', mode', hdecides', ?_⟩
  rintro rfl
  -- a denial at the position is kept, so it lies above the accepted root and is overridden there
  have hkept := h.kept _ hdecides.mem hmode trail' (.inl hdecides'.mem)
    (List.prefix_or_prefix_of_prefix hdecides'.above hdecides.above)
  have hlt := hdecides.length_lt hmode hkept hdecides'.above
  have hover := List.prefix_of_prefix_length_le hdecides'.above hdecides.above hlt.le
  have hlt' := hroot.length_lt hrootMode hdecides'.mem hover
  have hle := hdecides'.length_le hroot.mem habove
  dsimp only at hle
  omega

/-- The grant does not deny what the intersection gives. -/
theorem Intersects.decides_granted (h : Intersects requested granted rules)
    (hdecides : Decides rules position trail mode) (hmode : mode ≠ .deny) :
    ∃ trail' mode', Decides granted position trail' mode' ∧ mode' ≠ .deny := by
  have hmem := (h.accepted _ hdecides.mem hmode).1
  obtain ⟨trail', mode', hdecides'⟩ := exists_decides hmem hdecides.above
  refine ⟨trail', mode', hdecides', ?_⟩
  rintro rfl
  have hkept := h.kept _ hdecides.mem hmode trail' (.inr hdecides'.mem)
    (List.prefix_or_prefix_of_prefix hdecides'.above hdecides.above)
  have hlt := hdecides.length_lt hmode hkept hdecides'.above
  have hle := hdecides'.length_le hmem hdecides.above
  dsimp only at hle
  omega

end Rules

/-! ## Entries and their roots -/

section Entries

variable {rules : GlobRules} {context : FileSystemSandboxPolicyContext}

/-- Equal paths have the same locations in the convention of a POSIX context. -/
theorem filter_entryPaths_congr {url : UrlRules} (hposix : context.cwd.inferPathConvention = some .posix)
    {left right : FileSystemPath} (h : left.eq right = true) :
    (entryPaths url context left).filter
        (·.inferPathConvention == context.cwd.inferPathConvention) =
      (entryPaths url context right).filter
        (·.inferPathConvention == context.cwd.inferPathConvention) := by
  rw [FileSystemPath.eq.eq_def] at h
  split at h
  · rename_i left right
    have hconvention := PathUri.inferPathConvention_of_eq h
    by_cases hleft : left.inferPathConvention = some .posix
    · rw [(PathUri.eq_iff_of_posix hleft).mp h]
    · have hright : right.inferPathConvention ≠ some .posix := hconvention ▸ hleft
      simp [entryPaths, hposix, hleft, hright]
  · rw [beq_iff_eq.mp h]

/-- Equal entries have the same roots. -/
theorem resolvedEntry_congr {url : UrlRules} (hposix : context.cwd.inferPathConvention = some .posix)
    {left right : FileSystemSandboxEntry} (h : left.eq right = true) :
    resolvedEntry url context left = resolvedEntry url context right := by
  simp only [FileSystemSandboxEntry.eq, Bool.and_eq_true, beq_iff_eq] at h
  obtain ⟨⟨hpath, haccess⟩, -⟩ := h
  rw [resolvedEntry, resolvedEntry, filter_entryPaths_congr hposix hpath, haccess]

/-- What holds of some entry, and equal ones alike, holds of one that was there or was appended. -/
theorem exists_mem_pushMissing {p : FileSystemSandboxEntry → Prop}
    (hp : ∀ left right, left.eq right = true → (p left ↔ p right))
    {entries rest : List FileSystemSandboxEntry} :
    (∃ entry ∈ pushMissing entries rest, p entry) ↔
      (∃ entry ∈ entries, p entry) ∨ ∃ entry ∈ rest, p entry := by
  induction rest generalizing entries with
  | nil => simp [pushMissing]
  | cons entry rest ih =>
    rw [pushMissing, ih, List.exists_mem_cons_iff, ← or_assoc]
    apply or_congr_left
    split_ifs with hany
    · obtain ⟨other, hother, heq⟩ := List.any_eq_true.mp hany
      exact (or_iff_left_of_imp fun h => ⟨other, hother, (hp other entry heq).mpr h⟩).symm
    · simp [or_and_right, exists_or]

theorem subset_pushMissing {entries rest : List FileSystemSandboxEntry} :
    entries ⊆ pushMissing entries rest := by
  induction rest generalizing entries with
  | nil => exact fun _ h => h
  | cons entry rest ih =>
    rw [pushMissing]
    refine List.Subset.trans ?_ ih
    split_ifs
    · exact fun _ h => h
    · exact List.subset_append_left _ _

theorem mem_pushMissing {entries rest : List FileSystemSandboxEntry} {entry : FileSystemSandboxEntry}
    (h : entry ∈ pushMissing entries rest) : entry ∈ entries ∨ entry ∈ rest := by
  induction rest generalizing entries with
  | nil => exact .inl h
  | cons other rest ih =>
    rcases ih h with h | h
    · split_ifs at h
      · exact .inl h
      · rcases List.mem_append.mp h with h | h
        · exact .inl h
        · exact .inr (List.mem_cons.mpr (.inl (List.mem_singleton.mp h)))
    · exact .inr (List.mem_cons_of_mem _ h)

/-- What a traversal writes out has the roots of what it was written out from. -/
theorem flatMap_flatten_of_mapM {ι β γ : Type*} {f : ι → Option (List β)} {g : β → List γ}
    {h : ι → List γ} {xs : List ι} {yss : List (List β)} (hmap : xs.mapM f = some yss)
    (hf : ∀ x ∈ xs, ∀ ys, f x = some ys → ys.flatMap g = h x) :
    yss.flatten.flatMap g = xs.flatMap h := by
  induction xs generalizing yss with
  | nil =>
    cases hmap
    rfl
  | cons x xs ih =>
    obtain ⟨ys, rest, hys, hrest, rfl⟩ := option_mapM_cons_eq_some.mp hmap
    rw [List.flatten_cons, List.flatMap_append, List.flatMap_cons, hf x List.mem_cons_self ys hys,
      ih hrest fun x' hx' => hf x' (List.mem_cons_of_mem _ hx')]

theorem resolvedEntry_materializedPathEntry {url : UrlRules} {entry : FileSystemSandboxEntry}
    {path : PathUri} :
    resolvedEntry url context (materializedPathEntry entry path) =
      ([path].filter (·.inferPathConvention == context.cwd.inferPathConvention)).map
        fun path => (path, entry.access) :=
  rfl

/-- The roots of a workspace-root entry, one workspace root after the other. -/
theorem resolvedEntry_projectRoots {url : UrlRules} {subpath : Option (List Char)}
    {access : FileSystemAccessMode} {skips : Bool} :
    resolvedEntry url context ⟨.special (.projectRoots subpath), access, skips⟩ =
      context.workspaceRoots.flatMap fun root =>
        ((subpath.elim (some root) fun subpath => (root.join url subpath).toOption).toList.filter
          (·.inferPathConvention == context.cwd.inferPathConvention)).map fun path => (path, access) := by
  rw [resolvedEntry, entryPaths, List.filterMap_eq_flatMap_toList, List.filter_flatMap,
    List.map_flatMap]
  cases subpath with
  | none => rfl
  | some subpath => rfl

theorem orVoid_eq_some {entry : FileSystemSandboxEntry} {written : List FileSystemSandboxEntry}
    (h : orVoid entry = some written) : written = [] := by
  rw [orVoid, Option.ite_none_left_eq_some] at h
  exact (Option.some.inj h.2).symm

/-- What a workspace-root entry is written out to. -/
theorem materializeProjectRoots_eq_some {entry : FileSystemSandboxEntry}
    {written : List FileSystemSandboxEntry}
    (h : materializeProjectRoots rules context entry = some written) :
    ∃ resolved, (context.workspaceRoots.mapM fun root =>
      match resolvePermissionPath rules { context with workspaceRoots := [root] } entry.path with
      | some path => some [materializedPathEntry entry path]
      | none => orVoid entry) = some resolved ∧ written = resolved.flatten := by
  simp only [materializeProjectRoots, Option.bind_eq_bind, Option.bind_eq_some_iff] at h
  obtain ⟨resolved, hresolved, h⟩ := h
  refine ⟨resolved, hresolved, ?_⟩
  split_ifs at h with hnil
  · rw [orVoid_eq_some h, hnil]
  · exact (Option.some.inj h).symm

theorem flatMap_materializeProjectRoots {subpath : Option (List Char)} {access : FileSystemAccessMode}
    {skips : Bool} {written : List FileSystemSandboxEntry}
    (h : materializeProjectRoots rules context ⟨.special (.projectRoots subpath), access, skips⟩ =
      some written) :
    written.flatMap (resolvedEntry rules.toUrlRules context) =
      resolvedEntry rules.toUrlRules context ⟨.special (.projectRoots subpath), access, skips⟩ := by
  obtain ⟨resolved, hresolved, rfl⟩ := materializeProjectRoots_eq_some h
  rw [resolvedEntry_projectRoots]
  refine flatMap_flatten_of_mapM hresolved fun root _ ys hys => ?_
  have hpath : resolvePermissionPath rules { context with workspaceRoots := [root] }
      (.special (.projectRoots subpath)) =
      subpath.elim (some root) fun subpath => (root.join rules.toUrlRules subpath).toOption := by
    cases subpath with
    | none => rfl
    | some subpath => rfl
  rw [hpath] at hys
  split at hys
  · rename_i path hsome
    cases hys
    rw [hsome]
    simp [resolvedEntry_materializedPathEntry]
  · rename_i hnone
    rw [orVoid_eq_some hys, hnone]
    rfl

/-- A glob has no roots, and what it is written out to is a glob. -/
def IsGlob (entry : FileSystemSandboxEntry) : Prop := ∃ pattern, entry.path = .globPattern pattern

theorem IsGlob.resolvedEntry {url : UrlRules} {entry : FileSystemSandboxEntry} (h : IsGlob entry) :
    resolvedEntry url context entry = [] := by
  obtain ⟨pattern, hpath⟩ := h
  rw [SpineCodex.resolvedEntry, hpath]
  rfl

theorem materializeCwdDependentEntry_eq_some {entry written : FileSystemSandboxEntry}
    (h : materializeCwdDependentEntry rules context entry = some written) :
    written = entry ∨ (IsGlob entry ∧ IsGlob written ∧ written.access = entry.access) := by
  rw [materializeCwdDependentEntry] at h
  split at h
  · rename_i pattern hpath
    simp only [Option.bind_eq_bind, Option.bind_eq_some_iff, Option.pure_def] at h
    obtain ⟨_, -, _, -, h⟩ := h
    cases h
    exact .inr ⟨⟨pattern, hpath⟩, ⟨_, rfl⟩, rfl⟩
  · exact .inl (Option.some.inj h).symm

theorem isGlob_of_materializeCwdDependentEntry {entry : FileSystemSandboxEntry}
    (h : materializeCwdDependentEntry rules context entry = none) : IsGlob entry := by
  rw [materializeCwdDependentEntry] at h
  split at h
  · rename_i pattern hpath
    exact ⟨pattern, hpath⟩
  · cases h

theorem flatMap_filter_singleton {β γ : Type*} {p : β → Bool} {f : β → γ} {xs : List β} :
    (xs.flatMap fun x => ([x].filter p).map f) = (xs.filter p).map f := by
  induction xs with
  | nil => rfl
  | cons x xs ih =>
    rw [List.flatMap_cons, ih, ← List.map_append, ← List.filter_append]
    rfl

/-- An entry is written out without a change to its roots. -/
theorem flatMap_materializeEntry {entry : FileSystemSandboxEntry} {written : List FileSystemSandboxEntry}
    (h : materializeEntry rules context entry = some written) :
    written.flatMap (resolvedEntry rules.toUrlRules context) =
      resolvedEntry rules.toUrlRules context entry := by
  obtain ⟨path, access, skips⟩ := entry
  rw [materializeEntry] at h
  split at h
  · rename_i hpath
    cases hpath
    exact flatMap_materializeProjectRoots h
  · rename_i hpath
    cases hpath
    split at h
    · rename_i directories hdirectories
      cases h
      simp only [List.flatMap_map, resolvedEntry_materializedPathEntry, flatMap_filter_singleton]
      simp only [resolvedEntry, entryPaths, hdirectories, Option.getD_some]
    · rw [Option.ite_none_left_eq_some] at h
      cases h.2
      simp
  · obtain ⟨top, -, rfl⟩ := Option.map_eq_some_iff.mp h
    simp
  · split at h
    · rename_i hentry
      cases h
      rw [List.flatMap_singleton]
      rcases materializeCwdDependentEntry_eq_some hentry with rfl | ⟨hglob, hglob', -⟩
      · rfl
      · rw [hglob.resolvedEntry, hglob'.resolvedEntry]
    · rename_i hentry
      rw [orVoid_eq_some h, (isGlob_of_materializeCwdDependentEntry hentry).resolvedEntry]
      rfl

/-- The roots of a list of entries do not change when it is written out. -/
theorem flatMap_materialize {entries written : List FileSystemSandboxEntry}
    (h : materializeContextDependentEntries rules context entries = some written) :
    written.flatMap (resolvedEntry rules.toUrlRules context) =
      entries.flatMap (resolvedEntry rules.toUrlRules context) := by
  obtain ⟨lists, hlists, rfl⟩ := Option.map_eq_some_iff.mp h
  exact flatMap_flatten_of_mapM hlists fun _ _ _ => flatMap_materializeEntry

/-- The locations of the entry are the one that permissions are resolved to, if any. -/
def HasOneLocation (rules : GlobRules) (context : FileSystemSandboxPolicyContext)
    (entry : FileSystemSandboxEntry) : Prop :=
  entryPaths rules.toUrlRules context entry.path =
    (resolvePermissionPath rules context entry.path).toList

theorem hasOneLocation_materializeEntry {entry : FileSystemSandboxEntry}
    {written : List FileSystemSandboxEntry} (h : materializeEntry rules context entry = some written) :
    ∀ entry' ∈ written, HasOneLocation rules context entry' := by
  intro entry' hentry'
  have hplain : ∀ path, HasOneLocation rules context (materializedPathEntry entry path) := fun _ => rfl
  rw [materializeEntry] at h
  split at h
  · -- each workspace root gives a plain path
    obtain ⟨resolved, hresolved, rfl⟩ := materializeProjectRoots_eq_some h
    obtain ⟨paths, hpaths, hmem⟩ := List.mem_flatten.mp hentry'
    obtain ⟨root, -, hpath⟩ := option_mapM_eq_some hresolved paths hpaths
    split at hpath
    · cases hpath
      rw [List.mem_singleton.mp hmem]
      exact hplain _
    · rw [orVoid_eq_some hpath] at hmem
      cases hmem
  · rename_i hpath
    split at h
    · cases h
      obtain ⟨path, -, rfl⟩ := List.mem_map.mp hentry'
      exact hplain path
    · rename_i hdirectories
      rw [Option.ite_none_left_eq_some] at h
      cases h.2
      obtain rfl := List.mem_singleton.mp hentry'
      simp [HasOneLocation, hpath, entryPaths, resolvePermissionPath, hdirectories]
  · rename_i hpath
    obtain ⟨top, -, rfl⟩ := Option.map_eq_some_iff.mp h
    obtain rfl := List.mem_singleton.mp hentry'
    simp [HasOneLocation, hpath, entryPaths, resolvePermissionPath]
  · rename_i hprojects htmpdir hroot
    split at h
    · rename_i hwritten
      cases h
      obtain rfl := List.mem_singleton.mp hentry'
      rcases materializeCwdDependentEntry_eq_some hwritten with rfl | ⟨-, ⟨pattern, hglob⟩, -⟩
      · rw [HasOneLocation]
        rcases hpath : entry'.path with path | pattern | value
        · rfl
        · rfl
        · cases value with
          | root => exact absurd hpath hroot
          | minimal => rfl
          | projectRoots subpath => exact absurd hpath (hprojects subpath)
          | tmpdir => exact absurd hpath htmpdir
          | slashTmp =>
            simp only [entryPaths, resolvePermissionPath]
            split_ifs <;> rfl
          | unknown path subpath => rfl
      · rw [HasOneLocation, hglob]
        rfl
    · rw [orVoid_eq_some h] at hentry'
      cases hentry'

theorem hasOneLocation_materialize {entries written : List FileSystemSandboxEntry}
    (h : materializeContextDependentEntries rules context entries = some written) :
    ∀ entry ∈ written, HasOneLocation rules context entry := by
  intro entry hentry
  obtain ⟨lists, hlists, rfl⟩ := Option.map_eq_some_iff.mp h
  obtain ⟨written, hwritten, hmem⟩ := List.mem_flatten.mp hentry
  obtain ⟨source, -, hwritten⟩ := option_mapM_eq_some hlists written hwritten
  exact hasOneLocation_materializeEntry hwritten entry hmem

end Entries

/-! ## The intersection of two profiles -/

/-- The file-system entries of a profile as a policy. -/
def AdditionalPermissionProfile.policy (profile : AdditionalPermissionProfile) :
    FileSystemSandboxPolicy :=
  .restricted profile.entries

section Profiles

variable {rules : GlobRules} {context : FileSystemSandboxPolicyContext}
  {requested granted : AdditionalPermissionProfile} {path : PathUri}

/-- The accepted ones of the granted entries. -/
def acceptedEntries (rules : GlobRules) (context : FileSystemSandboxPolicyContext)
    (requested requestedEntries grantedEntries : List FileSystemSandboxEntry) :
    List FileSystemSandboxEntry :=
  pushMissing [] (grantedEntries.filter
    (grantedFileSystemEntryWithinRequest rules requested requestedEntries context))

/-- How the entries of an intersection come about. -/
structure Intersected (rules : GlobRules) (context : FileSystemSandboxPolicyContext)
    (requested granted entries requestedEntries grantedEntries accepted : List FileSystemSandboxEntry) :
    Prop where
  requestedEntries_eq :
    materializeContextDependentEntries rules context requested = some requestedEntries
  grantedEntries_eq : materializeContextDependentEntries rules context granted = some grantedEntries
  accepted_eq : accepted = acceptedEntries rules context requested requestedEntries grantedEntries
  entries_eq : entries = pushMissing (pushMissing accepted
    (retainConstrainingDenyEntries rules requestedEntries accepted context))
    (retainConstrainingDenyEntries rules grantedEntries accepted context)

theorem exists_intersected
    (h : (intersectPermissionProfilesWithContext rules requested granted context).entries ≠ []) :
    ∃ requestedEntries grantedEntries accepted,
      Intersected rules context requested.entries granted.entries
        (intersectPermissionProfilesWithContext rules requested granted context).entries
        requestedEntries grantedEntries accepted := by
  rcases hresult : (intersectPermissionProfilesWithContext rules requested granted context).fileSystem
    with _ | fileSystem
  · simp [AdditionalPermissionProfile.entries, hresult] at h
  · have hentries : (intersectPermissionProfilesWithContext rules requested granted context).entries =
        fileSystem.entries := by
      simp [AdditionalPermissionProfile.entries, hresult]
    rw [hentries]
    simp only [intersectPermissionProfilesWithContext, Option.filter_eq_some_iff,
      Option.bind_eq_some_iff, intersectFileSystem, Option.bind_eq_bind, Option.pure_def] at hresult
    obtain ⟨⟨requestedFileSystem, hrequested, requestedEntries, hrequestedEntries, grantedEntries,
      hgrantedEntries, heq⟩, -⟩ := hresult
    have hgranted : (granted.fileSystem.getD ⟨[], none⟩).entries = granted.entries := by
      cases hfs : granted.fileSystem <;> simp [AdditionalPermissionProfile.entries, hfs]
    have hrequested' : requestedFileSystem.entries = requested.entries := by
      simp [AdditionalPermissionProfile.entries, hrequested]
    rw [hgranted] at hgrantedEntries
    rw [hrequested'] at hrequestedEntries heq
    cases heq
    exact ⟨requestedEntries, grantedEntries, _, hrequestedEntries, hgrantedEntries, rfl, rfl⟩

theorem ne_deny_of_accessCovers {requested granted : FileSystemAccessMode}
    (h : accessCovers requested granted = true) : requested ≠ .deny := by
  cases granted <;> cases requested <;> simp_all [accessCovers, FileSystemAccessMode.canRead,
    FileSystemAccessMode.canWrite]

/-- The request gives its access to the root of an entry that is within it. -/
theorem accessCovers_of_within {requested requestedEntries : List FileSystemSandboxEntry}
    {entry : FileSystemSandboxEntry} {root : PathUri}
    (h : grantedFileSystemEntryWithinRequest rules requested requestedEntries context entry = true)
    (hroot : resolvePermissionPath rules context entry.path = some root) :
    accessCovers ((FileSystemSandboxPolicy.restricted requestedEntries).resolveAccess rules.toUrlRules
      context root) entry.access = true := by
  rw [grantedFileSystemEntryWithinRequest, hroot] at h
  dsimp only at h
  split_ifs at h
  exact h

theorem root_of_mem_resolvedEntry {entry : FileSystemSandboxEntry}
    {root : PathUri × FileSystemAccessMode} (hone : HasOneLocation rules context entry)
    (h : root ∈ resolvedEntry rules.toUrlRules context entry) :
    resolvePermissionPath rules context entry.path = some root.1 ∧ entry.access = root.2 := by
  rw [resolvedEntry, List.mem_map] at h
  obtain ⟨path, hpath, rfl⟩ := h
  have hmem := (List.mem_filter.mp hpath).1
  rw [hone, Option.mem_toList] at hmem
  exact ⟨hmem, rfl⟩

theorem access_of_mem_resolvedEntry {url : UrlRules} {entry : FileSystemSandboxEntry}
    {root : PathUri × FileSystemAccessMode} (h : root ∈ resolvedEntry url context entry) :
    entry.access = root.2 := by
  obtain ⟨path, -, rfl⟩ := List.mem_map.mp h
  rfl

namespace Intersected

variable {requested granted entries requestedEntries grantedEntries accepted :
  List FileSystemSandboxEntry}

/-- The roots of the intersection are those of the accepted grants and of the kept denials. -/
theorem mem_flatMap
    (h : Intersected rules context requested granted entries requestedEntries grantedEntries accepted)
    (hposix : context.cwd.inferPathConvention = some .posix) {root : PathUri × FileSystemAccessMode} :
    root ∈ entries.flatMap (resolvedEntry rules.toUrlRules context) ↔
      root ∈ accepted.flatMap (resolvedEntry rules.toUrlRules context) ∨
      root ∈ (retainConstrainingDenyEntries rules requestedEntries accepted context).flatMap
        (resolvedEntry rules.toUrlRules context) ∨
      root ∈ (retainConstrainingDenyEntries rules grantedEntries accepted context).flatMap
        (resolvedEntry rules.toUrlRules context) := by
  have hcongr : ∀ left right : FileSystemSandboxEntry, left.eq right = true →
      (root ∈ resolvedEntry rules.toUrlRules context left ↔
        root ∈ resolvedEntry rules.toUrlRules context right) := by
    intro left right heq
    rw [resolvedEntry_congr hposix heq]
  simp only [List.mem_flatMap]
  rw [h.entries_eq, exists_mem_pushMissing hcongr, exists_mem_pushMissing hcongr, or_assoc]

/-- A root that is not denied comes from an accepted grant. -/
theorem exists_accepted
    (h : Intersected rules context requested granted entries requestedEntries grantedEntries accepted)
    (hposix : context.cwd.inferPathConvention = some .posix) {root : PathUri × FileSystemAccessMode}
    (hroot : root ∈ entries.flatMap (resolvedEntry rules.toUrlRules context)) (hmode : root.2 ≠ .deny) :
    ∃ entry ∈ accepted, root ∈ resolvedEntry rules.toUrlRules context entry := by
  have hdenied : ∀ source, root ∉ (retainConstrainingDenyEntries rules source accepted context).flatMap
      (resolvedEntry rules.toUrlRules context) := by
    intro source hmem
    obtain ⟨entry, hentry, hroot⟩ := List.mem_flatMap.mp hmem
    simp only [retainConstrainingDenyEntries, List.mem_filter, Bool.and_eq_true, beq_iff_eq] at hentry
    exact hmode ((access_of_mem_resolvedEntry hroot).symm.trans hentry.2.1)
  rcases (h.mem_flatMap hposix).mp hroot with haccepted | hkept | hkept
  · exact List.mem_flatMap.mp haccepted
  · exact absurd hkept (hdenied _)
  · exact absurd hkept (hdenied _)

/-- An accepted entry is one of the granted and within the request. -/
theorem within
    (h : Intersected rules context requested granted entries requestedEntries grantedEntries accepted)
    {entry : FileSystemSandboxEntry} (hentry : entry ∈ accepted) :
    entry ∈ grantedEntries ∧
      grantedFileSystemEntryWithinRequest rules requested requestedEntries context entry = true := by
  rw [h.accepted_eq] at hentry
  rcases mem_pushMissing hentry with hentry | hentry
  · cases hentry
  · exact List.mem_filter.mp hentry

/-- A denied root that meets the root of an accepted grant is kept. -/
theorem mem_retain {source : List FileSystemSandboxEntry} {entry : FileSystemSandboxEntry}
    {root denied : PathUri} {mode : FileSystemAccessMode} {t s : List (List UInt8)}
    (hsource : ∀ entry ∈ source, HasOneLocation rules context entry)
    (hentry : entry ∈ accepted) (hone : HasOneLocation rules context entry)
    (hroot : (root, mode) ∈ resolvedEntry rules.toUrlRules context entry) (hmode : mode ≠ .deny)
    (ht : root.trail = some t)
    (hdenied : (denied, .deny) ∈ source.flatMap (resolvedEntry rules.toUrlRules context))
    (hs : denied.trail = some s) (hmeet : s <+: t ∨ t <+: s) :
    (denied, .deny) ∈ (retainConstrainingDenyEntries rules source accepted context).flatMap
      (resolvedEntry rules.toUrlRules context) := by
  obtain ⟨deny, hdeny, hmem⟩ := List.mem_flatMap.mp hdenied
  obtain ⟨hdenyPath, hdenyAccess⟩ := root_of_mem_resolvedEntry (hsource deny hdeny) hmem
  obtain ⟨hpath, haccess⟩ := root_of_mem_resolvedEntry hone hroot
  refine List.mem_flatMap.mpr ⟨deny, ?_, hmem⟩
  have hoverlap : pathsOverlap denied root = true := by
    rw [pathsOverlap, PathUri.overlaps_of_isPrefix hs ht hmeet.symm]
    rfl
  simp only [retainConstrainingDenyEntries, List.mem_filter, Bool.and_eq_true, beq_iff_eq]
  refine ⟨hdeny, hdenyAccess, ?_⟩
  rw [denyEntryConstrainsAcceptedGrant, List.any_eq_true]
  refine ⟨entry, List.mem_filter.mpr ⟨hentry, ?_⟩, ?_⟩
  · rw [FileSystemAccessMode.canRead_eq_true, haccess]
    exact hmode
  · rw [Bool.or_eq_true, hpath]
    right
    cases hglob : deny.path with
    | globPattern pattern =>
      rw [hglob] at hdenyPath
      cases hdenyPath
    | path path =>
      rw [hglob] at hdenyPath
      simp [hdenyPath, hoverlap]
    | special value =>
      rw [hglob] at hdenyPath
      simp [hdenyPath, hoverlap]

/-- The rules of the intersection, compared with those of the request and of the grant. -/
theorem intersects
    (h : Intersected rules context requested granted entries requestedEntries grantedEntries accepted)
    (hposix : context.cwd.inferPathConvention = some .posix) :
    Intersects ((FileSystemSandboxPolicy.restricted requested).rules rules.toUrlRules context)
      ((FileSystemSandboxPolicy.restricted granted).rules rules.toUrlRules context)
      ((FileSystemSandboxPolicy.restricted entries).rules rules.toUrlRules context) := by
  have hrequested := flatMap_materialize h.requestedEntries_eq
  have hgranted := flatMap_materialize h.grantedEntries_eq
  have hones := hasOneLocation_materialize h.grantedEntries_eq
  constructor
  · intro rule hrule hmode
    obtain ⟨root, hroot, htrail⟩ := FileSystemSandboxPolicy.mem_rules.mp hrule
    obtain ⟨entry, hentry, hmem⟩ := h.exists_accepted hposix hroot hmode
    obtain ⟨hgrantedEntry, hwithin⟩ := h.within hentry
    constructor
    · refine FileSystemSandboxPolicy.mem_rules.mpr ⟨root, ?_, htrail⟩
      change _ ∈ granted.flatMap _
      rw [← hgranted]
      exact List.mem_flatMap.mpr ⟨entry, hgrantedEntry, hmem⟩
    · obtain ⟨hpath, -⟩ := root_of_mem_resolvedEntry (hones entry hgrantedEntry) hmem
      have hdeny := ne_deny_of_accessCovers (accessCovers_of_within hwithin hpath)
      obtain ⟨-, trail, hdecides⟩ :=
        (FileSystemSandboxPolicy.resolveAccess_eq_iff rfl hposix htrail hdeny).mp rfl
      refine ⟨trail, _, ?_, hdeny⟩
      have hrules : (FileSystemSandboxPolicy.restricted requestedEntries).rules rules.toUrlRules context =
          (FileSystemSandboxPolicy.restricted requested).rules rules.toUrlRules context :=
        congrArg (List.filterMap _) hrequested
      exact hrules ▸ hdecides
  · intro rule hrule hmode trail hdenied hmeet
    obtain ⟨root, hroot, htrail⟩ := FileSystemSandboxPolicy.mem_rules.mp hrule
    obtain ⟨entry, hentry, hmem⟩ := h.exists_accepted hposix hroot hmode
    have hone := hones entry (h.within hentry).1
    rcases hdenied with hdenied | hdenied
    · obtain ⟨denied, hdenied, hs⟩ := FileSystemSandboxPolicy.mem_rules.mp hdenied
      refine FileSystemSandboxPolicy.mem_rules.mpr
        ⟨denied, (h.mem_flatMap hposix).mpr (.inr (.inl ?_)), hs⟩
      exact mem_retain (hasOneLocation_materialize h.requestedEntries_eq) hentry hone hmem hmode htrail
        (hrequested ▸ hdenied) hs hmeet
    · obtain ⟨denied, hdenied, hs⟩ := FileSystemSandboxPolicy.mem_rules.mp hdenied
      refine FileSystemSandboxPolicy.mem_rules.mpr
        ⟨denied, (h.mem_flatMap hposix).mpr (.inr (.inr ?_)), hs⟩
      exact mem_retain hones hentry hone hmem hmode htrail (hgranted ▸ hdenied) hs hmeet

/-- Where the intersection gives access, the request has no ambiguous root. -/
theorem unambiguous_requested
    (h : Intersected rules context requested granted entries requestedEntries grantedEntries accepted)
    (hposix : context.cwd.inferPathConvention = some .posix)
    {rule : List (List UInt8) × FileSystemAccessMode}
    (hrule : rule ∈ (FileSystemSandboxPolicy.restricted entries).rules rules.toUrlRules context)
    (hmode : rule.2 ≠ .deny) :
    (FileSystemSandboxPolicy.restricted requested).hasAmbiguousRoot rules.toUrlRules context = false := by
  obtain ⟨root, hroot, -⟩ := FileSystemSandboxPolicy.mem_rules.mp hrule
  obtain ⟨entry, hentry, hmem⟩ := h.exists_accepted hposix hroot hmode
  obtain ⟨hgrantedEntry, hwithin⟩ := h.within hentry
  have hone := hasOneLocation_materialize h.grantedEntries_eq entry hgrantedEntry
  obtain ⟨hpath, -⟩ := root_of_mem_resolvedEntry hone hmem
  have hdeny := ne_deny_of_accessCovers (accessCovers_of_within hwithin hpath)
  have hresolves := FileSystemSandboxPolicy.resolves_of_resolveAccess rfl hdeny
  rw [← hresolves.unambiguous]
  exact congrArg (List.any · _) (flatMap_materialize h.requestedEntries_eq).symm

end Intersected

/-- The intersection, taken as a policy. -/
def intersection (rules : GlobRules) (requested granted : AdditionalPermissionProfile)
    (context : FileSystemSandboxPolicyContext) : FileSystemSandboxPolicy :=
  (intersectPermissionProfilesWithContext rules requested granted context).policy

/-- Where the intersection gives access, its entries come about as described and a rule decides. -/
theorem exists_decides_intersection (hposix : context.cwd.inferPathConvention = some .posix)
    (h : (intersection rules requested granted context).resolveAccess rules.toUrlRules context path ≠
      .deny) :
    ∃ requestedEntries grantedEntries accepted t trail mode,
      Intersected rules context requested.entries granted.entries
        (intersectPermissionProfilesWithContext rules requested granted context).entries
        requestedEntries grantedEntries accepted ∧
      Comparable context path ∧ path.trail = some t ∧
      Decides ((intersection rules requested granted context).rules rules.toUrlRules context) t trail
        mode ∧ mode ≠ .deny := by
  have hresolves := FileSystemSandboxPolicy.resolves_of_resolveAccess rfl h
  obtain ⟨t, ht⟩ := hresolves.exists_trail hposix
  obtain ⟨-, trail, hdecides⟩ := (FileSystemSandboxPolicy.resolveAccess_eq_iff rfl hposix ht h).mp rfl
  have hentries : (intersectPermissionProfilesWithContext rules requested granted context).entries ≠ [] := by
    intro hnil
    have hmem := hdecides.mem
    rw [intersection, AdditionalPermissionProfile.policy, hnil] at hmem
    cases hmem
  obtain ⟨requestedEntries, grantedEntries, accepted, hintersected⟩ := exists_intersected hentries
  exact ⟨_, _, _, t, trail, _, hintersected, hresolves.comparable, ht, hdecides, h⟩

/-- The request denies nothing that the intersection gives. -/
theorem requested_ne_deny (hposix : context.cwd.inferPathConvention = some .posix)
    (h : (intersection rules requested granted context).resolveAccess rules.toUrlRules context path ≠
      .deny) :
    requested.policy.resolveAccess rules.toUrlRules context path ≠ .deny := by
  obtain ⟨_, _, _, t, trail, mode, hintersected, hcomparable, ht, hdecides, hmode⟩ :=
    exists_decides_intersection hposix h
  obtain ⟨trail', mode', hdecides', hmode'⟩ :=
    (hintersected.intersects hposix).decides_requested hdecides hmode
  have hambiguous := hintersected.unambiguous_requested hposix hdecides.mem hmode
  exact FileSystemSandboxPolicy.ne_deny_of_decides rfl hposix ht ⟨hcomparable, hambiguous⟩ hdecides' hmode'

/-- The grant denies nothing that the intersection gives, unless it has an ambiguous root. -/
theorem granted_ne_deny (hposix : context.cwd.inferPathConvention = some .posix)
    (h : (intersection rules requested granted context).resolveAccess rules.toUrlRules context path ≠
      .deny)
    (hambiguous : granted.policy.hasAmbiguousRoot rules.toUrlRules context = false) :
    granted.policy.resolveAccess rules.toUrlRules context path ≠ .deny := by
  obtain ⟨_, _, _, t, trail, mode, hintersected, hcomparable, ht, hdecides, hmode⟩ :=
    exists_decides_intersection hposix h
  obtain ⟨trail', mode', hdecides', hmode'⟩ :=
    (hintersected.intersects hposix).decides_granted hdecides hmode
  exact FileSystemSandboxPolicy.ne_deny_of_decides rfl hposix ht ⟨hcomparable, hambiguous⟩ hdecides' hmode'

/-- What the intersection gives to a path that its deny globs do not match, the request and the grant
both give. -/
def GivesNoMore (rules : GlobRules) (requested granted : AdditionalPermissionProfile)
    (context : FileSystemSandboxPolicyContext) (path : PathUri) : Prop :=
  ∀ wanted, (intersection rules requested granted context).globMatches rules context path = false →
    accessCovers ((intersection rules requested granted context).resolveAccess rules.toUrlRules context
      path) wanted = true →
    accessCovers (requested.policy.resolveAccess rules.toUrlRules context path) wanted = true ∧
      accessCovers (granted.policy.resolveAccess rules.toUrlRules context path) wanted = true

/-- Where the intersection gives access, the grant has no ambiguous root, and where it lets the path
be written, no read entry decides for the request or the grant. -/
def NoReadEntryDropped (rules : GlobRules) (requested granted : AdditionalPermissionProfile)
    (context : FileSystemSandboxPolicyContext) (path : PathUri) : Prop :=
  (intersection rules requested granted context).globMatches rules context path = false →
    (intersection rules requested granted context).resolveAccess rules.toUrlRules context path ≠ .deny →
    granted.policy.hasAmbiguousRoot rules.toUrlRules context = false ∧
      ((intersection rules requested granted context).resolveAccess rules.toUrlRules context path =
          .write →
        requested.policy.resolveAccess rules.toUrlRules context path ≠ .read ∧
          granted.policy.resolveAccess rules.toUrlRules context path ≠ .read)

theorem accessCovers_of_ne {access wanted result : FileSystemAccessMode}
    (hresult : accessCovers result wanted = true) (hdeny : access ≠ .deny)
    (hread : result = .write → access ≠ .read) : accessCovers access wanted = true := by
  cases wanted <;> cases access <;> cases result <;>
    simp_all [accessCovers, FileSystemAccessMode.canRead, FileSystemAccessMode.canWrite]

end Profiles

/-! ## A read entry below a write root -/

def profileOf (entries : List (List String × FileSystemAccessMode)) : AdditionalPermissionProfile where
  network := none
  fileSystem := some ⟨entries.map fun entry => .new (.path (localFile entry.1)) entry.2, none⟩

end SpineCodex
