import SpineCodex.Permissions.Grants
import SpineCodex.Permissions.Materialize

/-!
# Denials after materialising and approving

A path that a denial of the policy covers is denied by its read-deny matcher. Materialising keeps
plain denials and replaces those for the workspace roots, so a covered path stays denied if some
replaced denial still covers it. For an approved command nothing else denies it.
-/

namespace SpineCodex

open PathUri (UrlRules plainUrl localFile)

variable {rules : GlobRules} {context : FileSystemSandboxPolicyContext} {path : PathUri}

/-! ## What a denial covers -/

/-- A denial of something other than the file-system root, or a deny glob, covers the path. -/
def FileSystemSandboxEntry.covers (rules : GlobRules) (context : FileSystemSandboxPolicyContext)
    (path : PathUri) (entry : FileSystemSandboxEntry) : Bool :=
  entry.access == .deny &&
    ((resolvedEntry rules.toUrlRules context entry).any (fun root =>
      !FileSystemSandboxPolicy.isFileSystemRoot context root.1 && path.startsWith root.1) ||
    match entry.path with
    | .globPattern pattern => globPatternMatches rules context path pattern
    | _ => false)

/-- Reading is denied, by the access of the path or by the read-deny matcher. -/
def FileSystemSandboxPolicy.deniesReading (rules : GlobRules) (policy : FileSystemSandboxPolicy)
    (context : FileSystemSandboxPolicyContext) (path : PathUri) : Bool :=
  policy.resolveAccess rules.toUrlRules context path == .deny ||
    ReadDenyMatcher.isReadDeniedUri rules policy context path

/-! ## Matchers -/

theorem buildGlobMatchers_failClosed {convention : PathConvention} (patterns : List (List Char)) :
    buildGlobMatchers rules convention .failClosed patterns =
      .ok (patterns.filterMap (buildGlobMatcher rules convention),
        patterns.any fun pattern => (buildGlobMatcher rules convention pattern).isNone) := by
  induction patterns with
  | nil => rfl
  | cons pattern patterns ih =>
    rw [buildGlobMatchers]
    cases hbuild : buildGlobMatcher rules convention pattern with
    | some matcher => simp [ih, hbuild, bind, Except.bind]
    | none => simp [ih, hbuild, bind, Except.bind]

theorem buildGlobMatchers_returnError {convention : PathConvention} {patterns : List (List Char)}
    {result : List (List UInt8 → Bool) × Bool}
    (h : buildGlobMatchers rules convention .returnError patterns = .ok result) :
    ∀ pattern ∈ patterns, (buildGlobMatcher rules convention pattern).isSome = true := by
  induction patterns generalizing result with
  | nil => simp
  | cons pattern patterns ih =>
    rw [buildGlobMatchers] at h
    cases hbuild : buildGlobMatcher rules convention pattern with
    | some matcher =>
      simp only [hbuild, except_bind_eq_ok] at h
      obtain ⟨rest, hrest, -⟩ := h
      intro other hother
      rcases List.mem_cons.mp hother with rfl | hother
      · rw [hbuild]
        rfl
      · exact ih hrest other hother
    | none =>
      simp [hbuild] at h

namespace FileSystemSandboxPolicy

variable {policy : FileSystemSandboxPolicy}

/-- Every deny glob can be resolved and compiled. -/
def GlobsValid (rules : GlobRules) (policy : FileSystemSandboxPolicy)
    (context : FileSystemSandboxPolicyContext) : Prop :=
  ∀ pattern ∈ policy.denyGlobPatterns, ∃ text, denyReadGlob rules context pattern = .ok text ∧
    (buildGlobMatcher rules .posix text).isSome = true

theorem globPatternMatches_iff (hposix : context.cwd.inferPathConvention = some .posix)
    {pattern : List Char} :
    globPatternMatches rules context path pattern = true ↔
      ∃ text matcher, denyReadGlob rules context pattern = .ok text ∧
        buildGlobMatcher rules .posix text = some matcher ∧
        matcher (globCandidate rules .posix path) = true := by
  simp only [globPatternMatches, hposix]
  cases denyReadGlob rules context pattern with
  | error e => simp
  | ok text => simp [Option.any_eq_true]

theorem mem_denyGlobPatterns {pattern : List Char} :
    pattern ∈ policy.denyGlobPatterns ↔
      ∃ entry ∈ policy.entries, entry.access = .deny ∧ entry.path = .globPattern pattern := by
  simp only [denyGlobPatterns, List.mem_filterMap]
  refine exists_congr fun entry => and_congr_right fun _ => ?_
  constructor
  · intro h
    split at h
    · rename_i haccess hpath
      cases h
      exact ⟨haccess, hpath⟩
    · cases h
  · rintro ⟨haccess, hpath⟩
    rw [haccess, hpath]

/-- The path is covered by a denied root or a glob. -/
theorem exists_covers_iff :
    (∃ entry ∈ policy.entries, entry.covers rules context path = true) ↔
      (∃ root ∈ policy.deniedRoots rules context, path.startsWith root = true) ∨
        policy.globMatches rules context path = true := by
  simp only [mem_deniedRoots, globMatches, List.any_eq_true, mem_denyGlobPatterns, resolvedEntries,
    List.mem_flatMap]
  constructor
  · rintro ⟨entry, hentry, hcovers⟩
    simp only [FileSystemSandboxEntry.covers, Bool.and_eq_true, beq_iff_eq, Bool.or_eq_true,
      List.any_eq_true, Bool.not_eq_true'] at hcovers
    obtain ⟨haccess, ⟨root, hroot, hnot, hstarts⟩ | hglob⟩ := hcovers
    · have hmode : root.2 = .deny := (access_of_mem_resolvedEntry hroot).symm.trans haccess
      exact .inl ⟨root.1, ⟨⟨entry, hentry, hmode ▸ hroot⟩, hnot⟩, hstarts⟩
    · split at hglob
      · rename_i pattern hpath
        exact .inr ⟨pattern, ⟨entry, hentry, haccess, hpath⟩, hglob⟩
      · cases hglob
  · rintro (⟨root, ⟨⟨entry, hentry, hroot⟩, hnot⟩, hstarts⟩ | ⟨pattern, ⟨entry, hentry, haccess, hpath⟩, hglob⟩)
    · refine ⟨entry, hentry, ?_⟩
      have haccess : entry.access = .deny := access_of_mem_resolvedEntry hroot
      simp only [FileSystemSandboxEntry.covers, haccess, beq_self_eq_true, Bool.true_and,
        Bool.or_eq_true, List.any_eq_true, Bool.and_eq_true, Bool.not_eq_true']
      exact .inl ⟨(root, .deny), hroot, hnot, hstarts⟩
    · refine ⟨entry, hentry, ?_⟩
      simp [FileSystemSandboxEntry.covers, haccess, hpath, hglob]

theorem globsValid_iff {patterns : List (List Char)}
    (h : policy.denyReadGlobs rules context = .ok patterns) :
    policy.GlobsValid rules context ↔
      ∀ text ∈ patterns, (buildGlobMatcher rules .posix text).isSome = true := by
  constructor
  · intro hvalid text htext
    obtain ⟨pattern, hpattern, hresolved⟩ := except_mapM_eq_ok h text htext
    obtain ⟨text', hresolved', hsome⟩ := hvalid pattern hpattern
    cases hresolved.symm.trans hresolved'
    exact hsome
  · intro hall pattern hpattern
    obtain ⟨text, htext, hresolved⟩ := except_mapM_mem h pattern hpattern
    exact ⟨text, hresolved, hall text htext⟩

theorem any_matchers_iff (hposix : context.cwd.inferPathConvention = some .posix)
    {patterns : List (List Char)} (h : policy.denyReadGlobs rules context = .ok patterns) :
    (patterns.filterMap (buildGlobMatcher rules .posix)).any (· (globCandidate rules .posix path)) =
        true ↔
      policy.globMatches rules context path = true := by
  simp only [globMatches, List.any_eq_true, List.mem_filterMap, globPatternMatches_iff hposix]
  constructor
  · rintro ⟨matcher, ⟨text, htext, hbuild⟩, hmatch⟩
    obtain ⟨pattern, hpattern, hresolved⟩ := except_mapM_eq_ok h text htext
    exact ⟨pattern, hpattern, text, matcher, hresolved, hbuild, hmatch⟩
  · rintro ⟨pattern, hpattern, text, matcher, hresolved, hbuild, hmatch⟩
    obtain ⟨text', htext, hresolved'⟩ := except_mapM_mem h pattern hpattern
    cases hresolved.symm.trans hresolved'
    exact ⟨matcher, ⟨text, htext, hbuild⟩, hmatch⟩

/-- The matcher that fails closed. -/
theorem prepareDenyReadMatcher_failClosed (rules : GlobRules) (policy : FileSystemSandboxPolicy)
    (path : PathUri) (hposix : context.cwd.inferPathConvention = some .posix) :
    ∃ matchers invalid, policy.prepareDenyReadMatcher rules context .failClosed =
      .ok ⟨policy.deniedRoots rules context, matchers, invalid⟩ ∧
      (invalid = true ↔ ¬ policy.GlobsValid rules context) ∧
      (invalid = false → (matchers.any (· (globCandidate rules .posix path)) = true ↔
        policy.globMatches rules context path = true)) := by
  simp only [prepareDenyReadMatcher, hposix]
  cases hglobs : policy.denyReadGlobs rules context with
  | error e =>
    refine ⟨[], true, rfl, ?_, nofun⟩
    refine iff_of_true rfl fun hvalid => ?_
    have hresolved : ∀ pattern ∈ policy.denyGlobPatterns,
        ∃ text, denyReadGlob rules context pattern = .ok text :=
      fun pattern hpattern => (hvalid pattern hpattern).imp fun _ h => h.1
    obtain ⟨patterns, hpatterns⟩ := except_mapM_exists hresolved
    cases hglobs.symm.trans hpatterns
  | ok patterns =>
    dsimp only
    rw [buildGlobMatchers_failClosed]
    refine ⟨_, _, rfl, ?_, fun _ => any_matchers_iff hposix hglobs⟩
    rw [globsValid_iff hglobs]
    simp

/-- When the matcher of a policy denies a path. -/
theorem isReadDeniedUri_iff (hposix : context.cwd.inferPathConvention = some .posix) :
    ReadDenyMatcher.isReadDeniedUri rules policy context path = true ↔
      (∃ entry ∈ policy.entries, entry.access = .deny) ∧
        (¬ Comparable context path ∨ ¬ policy.GlobsValid rules context ∨
          ∃ entry ∈ policy.entries, entry.covers rules context path = true) := by
  obtain ⟨matchers, invalid, hprepared, hinvalid, hmatchers⟩ :=
    prepareDenyReadMatcher_failClosed rules policy path hposix
  rw [exists_covers_iff, ← hinvalid]
  have hdeny : policy.entries.any (·.access == .deny) = true ↔
      ∃ entry ∈ policy.entries, entry.access = .deny := by simp
  rw [← hdeny, ReadDenyMatcher.isReadDeniedUri, ReadDenyMatcher.fromContext, hprepared]
  split_ifs with hany
  · rw [and_iff_right hany]
    simp only [Except.toOption, Option.any_some, PreparedReadDenyMatcher.matchesPreparedReadDeny, hposix]
    by_cases hcomparable : Comparable context path
    · cases invalid with
      | true => simp
      | false =>
        simp only [hcomparable, not_true_eq_false, if_false, Bool.false_eq_true, false_or,
          Bool.or_eq_true, hmatchers rfl, List.any_eq_true]
    · simp [hcomparable]
  · exact iff_of_false (by simp) fun h => hany h.1

theorem access_of_covers {entry : FileSystemSandboxEntry}
    (h : entry.covers rules context path = true) : entry.access = .deny := by
  simp only [FileSystemSandboxEntry.covers, Bool.and_eq_true, beq_iff_eq] at h
  exact h.1

/-- A covered path is denied. -/
theorem deniesReading_of_covers (hposix : context.cwd.inferPathConvention = some .posix)
    {entry : FileSystemSandboxEntry} (hentry : entry ∈ policy.entries)
    (hcovers : entry.covers rules context path = true) :
    policy.deniesReading rules context path = true := by
  rw [deniesReading, Bool.or_eq_true, isReadDeniedUri_iff hposix]
  exact .inr ⟨⟨entry, hentry, access_of_covers hcovers⟩, .inr (.inr ⟨entry, hentry, hcovers⟩)⟩

/-- A path that cannot be compared is denied. -/
theorem deniesReading_of_not_comparable (hkind : policy.kind = .restricted)
    (h : ¬ Comparable context path) : policy.deniesReading rules context path = true := by
  simp [deniesReading, resolveAccess, hkind, h]

end FileSystemSandboxPolicy

/-! ## Replaced denials -/

/-- What a denial is replaced by still covers the path. -/
def FileSystemSandboxEntry.stillCovers (rules : GlobRules) (context : FileSystemSandboxPolicyContext)
    (path : PathUri) (entry : FileSystemSandboxEntry) : Bool :=
  entry.access == .deny &&
    (materializeOnRoots rules context.workspaceRoots entry).any (·.any (·.covers rules context path))

/-- Equal entries are the same, or name one Windows path. -/
theorem FileSystemSandboxEntry.eq_cases {left right : FileSystemSandboxEntry}
    (h : left.eq right = true) :
    left = right ∨ ∃ path path', left.path = .path path ∧ right.path = .path path' ∧
      left.access = right.access := by
  obtain ⟨leftPath, leftAccess, leftSkips⟩ := left
  obtain ⟨rightPath, rightAccess, rightSkips⟩ := right
  simp only [FileSystemSandboxEntry.eq, Bool.and_eq_true, beq_iff_eq] at h
  obtain ⟨⟨hpath, rfl⟩, rfl⟩ := h
  rw [FileSystemPath.eq.eq_def] at hpath
  split at hpath
  · exact .inr ⟨_, _, rfl, rfl, rfl⟩
  · rw [beq_iff_eq.mp hpath]
    exact .inl rfl

theorem materializeOnRoots_of_path {roots : List PathUri} {entry : FileSystemSandboxEntry}
    (h : entry.path = .path path) : materializeOnRoots rules roots entry = some [entry] := by
  rw [materializeOnRoots, h]
  rfl

theorem stillCovers_congr (hposix : context.cwd.inferPathConvention = some .posix)
    {left right : FileSystemSandboxEntry} (h : left.eq right = true) :
    left.stillCovers rules context path = right.stillCovers rules context path := by
  rcases FileSystemSandboxEntry.eq_cases h with rfl | ⟨_, _, hleft, hright, haccess⟩
  · rfl
  · have hcovers : left.covers rules context path = right.covers rules context path := by
      simp only [FileSystemSandboxEntry.covers, resolvedEntry_congr hposix h, hleft, hright, haccess]
    simp only [FileSystemSandboxEntry.stillCovers, materializeOnRoots_of_path hleft,
      materializeOnRoots_of_path hright, haccess, Option.any_some, List.any_cons, hcovers, List.any_nil]

theorem materializeOnRoots_eq_none_congr {roots : List PathUri} {left right : FileSystemSandboxEntry}
    (h : left.eq right = true) :
    materializeOnRoots rules roots left = none ↔ materializeOnRoots rules roots right = none := by
  rcases FileSystemSandboxEntry.eq_cases h with rfl | ⟨_, _, hleft, hright, -⟩
  · rfl
  · simp [materializeOnRoots_of_path hleft, materializeOnRoots_of_path hright]

namespace FileSystemSandboxPolicy

variable {policy materialized : FileSystemSandboxPolicy} {roots : List PathUri}

theorem tryMaterialize_eq_some
    (h : policy.tryMaterializeProjectRootsWithPathUris rules roots = some materialized) :
    materialized.kind = policy.kind ∧ ∃ lists, policy.entries.mapM (materializeOnRoots rules roots) =
      some lists ∧ materialized.entries = lists.flatten := by
  simp only [tryMaterializeProjectRootsWithPathUris, Option.bind_eq_bind, Option.bind_eq_some_iff,
    Option.pure_def, Option.some.injEq] at h
  obtain ⟨lists, hlists, rfl⟩ := h
  exact ⟨rfl, lists, hlists, rfl⟩

/-- A denial that still covers the path is one of the materialised policy. -/
theorem exists_covers_of_stillCovers
    (h : policy.tryMaterializeProjectRootsWithPathUris rules context.workspaceRoots = some materialized)
    (hcovers : policy.entries.any (·.stillCovers rules context path) = true) :
    ∃ entry ∈ materialized.entries, entry.covers rules context path = true := by
  obtain ⟨-, lists, hlists, hentries⟩ := tryMaterialize_eq_some h
  obtain ⟨entry, hentry, hstill⟩ := List.any_eq_true.mp hcovers
  obtain ⟨written, hmem, hwritten⟩ := option_mapM_mem hlists entry hentry
  rw [FileSystemSandboxEntry.stillCovers, hwritten, Bool.and_eq_true, Option.any_some,
    List.any_eq_true] at hstill
  obtain ⟨-, entry', hentry', hcovers'⟩ := hstill
  exact ⟨entry', hentries ▸ List.mem_flatten.mpr ⟨written, hmem, hentry'⟩, hcovers'⟩

/-- Materialising fails if one of the entries cannot be replaced. -/
theorem tryMaterialize_eq_none_iff :
    policy.tryMaterializeProjectRootsWithPathUris rules roots = none ↔
      ∃ entry ∈ policy.entries, materializeOnRoots rules roots entry = none := by
  rw [← option_mapM_eq_none_iff, tryMaterializeProjectRootsWithPathUris]
  cases policy.entries.mapM (materializeOnRoots rules roots) with
  | none => simp
  | some lists => simp

/-! ## Denials of an approved command -/

theorem entries_denialsOnly :
    policy.denialsOnly.entries = pushMissing [.new (.special .root) .write]
      (policy.entries.filter (·.access == .deny)) := by
  simp [denialsOnly, preserveDenyReadRestrictionsFrom, restricted]

theorem mem_denialsOnly {entry : FileSystemSandboxEntry} (h : entry ∈ policy.denialsOnly.entries) :
    entry = .new (.special .root) .write ∨ (entry ∈ policy.entries ∧ entry.access = .deny) := by
  rw [entries_denialsOnly] at h
  rcases mem_pushMissing h with h | h
  · exact .inl (List.mem_singleton.mp h)
  · exact .inr (by simpa using h)

theorem root_mem_denialsOnly : .new (.special .root) .write ∈ policy.denialsOnly.entries := by
  rw [entries_denialsOnly]
  exact subset_pushMissing List.mem_cons_self

/-- What makes materialising fail is a denial, so it is one of those that stay. -/
theorem tryMaterialize_denialsOnly_eq_none
    (h : policy.tryMaterializeProjectRootsWithPathUris rules roots = none) :
    policy.denialsOnly.tryMaterializeProjectRootsWithPathUris rules roots = none := by
  rw [tryMaterialize_eq_none_iff] at h ⊢
  obtain ⟨entry, hentry, hnone⟩ := h
  have haccess : entry.access = .deny := by
    rw [materializeOnRoots] at hnone
    split at hnone
    · cases hnone
    · rw [ite_eq_left_iff] at hnone
      by_contra hdeny
      exact absurd (hnone fun h => hdeny h.1) nofun
  rw [entries_denialsOnly, exists_mem_pushMissing fun _ _ => materializeOnRoots_eq_none_congr]
  exact .inr ⟨entry, by simp [hentry, haccess], hnone⟩

theorem stillCovers_denialsOnly (hposix : context.cwd.inferPathConvention = some .posix)
    (h : policy.entries.any (·.stillCovers rules context path) = true) :
    policy.denialsOnly.entries.any (·.stillCovers rules context path) = true := by
  obtain ⟨entry, hentry, hstill⟩ := List.any_eq_true.mp h
  have haccess : entry.access = .deny := by
    simp only [FileSystemSandboxEntry.stillCovers, Bool.and_eq_true, beq_iff_eq] at hstill
    exact hstill.1
  have hcongr : ∀ left right : FileSystemSandboxEntry, left.eq right = true →
      (left.stillCovers rules context path = true ↔ right.stillCovers rules context path = true) := by
    intro left right heq
    rw [stillCovers_congr hposix heq]
  rw [List.any_eq_true, entries_denialsOnly, exists_mem_pushMissing hcongr]
  exact .inr ⟨entry, by simp [hentry, haccess], hstill⟩

/-- How the policy of an approved command comes about. -/
structure Approved (rules : GlobRules) (policy : FileSystemSandboxPolicy)
    (context : FileSystemSandboxPolicyContext) (approved result : FileSystemSandboxPolicy)
    (root : PathUri) (metadata : List FileSystemSandboxEntry) : Prop where
  materialized : policy.denialsOnly.tryMaterializeProjectRootsWithPathUris rules
    context.workspaceRoots = some approved
  root_eq : fileSystemRoot context = some root
  strict : ∃ matcher, approved.tryNewMatcherWithContext rules context = .ok matcher
  writable : approved.resolveAccess rules.toUrlRules context root = .write
  metadata_below : ∀ entry ∈ metadata, ∃ path, entry = .new (.path path) .write ∧
    path.startsWith root = true
  result_eq : result = ⟨approved.kind, approved.globScanMaxDepth, approved.entries ++ metadata⟩

theorem rootMetadataEntries_eq_some {matcher : Option PreparedReadDenyMatcher} {root : PathUri}
    {metadata : List FileSystemSandboxEntry}
    (h : rootMetadataEntries rules matcher context root = some metadata) :
    ∀ entry ∈ metadata, ∃ path, entry = .new (.path path) .write ∧ path.startsWith root = true := by
  simp only [rootMetadataEntries, Option.bind_eq_bind, Option.bind_eq_some_iff, Option.pure_def,
    Option.some.injEq] at h
  obtain ⟨paths, hpaths, rfl⟩ := h
  intro entry hentry
  obtain ⟨path, hpath, rfl⟩ := List.mem_map.mp hentry
  obtain ⟨name, -, hname⟩ := option_mapM_eq_some hpaths path (List.mem_filter.mp hpath).1
  exact ⟨path, rfl, PathUri.startsWith_of_joinDescendant (toOption_eq_some hname)⟩

theorem approvedPolicy_eq_some {result : FileSystemSandboxPolicy}
    (h : policy.approvedPolicy rules context = some result) :
    ∃ approved root metadata, policy.Approved rules context approved result root metadata := by
  rw [approvedPolicy] at h
  split_ifs at h
  simp only [Option.bind_eq_bind, Option.bind_eq_some_iff, Option.ite_none_left_eq_some] at h
  obtain ⟨approved, happroved, root, hroot, matcher, hmatcher, hwritable, metadata, hmetadata, heq⟩ := h
  cases heq
  simp only [Bool.or_eq_true, not_or, Bool.not_eq_true'] at hwritable
  have hwrite := FileSystemAccessMode.canWrite_eq_true.mp (Bool.not_eq_false _ ▸ hwritable.1)
  exact ⟨approved, root, metadata, happroved, hroot, ⟨matcher, toOption_eq_some hmatcher⟩, hwrite,
    rootMetadataEntries_eq_some hmetadata, rfl⟩

theorem globsValid_of_prepare (hposix : context.cwd.inferPathConvention = some .posix)
    {prepared : PreparedReadDenyMatcher}
    (h : policy.prepareDenyReadMatcher rules context .returnError = .ok prepared) :
    policy.GlobsValid rules context := by
  simp only [prepareDenyReadMatcher, hposix] at h
  cases hglobs : policy.denyReadGlobs rules context with
  | error e => simp [hglobs] at h
  | ok patterns =>
    rw [hglobs] at h
    dsimp only at h
    rw [except_bind_eq_ok] at h
    obtain ⟨matchers, hmatchers, -⟩ := h
    exact (globsValid_iff hglobs).mpr (buildGlobMatchers_returnError hmatchers)

/-- The globs of a policy that has a strict matcher are valid. -/
theorem globsValid_of_strict (hkind : policy.kind = .restricted)
    (hposix : context.cwd.inferPathConvention = some .posix) {matcher : Option PreparedReadDenyMatcher}
    (h : policy.tryNewMatcherWithContext rules context = .ok matcher) :
    policy.GlobsValid rules context := by
  rw [tryNewMatcherWithContext] at h
  split_ifs at h with hdenials
  · rw [except_bind_eq_ok] at h
    obtain ⟨_, -, h⟩ := h
    cases hprepared : policy.prepareDenyReadMatcher rules context .returnError with
    | error e => simp [hprepared, Except.mapError, Except.map] at h
    | ok prepared => exact globsValid_of_prepare hposix hprepared
  · -- without denials there are no deny globs
    intro pattern hpattern
    obtain ⟨entry, hentry, haccess, -⟩ := mem_denyGlobPatterns.mp hpattern
    refine absurd ?_ hdenials
    simp only [hasContextReadDenials, hkind, hposix, beq_self_eq_true, Bool.true_and, List.any_eq_true,
      bne_self_eq_false, Bool.and_false, Bool.not_false, Bool.and_true, beq_iff_eq]
    exact ⟨entry, hentry, haccess⟩

namespace Approved

variable {approved result : FileSystemSandboxPolicy} {root : PathUri}
  {metadata : List FileSystemSandboxEntry}

theorem approved_kind (h : policy.Approved rules context approved result root metadata) :
    approved.kind = .restricted := by
  rw [(tryMaterialize_eq_some h.materialized).1]
  simp [denialsOnly, preserveDenyReadRestrictionsFrom, restricted]

theorem result_kind (h : policy.Approved rules context approved result root metadata) :
    result.kind = .restricted := by
  rw [h.result_eq]
  exact h.approved_kind

/-- The denials of the result are those that were materialised. -/
theorem mem_approved (h : policy.Approved rules context approved result root metadata)
    {entry : FileSystemSandboxEntry} (hentry : entry ∈ result.entries) (haccess : entry.access = .deny) :
    entry ∈ approved.entries := by
  rw [h.result_eq] at hentry
  rcases List.mem_append.mp hentry with hentry | hentry
  · exact hentry
  · obtain ⟨path, rfl, -⟩ := h.metadata_below entry hentry
    cases haccess

theorem globsValid (h : policy.Approved rules context approved result root metadata)
    (hposix : context.cwd.inferPathConvention = some .posix) : result.GlobsValid rules context := by
  obtain ⟨matcher, hmatcher⟩ := h.strict
  intro pattern hpattern
  obtain ⟨entry, hentry, haccess, hpath⟩ := mem_denyGlobPatterns.mp hpattern
  refine globsValid_of_strict h.approved_kind hposix hmatcher pattern ?_
  exact mem_denyGlobPatterns.mpr ⟨entry, h.mem_approved hentry haccess, haccess, hpath⟩

/-- The root has the empty trail. -/
theorem root_trail (h : policy.Approved rules context approved result root metadata)
    (hposix : context.cwd.inferPathConvention = some .posix) (hcomparable : Comparable context path) :
    root.trail = some [] := by
  obtain ⟨t, ht⟩ := PathUri.exists_trail hposix hcomparable.2.2.2
  have hroot := h.root_eq
  rw [fileSystemRoot, PathUri.lexicalDepth_of_trail ht, Option.map_some] at hroot
  cases hroot
  exact PathUri.root_trail ht

theorem resolvedEntries_result (h : policy.Approved rules context approved result root metadata) :
    result.resolvedEntries rules.toUrlRules context =
      approved.resolvedEntries rules.toUrlRules context ++
        metadata.flatMap (resolvedEntry rules.toUrlRules context) := by
  rw [h.result_eq, resolvedEntries, List.flatMap_append]
  rfl

theorem resolves (h : policy.Approved rules context approved result root metadata)
    (hposix : context.cwd.inferPathConvention = some .posix) (hcomparable : Comparable context path) :
    result.Resolves rules.toUrlRules context path := by
  have hroot := h.root_trail hposix hcomparable
  have happroved : approved.resolveAccess rules.toUrlRules context root ≠ .deny := by
    rw [h.writable]
    decide
  refine ⟨hcomparable, ?_⟩
  rw [hasAmbiguousRoot, h.resolvedEntries_result, List.any_append, Bool.or_eq_false_iff]
  refine ⟨(resolves_of_resolveAccess h.approved_kind happroved).unambiguous, ?_⟩
  rw [List.any_eq_false]
  rintro ⟨path', access⟩ hmem
  obtain ⟨entry, hentry, hmem⟩ := List.mem_flatMap.mp hmem
  obtain ⟨path, rfl, hstarts⟩ := h.metadata_below entry hentry
  obtain ⟨path'', hpath, heq⟩ := List.mem_map.mp hmem
  obtain rfl := List.mem_singleton.mp (List.mem_filter.mp hpath).1
  cases heq
  have hdepth := PathUri.isSome_lexicalDepth_of_startsWith hroot hstarts
  simp [Option.isSome_iff_ne_none.mp hdepth]

/-- Writing of the whole file system is one of the rules. -/
theorem root_rule (h : policy.Approved rules context approved result root metadata)
    (hposix : context.cwd.inferPathConvention = some .posix) (hcomparable : Comparable context path) :
    ([], .write) ∈ result.rules rules.toUrlRules context := by
  have hroot := h.root_trail hposix hcomparable
  obtain ⟨-, lists, hlists, hentries⟩ := tryMaterialize_eq_some h.materialized
  obtain ⟨written, hwritten, hmat⟩ := option_mapM_mem hlists _ root_mem_denialsOnly
  cases hmat
  have hmem : FileSystemSandboxEntry.new (.special .root) .write ∈ approved.entries := by
    rw [hentries]
    exact List.mem_flatten.mpr ⟨_, hwritten, List.mem_singleton.mpr rfl⟩
  refine mem_rules.mpr ⟨root, ?_, hroot⟩
  rw [h.resolvedEntries_result]
  refine List.mem_append_left _ (List.mem_flatMap.mpr ⟨_, hmem, ?_⟩)
  have hconvention := PathUri.inferPathConvention_of_trail hroot
  simp [resolvedEntry, entryPaths, FileSystemSandboxEntry.new, h.root_eq, hconvention, hposix]

/-- No denied root of the materialised policy is that of the file system. -/
theorem not_isFileSystemRoot (h : policy.Approved rules context approved result root metadata)
    (hposix : context.cwd.inferPathConvention = some .posix) (hcomparable : Comparable context path)
    {denied : PathUri} {trail : List (List UInt8)}
    (hdenied : (denied, .deny) ∈ approved.resolvedEntries rules.toUrlRules context)
    (htrail : denied.trail = some trail) : isFileSystemRoot context denied = false := by
  by_contra hnot
  have hroot := h.root_trail hposix hcomparable
  rw [Bool.not_eq_false, isFileSystemRoot, h.root_eq, Option.any_some, Bool.and_eq_true,
    PathUri.startsWith_iff_isPrefix hroot htrail] at hnot
  -- it would override the rule that lets the root be written
  obtain ⟨-, trail', hdecides⟩ := (resolveAccess_eq_iff h.approved_kind hposix hroot (by decide)).mp
    h.writable
  have hlt := hdecides.length_lt (by decide) (mem_rules.mpr ⟨denied, hdenied, htrail⟩) hnot.2
  have hle := hdecides.above.length_le
  rw [List.length_nil] at hle
  omega

theorem exists_covers_of_resolveAccess
    (h : policy.Approved rules context approved result root metadata)
    (hposix : context.cwd.inferPathConvention = some .posix) (hcomparable : Comparable context path)
    (haccess : result.resolveAccess rules.toUrlRules context path = .deny) :
    ∃ entry ∈ approved.entries, entry.covers rules context path = true := by
  have hresolves := h.resolves hposix hcomparable
  obtain ⟨t, ht⟩ := hresolves.exists_trail hposix
  obtain ⟨trail, mode, hdecides⟩ := exists_decides (h.root_rule hposix hcomparable)
    (List.nil_prefix : [] <+: t)
  obtain rfl : mode = .deny := by
    by_contra hmode
    exact ne_deny_of_decides h.result_kind hposix ht hresolves hdecides hmode haccess
  obtain ⟨denied, hdenied, htrail⟩ := mem_rules.mp hdecides.mem
  have hkept : (denied, .deny) ∈ approved.resolvedEntries rules.toUrlRules context := by
    obtain ⟨entry, hentry, hroot⟩ := List.mem_flatMap.mp hdenied
    have hdeny := access_of_mem_resolvedEntry hroot
    exact List.mem_flatMap.mpr ⟨entry, h.mem_approved hentry hdeny, hroot⟩
  refine exists_covers_iff.mpr (.inl ⟨denied, mem_deniedRoots.mpr ⟨hkept, ?_⟩, ?_⟩)
  · exact h.not_isFileSystemRoot hposix hcomparable hkept htrail
  · exact (PathUri.startsWith_iff_isPrefix ht htrail).mpr hdecides.above

/-- A denial of the materialised policy covers what the result denies. -/
theorem exists_covers (h : policy.Approved rules context approved result root metadata)
    (hposix : context.cwd.inferPathConvention = some .posix) (hcomparable : Comparable context path)
    (hdenied : result.deniesReading rules context path = true) :
    ∃ entry ∈ approved.entries, entry.covers rules context path = true := by
  rw [deniesReading, Bool.or_eq_true, beq_iff_eq, isReadDeniedUri_iff hposix] at hdenied
  rcases hdenied with haccess | ⟨-, hnot | hglobs | ⟨entry, hentry, hcovers⟩⟩
  · exact h.exists_covers_of_resolveAccess hposix hcomparable haccess
  · exact absurd hcomparable hnot
  · exact absurd (h.globsValid hposix) hglobs
  · exact ⟨entry, h.mem_approved hentry (access_of_covers hcovers), hcovers⟩

/-- A path that can be compared is denied to an approved command only by a replaced denial. -/
theorem deniesReading_iff (h : policy.Approved rules context approved result root metadata)
    (hposix : context.cwd.inferPathConvention = some .posix) (hcomparable : Comparable context path) :
    result.deniesReading rules context path = true ↔
      policy.entries.any (·.stillCovers rules context path) = true := by
  constructor
  · intro hdenied
    obtain ⟨entry', hentry', hcovers⟩ := h.exists_covers hposix hcomparable hdenied
    obtain ⟨-, lists, hlists, hentries⟩ := tryMaterialize_eq_some h.materialized
    rw [hentries] at hentry'
    obtain ⟨written, hwritten, hmem⟩ := List.mem_flatten.mp hentry'
    obtain ⟨entry, hentry, hmat⟩ := option_mapM_eq_some hlists written hwritten
    rcases mem_denialsOnly hentry with rfl | ⟨hentry, haccess⟩
    · cases hmat
      obtain rfl := List.mem_singleton.mp hmem
      cases access_of_covers hcovers
    · refine List.any_eq_true.mpr ⟨entry, hentry, ?_⟩
      rw [FileSystemSandboxEntry.stillCovers, haccess, hmat, Option.any_some, beq_self_eq_true,
        Bool.true_and, List.any_eq_true]
      exact ⟨entry', hmem, hcovers⟩
  · intro hcovers
    obtain ⟨entry, hentry, hcovers⟩ :=
      exists_covers_of_stillCovers h.materialized (stillCovers_denialsOnly hposix hcovers)
    refine deniesReading_of_covers hposix ?_ hcovers
    rw [h.result_eq]
    exact List.mem_append_left _ hentry

end Approved

/-! ## Both operations -/

/-- The materialised policy and that of an approved command both deny reading. -/
structure KeepsDenial (rules : GlobRules) (policy : FileSystemSandboxPolicy)
    (context : FileSystemSandboxPolicyContext) (path : PathUri) : Prop where
  materialized : (policy.materializeProjectRootsWithPathUris rules context.workspaceRoots).deniesReading
    rules context path = true
  approved : (policy.forApprovedCommand rules context).deniesReading rules context path = true

/-- Some denial still covers the path after it was replaced, or there is nothing left to read. -/
def StillCovered (rules : GlobRules) (policy : FileSystemSandboxPolicy)
    (context : FileSystemSandboxPolicyContext) (path : PathUri) : Prop :=
  policy.entries.any (·.stillCovers rules context path) = true ∨ ¬ Comparable context path ∨
    policy.tryMaterializeProjectRootsWithPathUris rules context.workspaceRoots = none

theorem StillCovered.deniesReading_materialized (h : policy.StillCovered rules context path)
    (hkind : policy.kind = .restricted) (hposix : context.cwd.inferPathConvention = some .posix) :
    (policy.materializeProjectRootsWithPathUris rules context.workspaceRoots).deniesReading rules context
      path = true := by
  rw [materializeProjectRootsWithPathUris]
  cases hmat : policy.tryMaterializeProjectRootsWithPathUris rules context.workspaceRoots with
  | none => simp [deniesReading, resolveAccess, restricted, rootsAbove, resolvedEntries, maxByKey]
  | some materialized =>
    rcases h with hcovers | hnot | hnone
    · obtain ⟨entry, hentry, hcovers⟩ := exists_covers_of_stillCovers hmat hcovers
      exact deniesReading_of_covers hposix hentry hcovers
    · exact deniesReading_of_not_comparable ((tryMaterialize_eq_some hmat).1.trans hkind) hnot
    · rw [hmat] at hnone
      cases hnone

/-- A project directory, which is also the only workspace root. -/
def projectContext : FileSystemSandboxPolicyContext where
  cwd := localFile ["project"]
  workspaceRoots := [localFile ["project"]]
  userHomeDir := none
  temporaryDirectories := none

/-- Everything can be read, apart from a path relative to the workspace root. -/
def allBut (subpath : String) : FileSystemSandboxPolicy :=
  .restricted [.new (.special .root) .read,
    .new (.special (.projectRoots (some subpath.toList))) .deny]

end FileSystemSandboxPolicy

end SpineCodex
