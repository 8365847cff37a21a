import SpineCodex.Permissions.Precedence

/-!
# Write access to the whole disk

Whether a policy may write everywhere is told from its entries without resolving them: the root may be
written, and an entry that does not write is shadowed by one that writes to the same target. In a POSIX
context the shadowing entry resolves to a root with the same trail, so no such entry decides about a path.
-/

namespace SpineCodex

open PathUri (UrlRules plainUrl localFile)

/-! ## Decoded names -/

theorem mem_asBytes_of_mem {text : List Char} (h : '%' ∈ text) : (37 : UInt8) ∈ asBytes text := by
  rw [asBytes, List.mem_flatMap]
  exact ⟨'%', h, by decide⟩

/-- A text without an escape is its own decoding. -/
theorem decodeBinary_eq_asBytes {text : List Char} (h : '%' ∉ text) : decodeBinary text = asBytes text := by
  induction text with
  | nil => rfl
  | cons c text ih =>
    rw [List.mem_cons, not_or] at h
    rw [decodeBinary, ih h.2, ← asBytes_append, List.singleton_append]
    rintro high low rest heq -
    exact h.1 heq.symm

theorem decodeBinary_of_decodeUriPath {segment : List Char} {name : List UInt8} (hname : (37 : UInt8) ∉ name)
    (h : decodeUriPath segment = name) : decodeBinary segment = name := by
  rw [decodeUriPath] at h
  split_ifs at h with hvalid
  · exact h
  · have hplain : '%' ∉ segment := fun hmem ↦ hname (h ▸ mem_asBytes_of_mem hmem)
    rw [decodeBinary_eq_asBytes hplain, h]

namespace PathUri

variable {path : PathUri} {t : List (List UInt8)}

theorem trail_of_parent_none (htrail : path.trail = some t) (h : path.parent.isNone = true) : t = [] := by
  obtain ⟨segments, _, rfl, hposix, -⟩ := trail_eq_some htrail
  have hdepth : depthOf segments ≤ 0 := by
    by_contra hdeep
    simp [parent, hposix, PathConvention.anchorDepth, hdeep] at h
  rw [depthOf_eq_length htrail] at hdepth
  exact List.length_eq_zero_iff.mp (Nat.le_zero.mp hdepth)

/-- The trail of a URI of one segment by the name of that segment. -/
theorem trail_of_basename (htrail : path.trail = some t) (hdepth : path.lexicalDepth = some 1)
    {name : List UInt8} (hname : (37 : UInt8) ∉ name) (h : path.basename = some name) : t = [name] := by
  rw [lexicalDepth_of_trail htrail, Option.some.injEq] at hdepth
  obtain ⟨segments, kept, rfl, -, hkept, rfl⟩ := trail_eq_some htrail
  rw [List.length_map] at hdepth
  obtain ⟨segment, rfl⟩ := List.length_eq_one_iff.mp hdepth
  rw [containmentPathSegments, Option.ite_none_left_eq_some, Option.some.injEq] at hkept
  have hlast : segments.reverse.find? (!·.isEmpty) = some segment := by
    rw [← List.head?_filter, List.filter_reverse, hkept.2]
    rfl
  rw [basename, hlast, Option.map_some, Option.some.injEq] at h
  rw [List.map_singleton, decodeBinary_of_decodeUriPath hname h]

end PathUri

/-! ## Entries with the same target -/

section SameTarget

variable {url : UrlRules} {context : FileSystemSandboxPolicyContext} {root path : PathUri}
  {t : List (List UInt8)}

/-- How the `url` crate spells the directory of temporary files. -/
def PlainTmp (url : UrlRules) : Prop := url.push [[]] "tmp".toList = ["tmp".toList]

theorem fileSystemRoot_trail (hposix : context.cwd.inferPathConvention = some .posix)
    (hcwd : context.cwd.lexicalDepth.isSome = true) :
    ∃ top, fileSystemRoot context = some top ∧ top.trail = some [] := by
  obtain ⟨trail, htrail⟩ := PathUri.exists_trail hposix hcwd
  refine ⟨context.cwd.root, ?_, PathUri.root_trail htrail⟩
  rw [fileSystemRoot, PathUri.lexicalDepth_of_trail htrail, Option.map_some]

theorem entryPaths_slashTmp (hurl : PlainTmp url) (hposix : context.cwd.inferPathConvention = some .posix) :
    entryPaths url context (.special .slashTmp) = [localFile ["tmp"]] := by
  have hparse : PathUri.fromAbsoluteNativePath url "/tmp".toList .posix = some (localFile ["tmp"]) := by
    have hsegments : PathUri.pathUriFromSegments url .posix none ["tmp".toList] = some (localFile ["tmp"]) := by
      change (PathUri.tryFrom none (url.push [[]] "tmp".toList)).toOption = _
      rw [hurl]
      rfl
    change (PathUri.pathUriFromSegments url .posix none ["tmp".toList]).bind _ = _
    rw [hsegments]
    decide +kernel
  have hjoin : context.cwd.join url "/tmp".toList = .ok (localFile ["tmp"]) := by
    rw [PathUri.join, if_neg (by decide), if_neg (by decide), hposix]
    dsimp only
    rw [hparse]
  rw [entryPaths, if_pos hposix, hjoin]
  rfl

theorem slashTmp_trail : (localFile ["tmp"]).trail = some [asBytes "tmp".toList] := by decide +kernel

/-- A URI that a special location is said to match has the trail of that location. -/
theorem trail_of_specialPathMatches (hurl : PlainTmp url)
    (hposix : context.cwd.inferPathConvention = some .posix)
    (hcwd : context.cwd.lexicalDepth.isSome = true) {value : FileSystemSpecialPath}
    (htrail : path.trail = some t) (hmatches : specialPathMatchesPathUri value path = true) :
    ∃ root, entryPaths url context (.special value) = [root] ∧ root.trail = some t := by
  cases value with
  | root =>
    rw [specialPathMatchesPathUri, Bool.and_eq_true] at hmatches
    obtain ⟨top, htop, hroot⟩ := fileSystemRoot_trail hposix hcwd
    refine ⟨top, ?_, ?_⟩
    · rw [entryPaths, htop, Option.toList_some]
    · rw [PathUri.trail_of_parent_none htrail hmatches.2, hroot]
  | slashTmp =>
    simp only [specialPathMatchesPathUri, Bool.and_eq_true, beq_iff_eq] at hmatches
    refine ⟨_, entryPaths_slashTmp hurl hposix, ?_⟩
    rw [PathUri.trail_of_basename htrail hmatches.1.2 (by decide) hmatches.2, slashTmp_trail]
  | _ => cases hmatches

theorem isSome_lexicalDepth_of_specialPathMatches {value : FileSystemSpecialPath}
    (hmatches : specialPathMatchesPathUri value path = true) : path.lexicalDepth.isSome = true := by
  cases value with
  | root => exact (Bool.and_eq_true_iff.mp hmatches).1
  | slashTmp =>
    simp only [specialPathMatchesPathUri, Bool.and_eq_true, beq_iff_eq] at hmatches
    rw [hmatches.1.2]
    rfl
  | _ => cases hmatches

/-- Entries that share their target resolve to the same trails. -/
theorem exists_trail_of_shareTarget (hurl : PlainTmp url)
    (hposix : context.cwd.inferPathConvention = some .posix)
    (hcwd : context.cwd.lexicalDepth.isSome = true) {first second : FileSystemPath}
    (hshare : fileSystemPathsShareTarget .posix first second = true)
    (hroot : root ∈ entryPaths url context second) (htrail : root.trail = some t) :
    ∃ root' ∈ entryPaths url context first, root'.trail = some t := by
  cases first with
  | path left =>
    cases second with
    | path right =>
      obtain rfl := List.mem_singleton.mp hroot
      have hleft : left.inferPathConvention = some .posix :=
        (PathUri.inferPathConvention_of_eq hshare).trans (PathUri.inferPathConvention_of_trail htrail)
      obtain rfl := (PathUri.eq_iff_of_posix hleft).mp hshare
      exact ⟨left, List.mem_singleton_self left, htrail⟩
    | globPattern pattern => cases hroot
    | special value =>
      rw [fileSystemPathsShareTarget, Bool.and_eq_true, beq_iff_eq] at hshare
      obtain ⟨trail, hleft⟩ := PathUri.exists_trail hshare.1
        (isSome_lexicalDepth_of_specialPathMatches hshare.2)
      obtain ⟨root', hpaths, htrail'⟩ := trail_of_specialPathMatches hurl hposix hcwd hleft hshare.2
      rw [hpaths, List.mem_singleton] at hroot
      refine ⟨left, List.mem_singleton_self left, ?_⟩
      rw [hleft, ← htrail', ← hroot, htrail]
  | globPattern pattern =>
    cases second with
    | globPattern other => cases hroot
    | _ => cases hshare
  | special value =>
    cases second with
    | path right =>
      obtain rfl := List.mem_singleton.mp hroot
      rw [fileSystemPathsShareTarget, Bool.and_eq_true] at hshare
      obtain ⟨root', hpaths, htrail'⟩ := trail_of_specialPathMatches hurl hposix hcwd htrail hshare.2
      exact ⟨root', hpaths ▸ List.mem_singleton_self root', htrail'⟩
    | globPattern pattern => cases hroot
    | special other =>
      obtain rfl := beq_iff_eq.mp hshare
      exact ⟨root, hroot, htrail⟩

end SameTarget

/-! ## Entries that are shadowed -/

namespace FileSystemSandboxPolicy

variable {url : UrlRules} {policy : FileSystemSandboxPolicy} {context : FileSystemSandboxPolicyContext}
  {path : PathUri} {t : List (List UInt8)} {mode : FileSystemAccessMode}

/-- The rules are the trails of the paths of the entries. -/
theorem mem_rules_iff (hposix : context.cwd.inferPathConvention = some .posix) :
    (t, mode) ∈ policy.rules url context ↔
      ∃ entry ∈ policy.entries, entry.access = mode ∧
        ∃ root ∈ entryPaths url context entry.path, root.trail = some t := by
  simp only [mem_rules, resolvedEntries, resolvedEntry, List.mem_flatMap, List.mem_map, List.mem_filter,
    beq_iff_eq, Prod.mk.injEq]
  constructor
  · rintro ⟨root, ⟨entry, hentry, _, ⟨hroot, -⟩, rfl, rfl⟩, htrail⟩
    exact ⟨entry, hentry, rfl, _, hroot, htrail⟩
  · rintro ⟨entry, hentry, rfl, root, hroot, htrail⟩
    have hconvention := (PathUri.inferPathConvention_of_trail htrail).trans hposix.symm
    exact ⟨root, ⟨entry, hentry, root, ⟨hroot, hconvention⟩, rfl, rfl⟩, htrail⟩

theorem exists_rule_of_override (hurl : PlainTmp url)
    (hposix : context.cwd.inferPathConvention = some .posix)
    (hcwd : context.cwd.lexicalDepth.isSome = true) {entry : FileSystemSandboxEntry} {root : PathUri}
    (hoverride : policy.hasSameTargetWriteOverride entry .posix = true)
    (hroot : root ∈ entryPaths url context entry.path) (htrail : root.trail = some t) :
    entry.access ≠ .deny ∧ (t, .write) ∈ policy.rules url context := by
  obtain ⟨candidate, hcandidate, hshadows⟩ := List.any_eq_true.mp hoverride
  simp only [Bool.and_eq_true, FileSystemAccessMode.canWrite_eq_true] at hshadows
  obtain ⟨root', hroot', htrail'⟩ := exists_trail_of_shareTarget hurl hposix hcwd hshadows.2 hroot htrail
  refine ⟨?_, (mem_rules_iff hposix).mpr ⟨candidate, hcandidate, hshadows.1.1, root', hroot', htrail'⟩⟩
  intro hdeny
  rw [hshadows.1.1, hdeny, decide_eq_true_eq] at hshadows
  exact absurd hshadows.1.2 (by decide)

/-- Where nothing narrows a root that may be written, no rule denies, and the trail of a rule is one of a
rule that writes. -/
theorem write_mem_rules (hurl : PlainTmp url) (hposix : context.cwd.inferPathConvention = some .posix)
    (hcwd : context.cwd.lexicalDepth.isSome = true) (hkind : policy.kind = .restricted)
    (hfull : policy.hasFullDiskWriteAccessForConvention (some .posix) = true)
    (hrule : (t, mode) ∈ policy.rules url context) :
    mode ≠ .deny ∧ (t, .write) ∈ policy.rules url context := by
  simp only [hasFullDiskWriteAccessForConvention, hkind, Option.any_some, Bool.and_eq_true,
    Bool.not_eq_true', hasRootAccess, hasWriteNarrowingEntries, beq_self_eq_true, Bool.true_and] at hfull
  obtain ⟨hwritable, hnarrowing⟩ := hfull
  obtain ⟨entry, hentry, rfl, root, hroot, htrail⟩ := (mem_rules_iff hposix).mp hrule
  cases hwrite : entry.access.canWrite with
  | true =>
    rw [FileSystemAccessMode.canWrite_eq_true.mp hwrite] at hrule ⊢
    exact ⟨by decide, hrule⟩
  | false =>
    have hother := List.any_eq_false.mp hnarrowing entry hentry
    rw [hwrite] at hother
    have hshadowed : policy.hasSameTargetWriteOverride entry .posix = true →
        entry.access ≠ .deny ∧ (t, .write) ∈ policy.rules url context :=
      fun hoverride ↦ exists_rule_of_override hurl hposix hcwd hoverride hroot htrail
    cases hcase : entry.path with
    | path target => exact hshadowed (by simpa [hcase] using hother)
    | globPattern pattern => simp [hcase] at hother
    | special value =>
      cases value with
      | root =>
        -- the entry for the root that may be written has the same root
        obtain ⟨top, hentryRoot, haccess⟩ := List.any_eq_true.mp hwritable
        simp only [Bool.and_eq_true, beq_iff_eq, FileSystemAccessMode.canWrite_eq_true] at haccess
        rw [hcase] at hroot
        refine ⟨by simpa [hcase] using hother, ?_⟩
        exact (mem_rules_iff hposix).mpr ⟨top, hentryRoot, haccess.2, root, haccess.1 ▸ hroot, htrail⟩
      | minimal => simp [hcase, entryPaths] at hroot
      | unknown path subpath => simp [hcase, entryPaths] at hroot
      | projectRoots subpath => exact hshadowed (by simpa [hcase] using hother)
      | tmpdir => exact hshadowed (by simpa [hcase] using hother)
      | slashTmp => exact hshadowed (by simpa [hcase] using hother)

/-- A policy that may write to the whole disk resolves every path to write access. -/
theorem resolveAccess_of_fullDiskWrite (hurl : PlainTmp url)
    (hposix : context.cwd.inferPathConvention = some .posix)
    (hcwd : context.cwd.lexicalDepth.isSome = true) (hkind : policy.kind = .restricted)
    (hroots : policy.hasAmbiguousRoot url context = false)
    (hfull : policy.hasFullDiskWriteAccessForConvention (some .posix) = true)
    (hpath : path.inferPathConvention = some .posix) (hdepth : path.lexicalDepth.isSome = true) :
    policy.resolveAccess url context path = .write := by
  obtain ⟨position, hposition⟩ := PathUri.exists_trail hpath hdepth
  have hresolves : policy.Resolves url context path := by
    refine ⟨⟨?_, hpath.trans hposix.symm, hdepth, hcwd⟩, hroots⟩
    rw [hposix]
    rfl
  rw [resolveAccess_eq_iff hkind hposix hposition (by decide)]
  refine ⟨hresolves, ?_⟩
  have htop : ([], .write) ∈ policy.rules url context := by
    have hwritable : policy.hasRootAccess (·.canWrite) = true := by
      simp only [hasFullDiskWriteAccessForConvention, hkind, Option.any_some, Bool.and_eq_true] at hfull
      exact hfull.1
    simp only [hasRootAccess, Bool.and_eq_true, List.any_eq_true, beq_iff_eq,
      FileSystemAccessMode.canWrite_eq_true] at hwritable
    obtain ⟨-, entry, hentry, hentryRoot, haccess⟩ := hwritable
    obtain ⟨top, htop, htrail⟩ := fileSystemRoot_trail hposix hcwd
    refine (mem_rules_iff hposix).mpr ⟨entry, hentry, haccess, top, ?_, htrail⟩
    rw [hentryRoot, entryPaths, htop]
    exact List.mem_singleton_self top
  obtain ⟨trail, mode, hdecides⟩ := exists_decides htop (List.nil_prefix : [] <+: position)
  -- the rule that decides is not weaker than the one that writes at its trail
  obtain ⟨hdeny, hwrite⟩ := write_mem_rules hurl hposix hcwd hkind hfull hdecides.mem
  have hbest := hdecides.best _ hwrite hdecides.above
  refine ⟨trail, ?_⟩
  cases mode with
  | write => exact hdecides
  | deny => exact absurd rfl hdeny
  | read => simp [keyLe, FileSystemAccessMode.rank] at hbest

/-- Writing is allowed below a path that an entry of lower precedence only reads. -/
theorem shadowed_read_writable :
    resolveAccess plainUrl (restricted [.new (.special .root) .write, .new (.special .slashTmp) .read,
      .new (.path (localFile ["tmp"])) .write]) rootContext (localFile ["tmp", "x"]) = .write :=
  resolveAccess_of_fullDiskWrite rfl rfl (by decide +kernel) rfl (by decide +kernel) (by decide +kernel)
    (by decide +kernel) (by decide +kernel)

/-- A working directory with an encoded separator denies everything. -/
theorem encoded_separator_denies :
    hasFullDiskWriteAccessForConvention (restricted [.new (.special .root) .write]) (some .posix) = true ∧
      (localFile ["a%2Fb"]).inferPathConvention = some .posix ∧
      resolvedEntries plainUrl (restricted [.new (.special .root) .write])
        { rootContext with cwd := localFile ["a%2Fb"] } = [] ∧
      (localFile ["x"]).inferPathConvention = some .posix ∧ (localFile ["x"]).lexicalDepth = some 1 ∧
      resolveAccess plainUrl (restricted [.new (.special .root) .write])
        { rootContext with cwd := localFile ["a%2Fb"] } (localFile ["x"]) = .deny := by
  decide +kernel

end FileSystemSandboxPolicy

end SpineCodex
