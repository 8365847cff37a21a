import SpineCodex.Paths.Native
import SpineCodex.Permissions.Precedence

/-!
# Writable roots

A sandbox is not given a policy but writable roots: each with subpaths that stay read-only and metadata names
that stay protected below it. They are computed from the native paths of the entries, and each root is checked
on its own, while the policy decides by its most specific entry and protects the metadata of every writable
root. Files are taken to have neither symbolic links nor git pointers, so that a path is its own effective
path, and the host is a POSIX one without system aliases.
-/

namespace SpineCodex

open PathUri (UrlRules plainUrl)

/-! ## Roots -/

/-- An entry at its native path. -/
structure ResolvedFileSystemEntry where
  path : AbsolutePathBuf
  access : FileSystemAccessMode
deriving DecidableEq

structure WritableRoot where
  root : AbsolutePathBuf
  readOnlySubpaths : List AbsolutePathBuf
  protectedMetadataNames : List (List Char)
deriving DecidableEq

namespace WritableRoot

/-- The first component below the root is a protected name. -/
def pathContainsProtectedMetadataName (root : WritableRoot) (path : AbsolutePathBuf) : Bool :=
  (path.names.drop root.root.names.length).head?.any fun first =>
    root.protectedMetadataNames.any fun name => first == asBytes name

def isPathWritable (root : WritableRoot) (path : AbsolutePathBuf) : Bool :=
  path.startsWith root.root && !root.readOnlySubpaths.any (path.startsWith ·) &&
    !root.pathContainsProtectedMetadataName path

end WritableRoot

/-- Whether writes to metadata of the file-system root get a root of their own. -/
inductive RootMetadataWriteMounts where
  | separate
  | inheritWritableRoot
deriving DecidableEq

def isProtectedMetadataName (name : List UInt8) : Bool :=
  protectedMetadataPathNames.any fun metadata => name == asBytes metadata

/-- The context of a command that works in a directory of the host. -/
def localContext (host : LocalHost) (cwd : AbsolutePathBuf) : FileSystemSandboxPolicyContext where
  cwd := host.fromAbsPath cwd
  workspaceRoots := [host.fromAbsPath cwd]
  userHomeDir := host.homeDirectory.map host.fromAbsPath
  temporaryDirectories := some (host.tmpdir.map host.fromAbsPath).toList

def slashTmp : AbsolutePathBuf := AbsolutePathBuf.root.pushComponent (asBytes "tmp".toList)

/-- The native path of an entry. -/
def resolveEntryPath (host : LocalHost) (cwd : AbsolutePathBuf) : FileSystemPath → Option AbsolutePathBuf
  | .path path => host.toAbsPath path
  | .globPattern _ => none
  | .special .root => some .root
  | .special (.projectRoots none) => some cwd
  | .special (.projectRoots (some subpath)) =>
    some (AbsolutePathBuf.resolvePathAgainstBase host.homeDirectory subpath cwd)
  | .special .tmpdir => host.tmpdir
  | .special .slashTmp => if host.isDir slashTmp then some slashTmp else none
  | .special .minimal | .special (.unknown _ _) => none

/-- The metadata of a writable root that exists; that of the working directory also before it exists. -/
def defaultReadOnlySubpathsForWritableRoot (host : LocalHost) (root : AbsolutePathBuf)
    (protectMissingDotCodex : Bool) : List AbsolutePathBuf :=
  let child (name : String) := root.pushComponent (asBytes name.toList)
  (if host.isDir (child ".git") || host.isFile (child ".git") then [child ".git"] else []) ++
    (if host.isDir (child ".agents") then [child ".agents"] else []) ++
    (if protectMissingDotCodex || host.isDir (child ".codex") then [child ".codex"] else []) ++
    (if host.isDir (child ".aws") then [child ".aws"] else [])

namespace FileSystemSandboxPolicy

variable (host : LocalHost) (policy : FileSystemSandboxPolicy) (cwd : AbsolutePathBuf)

def canWriteLocalPathWithCwd (path : AbsolutePathBuf) : Bool :=
  policy.canWritePath host.toUrlRules (localContext host cwd) (host.fromAbsPath path)

def resolvedEntriesWithCwd : List ResolvedFileSystemEntry :=
  policy.entries.filterMap fun entry =>
    (resolveEntryPath host cwd entry.path).map fun path => ⟨path, entry.access⟩

/-- The entries whose own path the policy treats as they say. -/
def effectiveEntries : List ResolvedFileSystemEntry :=
  (policy.resolvedEntriesWithCwd host cwd).filter fun entry =>
    entry.access.canWrite == policy.canWriteLocalPathWithCwd host cwd entry.path

def writableEntries (mounts : RootMetadataWriteMounts) : List ResolvedFileSystemEntry :=
  let writable := (policy.effectiveEntries host cwd).filter (·.access.canWrite)
  let inheritsRootMetadata :=
    mounts == .inheritWritableRoot && writable.any fun entry => entry.path == .root
  writable.filter fun entry =>
    !inheritsRootMetadata || entry.path.names.length != 1 ||
      !entry.path.names.getLast?.any isProtectedMetadataName

/-- The names below a root, under its effective and its written paths, that may not be written. -/
def protectedMetadataNamesForWritableRoot (root : AbsolutePathBuf)
    (rawWritableRoots : List AbsolutePathBuf) : List (List Char) :=
  protectedMetadataPathNames.filter fun name =>
    (root :: rawWritableRoots).all fun base =>
      !policy.canWriteLocalPathWithCwd host cwd (base.pushComponent (asBytes name))

/-- The default subpaths without an entry of their own, and the paths below the root that are not written. -/
def readOnlySubpaths (root : AbsolutePathBuf) : List AbsolutePathBuf :=
  (defaultReadOnlySubpathsForWritableRoot host root (cwd == root)).filter (fun path =>
      !(policy.resolvedEntriesWithCwd host cwd).any (·.path == path)) ++
    ((policy.effectiveEntries host cwd).filter (!·.access.canWrite)).filterMap fun entry =>
      if entry.path ≠ root ∧ entry.path.startsWith root = true then some entry.path else none

def getWritableRootsWithCwdImpl (mounts : RootMetadataWriteMounts) : List WritableRoot :=
  if policy.hasFullDiskWriteAccessForConvention (some .posix) then []
  else if (policy.resolvedEntriesWithCwd host cwd).all (!·.access.canWrite) then []
  else if (policy.effectiveEntries host cwd).all (!·.access.canWrite) then []
  else
    let writable := policy.writableEntries host cwd mounts
    (writable.map (·.path)).eraseDups.map fun root =>
      { root
        readOnlySubpaths := (policy.readOnlySubpaths host cwd root).eraseDups
        protectedMetadataNames := policy.protectedMetadataNamesForWritableRoot host cwd root
          ((writable.filter (·.path == root)).map (·.path)) }

def getWritableRootsWithCwd : List WritableRoot := policy.getWritableRootsWithCwdImpl host cwd .separate

def getWritableRootsWithCwdInheritingRootMetadata : List WritableRoot :=
  policy.getWritableRootsWithCwdImpl host cwd .inheritWritableRoot

end FileSystemSandboxPolicy

/-! ## Metadata directories -/

/-- A name that is a component of a path as it is written. -/
structure PlainName (name : List Char) : Prop where
  ne_nil : name ≠ []
  no_null : '\x00' ∉ name
  relative : name.head? ≠ some '/'
  no_dot : name ≠ ".".toList
  no_dots : name ≠ "..".toList
  one_segment : PathConvention.posix.pathSegments name = [name]
  no_drive : isWindowsDriveUriSegment name = false
  decoded : decodeBinary name = asBytes name
  no_slash : (47 : UInt8) ∉ asBytes name

theorem plainName_of_metadata {name : List Char} (h : name ∈ protectedMetadataPathNames) : PlainName name := by
  have hall : ∀ name ∈ protectedMetadataPathNames, name ≠ [] ∧ '\x00' ∉ name ∧ name.head? ≠ some '/' ∧
      name ≠ ".".toList ∧ name ≠ "..".toList ∧ PathConvention.posix.pathSegments name = [name] ∧
      isWindowsDriveUriSegment name = false ∧ decodeBinary name = asBytes name ∧
      (47 : UInt8) ∉ asBytes name := by decide +kernel
  obtain ⟨h1, h2, h3, h4, h5, h6, h7, h8, h9⟩ := hall name h
  exact ⟨h1, h2, h3, h4, h5, h6, h7, h8, h9⟩

theorem normalName_of_metadata {name : List Char} (h : name ∈ protectedMetadataPathNames) :
    NormalName (asBytes name) := by
  revert name
  decide +kernel

namespace PathUri

variable {url : UrlRules} {segments : List (List Char)} {name : List Char}

theorem join_of_plainName (hposix : (file none segments).inferPathConvention = some .posix)
    (hname : PlainName name) :
    (file none segments).join url name = tryFrom none (url.push (popIfEmpty segments) name) := by
  rw [join, if_neg hname.no_null, if_neg hname.ne_nil, hposix]
  dsimp only
  rw [fromAbsoluteNativePath_of_relative url hname.relative]
  simp only [hname.one_segment, joinComponents, hname.ne_nil, false_or]
  rw [if_neg hname.no_dot, if_neg hname.no_dots]
  rfl

/-- A pushed name is the last of the segments that count. -/
theorem filter_push (segments : List (List Char)) (hname : name ≠ []) :
    (plainUrl.push (popIfEmpty segments) name).filter (!·.isEmpty) =
      segments.filter (!·.isEmpty) ++ [name] := by
  have hpop : (popIfEmpty segments).filter (!·.isEmpty) = segments.filter (!·.isEmpty) := by
    rw [popIfEmpty]
    split_ifs with h
    · obtain ⟨before, rfl⟩ := List.getLast?_eq_some_iff.mp h.2
      simp
    · rfl
  have hkept : [name].filter (!·.isEmpty) = [name] := by simp [hname]
  simp only [plainUrl]
  split_ifs with hroot
  · rw [← hpop, hroot, hkept]
    rfl
  · rw [List.filter_append, hpop, hkept]

/-- The trail of a directory below a URI. -/
theorem trail_of_joinDescendant {base dir : PathUri} {t : List (List UInt8)}
    (hpush : ∀ segments, url.push segments name = plainUrl.push segments name) (hname : PlainName name)
    (hbase : base.trail = some t) (h : base.joinDescendant url name = .ok dir) :
    dir.trail = some (t ++ [asBytes name]) := by
  obtain ⟨segments, kept, rfl, hposix, hkept, rfl⟩ := trail_eq_some hbase
  simp only [joinDescendant, except_bind_eq_ok] at h
  obtain ⟨joined, hjoined, h⟩ := h
  split_ifs at h
  obtain rfl := Except.ok.inj h
  rw [join_of_plainName hposix hname, hpush, tryFrom_none] at hjoined
  split_ifs at hjoined
  rw [← Except.ok.inj hjoined]
  rw [containmentPathSegments, Option.ite_none_left_eq_some, Option.some.injEq] at hkept
  have hfilter := filter_push segments hname.ne_nil
  rw [hkept.2] at hfilter
  have hconvention : (file none (plainUrl.push (popIfEmpty segments) name)).inferPathConvention =
      some .posix := by
    rw [inferPathConvention, ← List.head?_filter, hkept.2] at hposix
    rw [inferPathConvention, ← List.head?_filter, hfilter]
    cases kept with
    | nil => simp [hname.no_drive]
    | cons first kept => exact hposix
  have hsegments : containmentPathSegments .posix (plainUrl.push (popIfEmpty segments) name) =
      some (kept ++ [name]) := by
    simp only [containmentPathSegments, hfilter]
    rw [if_neg]
    intro hambiguous
    rw [List.any_append, Bool.or_eq_true] at hambiguous
    cases hambiguous with
    | inl hbefore => exact hkept.1 (hkept.2 ▸ hbefore)
    | inr hlast => simp [hname.decoded, hname.no_slash] at hlast
  rw [withNormalizedWindowsDriveLetter_of_posix hconvention, trail, if_pos hconvention, hsegments,
    Option.map_some, List.map_append, List.map_singleton, hname.decoded]

end PathUri

/-! ## Trails above a path -/

namespace PathUri

variable {path base : PathUri} {t : List (List UInt8)}

theorem inferPathConvention_of_startsWith (h : path.startsWith base = true) :
    path.inferPathConvention = base.inferPathConvention := by
  rw [startsWith.eq_def, Bool.or_eq_true] at h
  rcases h with heq | h
  · exact inferPathConvention_of_eq heq
  · split at h
    · split_ifs at h with hdiffer
      exact not_not.mp (not_or.mp hdiffer).2
    · cases h

/-- What a URI with a trail lies below has one too. -/
theorem exists_trail_of_startsWith (hpath : path.trail = some t) (h : path.startsWith base = true) :
    ∃ s, base.trail = some s ∧ s <+: t := by
  have hposix := (inferPathConvention_of_startsWith h).symm.trans (inferPathConvention_of_trail hpath)
  obtain ⟨host, keys, hposition, -⟩ := exists_position (lexicalDepth_of_trail hpath)
  obtain ⟨host', keys', hposition'⟩ := exists_position_of_startsWith hposition h
  have hdepth : base.lexicalDepth.isSome = true := by
    rw [lexicalDepth_eq_map_position, hposition']
    rfl
  obtain ⟨s, hs⟩ := exists_trail hposix hdepth
  exact ⟨s, hs, (startsWith_iff_isPrefix hpath hs).mp h⟩

end PathUri

/-- A rule that decides about a path decides about what lies between. -/
theorem Decides.of_isPrefix {α : Type*} {rules : List (List α × FileSystemAccessMode)}
    {position between trail : List α} {mode : FileSystemAccessMode}
    (h : Decides rules position trail mode) (habove : trail <+: between) (hbelow : between <+: position) :
    Decides rules between trail mode :=
  ⟨h.mem, habove, fun other hother hbefore ↦ h.best other hother (hbefore.trans hbelow)⟩

/-- What is found first among more is found first among fewer that it is one of. -/
theorem find?_of_imp {α : Type*} {l : List α} {p q : α → Bool} {x : α} (h : l.find? p = some x)
    (hx : q x = true) (himp : ∀ y, q y = true → p y = true) : l.find? q = some x := by
  obtain ⟨-, before, after, rfl, hbefore⟩ := List.find?_eq_some_iff_append.mp h
  refine List.find?_eq_some_iff_append.mpr ⟨hx, before, after, rfl, fun y hy ↦ ?_⟩
  have hp := hbefore y hy
  rw [Bool.not_eq_true'] at hp ⊢
  exact Bool.eq_false_of_not_eq_true fun hq ↦ Bool.false_ne_true (hp.symm.trans (himp y hq))

namespace FileSystemSandboxPolicy

section Metadata

variable {url : UrlRules} {policy : FileSystemSandboxPolicy} {context : FileSystemSandboxPolicyContext}
  {path : PathUri}

/-- The metadata directories of one entry. -/
def metadataDirsOf (url : UrlRules) (entry : PathUri × FileSystemAccessMode) : List (PathUri × List Char) :=
  if entry.2.canWrite then
    protectedMetadataPathNames.filterMap fun name =>
      (entry.1.joinDescendant url name).toOption.map fun dir => (dir, name)
  else []

/-- The metadata directories of the writable roots. -/
def metadataDirs (url : UrlRules) (policy : FileSystemSandboxPolicy)
    (context : FileSystemSandboxPolicyContext) : List (PathUri × List Char) :=
  (policy.resolvedEntries url context).flatMap (metadataDirsOf url)

theorem protectedAbove_eq_filter (entry : PathUri × FileSystemAccessMode) :
    protectedAbove url path entry = (metadataDirsOf url entry).filter (path.startsWith ·.1) := by
  rw [protectedAbove, metadataDirsOf]
  split_ifs
  · rw [List.filter_filterMap]
    apply List.filterMap_congr
    intro name _
    cases entry.1.joinDescendant url name with
    | error e => rfl
    | ok dir => simp [Except.toOption, Option.filter]
  · rfl

/-- The check for metadata looks for the first directory above the path. -/
theorem findSome?_protectedAbove :
    (policy.resolvedEntries url context).findSome? (fun entry => (protectedAbove url path entry).head?) =
      (policy.metadataDirs url context).find? (path.startsWith ·.1) := by
  rw [← List.head?_filter, metadataDirs, List.filter_flatMap, List.head?_flatMap]
  simp only [protectedAbove_eq_filter]

theorem metadataWriteDenial_isNone_iff (hkind : policy.kind = .restricted) :
    (policy.metadataWriteDenial url context path).isNone = true ↔
      ∀ found, (policy.metadataDirs url context).find? (path.startsWith ·.1) = some found →
        policy.reopens url context path found.1 = true := by
  rw [metadataWriteDenial, if_neg (not_not_intro hkind), findSome?_protectedAbove]
  cases (policy.metadataDirs url context).find? (path.startsWith ·.1) with
  | none => simp
  | some found => simp

end Metadata

/-! ## Paths that a root accepts -/

section Local

variable {host : LocalHost} {policy : FileSystemSandboxPolicy} {cwd path base : AbsolutePathBuf}
  {mounts : RootMetadataWriteMounts} {root : WritableRoot}

/-- What the `url` crate says of its encoding, and of the names of metadata directories in a path. -/
structure LawfulHost (host : LocalHost) : Prop where
  decodes : host.Decodes
  push_metadata : ∀ segments, ∀ name ∈ protectedMetadataPathNames,
    host.push segments name = plainUrl.push segments name

/-- A root accepts what lies below it and in none of the parts that are taken out. -/
theorem of_isPathWritable (h : root.isPathWritable path = true) :
    root.root.names <+: path.names ∧ (∀ subpath ∈ root.readOnlySubpaths, ¬ subpath.names <+: path.names) ∧
      ∀ name ∈ root.protectedMetadataNames, ¬ root.root.names ++ [asBytes name] <+: path.names := by
  simp only [WritableRoot.isPathWritable, Bool.and_eq_true, Bool.not_eq_true', List.any_eq_false,
    AbsolutePathBuf.startsWith, List.isPrefixOf_iff_prefix] at h
  refine ⟨h.1.1, h.1.2, ?_⟩
  rintro name hname ⟨rest, hrest⟩
  have hfirst : (path.names.drop root.root.names.length).head? = some (asBytes name) := by
    rw [← hrest, List.append_assoc, List.drop_left]
    rfl
  have hnot := h.2
  rw [WritableRoot.pathContainsProtectedMetadataName, hfirst, Option.any_some, List.any_eq_false] at hnot
  exact hnot name hname BEq.rfl

/-- What is known of a root that is returned. -/
theorem of_mem_getWritableRoots (h : root ∈ policy.getWritableRootsWithCwdImpl host cwd mounts) :
    policy.hasFullDiskWriteAccessForConvention (some .posix) = false ∧
      policy.canWriteLocalPathWithCwd host cwd root.root = true ∧
      (∀ entry ∈ policy.effectiveEntries host cwd, entry.access ≠ .write → entry.path ≠ root.root →
        root.root.names <+: entry.path.names → entry.path ∈ root.readOnlySubpaths) ∧
      ∀ name ∈ protectedMetadataPathNames,
        policy.canWriteLocalPathWithCwd host cwd (root.root.pushComponent (asBytes name)) = false →
          name ∈ root.protectedMetadataNames := by
  rw [getWritableRootsWithCwdImpl] at h
  split_ifs at h with hdisk
  · cases h
  · cases h
  · cases h
  obtain ⟨path, hpath, rfl⟩ := List.mem_map.mp h
  rw [List.mem_eraseDups, List.mem_map] at hpath
  obtain ⟨entry, hentry, rfl⟩ := hpath
  simp only [writableEntries, List.mem_filter] at hentry
  refine ⟨Bool.eq_false_of_not_eq_true hdisk, ?_, ?_, ?_⟩
  · have heffective := (List.mem_filter.mp hentry.1.1).2
    rw [beq_iff_eq, hentry.1.2] at heffective
    exact heffective.symm
  · intro other hother haccess hne hbelow
    rw [List.mem_eraseDups, readOnlySubpaths, List.mem_append, List.mem_filterMap]
    refine .inr ⟨other, List.mem_filter.mpr ⟨hother, ?_⟩, ?_⟩
    · rw [Bool.not_eq_true']
      exact Bool.eq_false_of_not_eq_true fun hwrite ↦
        haccess (FileSystemAccessMode.canWrite_eq_true.mp hwrite)
    · rw [if_pos ⟨hne, List.isPrefixOf_iff_prefix.mpr hbelow⟩]
  · intro name hname hdenied
    refine List.mem_filter.mpr ⟨hname, List.all_eq_true.mpr fun base hbase ↦ ?_⟩
    have hroot : base = entry.path := by
      rw [List.mem_cons, List.mem_map] at hbase
      obtain rfl | ⟨other, hother, rfl⟩ := hbase
      · rfl
      · exact beq_iff_eq.mp (List.mem_filter.mp hother).2
    rw [hroot, hdenied]
    rfl

theorem inferPathConvention_localContext (h : policy.canWriteLocalPathWithCwd host cwd path = true)
    (hkind : policy.kind = .restricted) :
    host.Ordinary path ∧ (localContext host cwd).cwd.inferPathConvention = some .posix := by
  rw [canWriteLocalPathWithCwd, canWritePath, Bool.and_eq_true, FileSystemAccessMode.canWrite_eq_true] at h
  have haccess : policy.resolveAccess host.toUrlRules (localContext host cwd) (host.fromAbsPath path) ≠ .deny := by
    rw [h.1]
    decide
  obtain ⟨-, hconvention, hdepth, -⟩ := (resolves_of_resolveAccess hkind haccess).comparable
  have hordinary : host.Ordinary path := by
    by_contra hnot
    rw [LocalHost.lexicalDepth_of_not_ordinary hnot] at hdepth
    cases hdepth
  refine ⟨hordinary, ?_⟩
  rw [← hconvention, hordinary.fromAbsPath]
  exact hordinary.2

/-- An ordinary path is written where a rule that writes decides and metadata is open. -/
theorem canWriteLocalPath_iff (hhost : LawfulHost host) (hkind : policy.kind = .restricted)
    (hposix : (localContext host cwd).cwd.inferPathConvention = some .posix)
    (hdisk : policy.hasFullDiskWriteAccessForConvention (some .posix) = false)
    (hordinary : host.Ordinary path) :
    policy.canWriteLocalPathWithCwd host cwd path = true ↔
      (policy.Resolves host.toUrlRules (localContext host cwd) (host.fromAbsPath path) ∧
        ∃ trail, Decides (policy.rules host.toUrlRules (localContext host cwd)) path.names trail .write) ∧
      ∀ found, (policy.metadataDirs host.toUrlRules (localContext host cwd)).find?
          ((host.fromAbsPath path).startsWith ·.1) = some found →
        policy.reopens host.toUrlRules (localContext host cwd) (host.fromAbsPath path) found.1 = true := by
  rw [canWriteLocalPathWithCwd, canWritePath, hasFullDiskWriteAccessWithContext, hposix, hdisk, Bool.false_or,
    Bool.and_eq_true, FileSystemAccessMode.canWrite_eq_true, metadataWriteDenial_isNone_iff hkind,
    resolveAccess_eq_iff hkind hposix (hordinary.trail hhost.decodes) (by decide)]

/-- What is above a path is above everything below it. -/
theorem startsWith_of_isPrefix (hhost : LawfulHost host) (hordinary : host.Ordinary path)
    (hbelow : base.names <+: path.names) {uri : PathUri}
    (h : (host.fromAbsPath base).startsWith uri = true) : (host.fromAbsPath path).startsWith uri = true := by
  have hbase := (hordinary.of_isPrefix hbelow).trail hhost.decodes
  obtain ⟨s, hs, habove⟩ := PathUri.exists_trail_of_startsWith hbase h
  exact (PathUri.startsWith_iff_isPrefix (hordinary.trail hhost.decodes) hs).mpr (habove.trans hbelow)

/-- A metadata directory that is found first is reopened if it is above a path in between that is written. -/
theorem reopens_of_canWrite (hhost : LawfulHost host) (hkind : policy.kind = .restricted)
    (hdisk : policy.hasFullDiskWriteAccessForConvention (some .posix) = false)
    (hordinary : host.Ordinary path) (hbelow : base.names <+: path.names)
    (hbase : policy.canWriteLocalPathWithCwd host cwd base = true) {found : PathUri × List Char}
    (hfind : (policy.metadataDirs host.toUrlRules (localContext host cwd)).find?
      ((host.fromAbsPath path).startsWith ·.1) = some found)
    (habove : (host.fromAbsPath base).startsWith found.1 = true) :
    policy.reopens host.toUrlRules (localContext host cwd) (host.fromAbsPath path) found.1 = true := by
  have hmono := @startsWith_of_isPrefix host path base hhost hordinary hbelow
  have hposix := (inferPathConvention_localContext hbase hkind).2
  have hopen := ((canWriteLocalPath_iff hhost hkind hposix hdisk (hordinary.of_isPrefix hbelow)).mp hbase).2
  have hreopened := hopen found (find?_of_imp hfind habove fun _ h ↦ hmono h)
  obtain ⟨entry, hentry, hcovers⟩ := List.any_eq_true.mp hreopened
  simp only [Bool.and_eq_true] at hcovers
  refine List.any_eq_true.mpr ⟨entry, hentry, ?_⟩
  simp only [Bool.and_eq_true]
  exact ⟨⟨hcovers.1.1, hmono hcovers.1.2⟩, hcovers.2⟩

/-- A metadata directory is one component below the root that it belongs to. -/
theorem of_mem_metadataDirs (hhost : LawfulHost host) {found : PathUri × List Char}
    (h : found ∈ policy.metadataDirs host.toUrlRules (localContext host cwd)) {trail : List (List UInt8)}
    (htrail : found.1.trail = some trail) :
    found.2 ∈ protectedMetadataPathNames ∧ ∃ before, trail = before ++ [asBytes found.2] := by
  obtain ⟨entry, -, hdir⟩ := List.mem_flatMap.mp h
  rw [metadataDirsOf] at hdir
  split_ifs at hdir
  · obtain ⟨name, hname, hjoin⟩ := List.mem_filterMap.mp hdir
    obtain ⟨dir, hsome, rfl⟩ := Option.map_eq_some_iff.mp hjoin
    have hok := toOption_eq_some hsome
    have hbelow := PathUri.startsWith_of_joinDescendant hok
    obtain ⟨before, hbefore, -⟩ := PathUri.exists_trail_of_startsWith htrail hbelow
    have hdirTrail := PathUri.trail_of_joinDescendant (hhost.push_metadata · name hname)
      (plainName_of_metadata hname) hbefore hok
    exact ⟨hname, before, Option.some.inj (htrail.symm.trans hdirTrail)⟩
  · cases hdir

/-- The entry that decides about a path is one of the host's native paths, unless it writes. -/
def DecidingEntrySeen (host : LocalHost) (policy : FileSystemSandboxPolicy) (cwd path : AbsolutePathBuf) : Prop :=
  ∀ trail mode, Decides (policy.rules host.toUrlRules (localContext host cwd)) path.names trail mode →
    mode ≠ .write →
    ∃ entry ∈ policy.resolvedEntriesWithCwd host cwd, entry.path.names = trail ∧ entry.access = mode

/-- The first metadata directory above a path is closed, and belongs to a writable root below the given one. -/
def NestedMetadataClosed (host : LocalHost) (policy : FileSystemSandboxPolicy)
    (cwd root path : AbsolutePathBuf) : Prop :=
  ∃ found trail, (policy.metadataDirs host.toUrlRules (localContext host cwd)).find?
      ((host.fromAbsPath path).startsWith ·.1) = some found ∧
    policy.reopens host.toUrlRules (localContext host cwd) (host.fromAbsPath path) found.1 = false ∧
    found.1.trail = some trail ∧ root.names.length + 1 < trail.length

/-- A path that a root accepts is decided by an entry that writes, if the deciding one is seen. -/
theorem decides_write_of_seen (hhost : LawfulHost host) (hkind : policy.kind = .restricted)
    (hroot : root ∈ policy.getWritableRootsWithCwdImpl host cwd mounts)
    (haccepted : root.isPathWritable path = true) (hordinary : host.Ordinary path)
    (hseen : policy.DecidingEntrySeen host cwd path) :
    ∃ trail, Decides (policy.rules host.toUrlRules (localContext host cwd)) path.names trail .write := by
  obtain ⟨hdisk, hwrite, hcarved, -⟩ := of_mem_getWritableRoots hroot
  obtain ⟨hbelow, hsubpaths, -⟩ := of_isPathWritable haccepted
  obtain ⟨hordinaryRoot, hposix⟩ := inferPathConvention_localContext hwrite hkind
  obtain ⟨⟨-, trailRoot, hdecidesRoot⟩, -⟩ :=
    (canWriteLocalPath_iff hhost hkind hposix hdisk hordinaryRoot).mp hwrite
  obtain ⟨trail, mode, hdecides⟩ := exists_decides hdecidesRoot.mem (hdecidesRoot.above.trans hbelow)
  have habove : ¬ trail <+: root.root.names ∨ mode = .write := by
    by_contra hnot
    push Not at hnot
    exact hnot.2 ((hdecides.of_isPrefix hnot.1 hbelow).mode_eq hdecidesRoot)
  by_contra hnone
  have hmode : mode ≠ .write := fun h ↦ hnone ⟨trail, h ▸ hdecides⟩
  obtain ⟨entry, hentry, rfl, rfl⟩ := hseen trail mode hdecides hmode
  -- the deciding entry is denied at its own path, so it is taken out of the root
  have hdenied : policy.canWriteLocalPathWithCwd host cwd entry.path = false := by
    by_contra htrue
    have hordinaryEntry := hordinary.of_isPrefix hdecides.above
    obtain ⟨⟨-, other, hother⟩, -⟩ := (canWriteLocalPath_iff hhost hkind hposix hdisk hordinaryEntry).mp
      (Bool.eq_true_of_not_eq_false htrue)
    exact hmode ((hdecides.of_isPrefix (List.prefix_refl _) hdecides.above).mode_eq hother)
  have heffective : entry ∈ policy.effectiveEntries host cwd := by
    refine List.mem_filter.mpr ⟨hentry, ?_⟩
    rw [hdenied, beq_iff_eq]
    exact Bool.eq_false_of_not_eq_true fun h ↦ hmode (FileSystemAccessMode.canWrite_eq_true.mp h)
  have hnot := habove.resolve_right hmode
  have hinside : root.root.names <+: entry.path.names :=
    (List.prefix_or_prefix_of_prefix hdecides.above hbelow).resolve_left hnot
  have hne : entry.path ≠ root.root := fun h ↦ hnot (h ▸ List.prefix_refl _)
  exact hsubpaths _ (hcarved entry heffective hmode hne hinside) hdecides.above

/-- Metadata above a path that a root accepts is open, apart from that of nested roots. -/
theorem reopens_of_not_nested (hhost : LawfulHost host) (hkind : policy.kind = .restricted)
    (hroot : root ∈ policy.getWritableRootsWithCwdImpl host cwd mounts)
    (haccepted : root.isPathWritable path = true) (hordinary : host.Ordinary path)
    (hnested : ¬ policy.NestedMetadataClosed host cwd root.root path) {found : PathUri × List Char}
    (hfind : (policy.metadataDirs host.toUrlRules (localContext host cwd)).find?
      ((host.fromAbsPath path).startsWith ·.1) = some found) :
    policy.reopens host.toUrlRules (localContext host cwd) (host.fromAbsPath path) found.1 = true := by
  obtain ⟨hdisk, hwrite, -, hprotected⟩ := of_mem_getWritableRoots hroot
  obtain ⟨hbelow, -, hnames⟩ := of_isPathWritable haccepted
  have htrailPath := hordinary.trail hhost.decodes
  have hstarts : (host.fromAbsPath path).startsWith found.1 = true :=
    (List.find?_eq_some_iff_append.mp hfind).1
  obtain ⟨trail, htrail, habove⟩ := PathUri.exists_trail_of_startsWith htrailPath hstarts
  by_contra hclosed
  have hlength : trail.length ≤ root.root.names.length + 1 := by
    by_contra hlong
    exact hnested ⟨found, trail, hfind, Bool.eq_false_of_not_eq_true hclosed, htrail, by omega⟩
  have hreopens : ∀ {base : AbsolutePathBuf}, policy.canWriteLocalPathWithCwd host cwd base = true →
      base.names <+: path.names → trail <+: base.names → False := by
    intro base hbase hbaseBelow htrailBase
    have hstarts := (PathUri.startsWith_iff_isPrefix
      ((hordinary.of_isPrefix hbaseBelow).trail hhost.decodes) htrail).mpr htrailBase
    exact hclosed (reopens_of_canWrite hhost hkind hdisk hordinary hbaseBelow hbase hfind hstarts)
  rcases hlength.lt_or_eq with hlt | heq
  · exact hreopens hwrite hbelow (List.prefix_of_prefix_length_le habove hbelow (by omega))
  · -- it is the metadata of the root itself, and the root accepts what is below its open metadata only
    obtain ⟨hname, before, rfl⟩ := of_mem_metadataDirs hhost (List.mem_of_find?_eq_some hfind) htrail
    have hbefore : before = root.root.names := by
      rw [List.length_append, List.length_singleton] at heq
      exact (List.prefix_of_prefix_length_le ((List.prefix_append before _).trans habove) hbelow
        (by omega)).eq_of_length (by omega)
    subst hbefore
    have hnames' : (root.root.pushComponent (asBytes found.2)).names = root.root.names ++ [asBytes found.2] :=
      AbsolutePathBuf.names_pushComponent (normalName_of_metadata hname)
    refine hreopens ?_ (hnames' ▸ habove) (hnames' ▸ List.prefix_refl _)
    by_contra hdenied
    exact hnames _ (hprotected _ hname (Bool.eq_false_of_not_eq_true hdenied)) habove

/-- A path that a writable root accepts is written by the policy exactly if it is an ordinary one, its deciding
entry is seen and it is not in closed metadata of a root nested in that one. -/
theorem canWriteLocalPath_of_isPathWritable_iff (hhost : LawfulHost host) (hkind : policy.kind = .restricted)
    (hroot : root ∈ policy.getWritableRootsWithCwdImpl host cwd mounts)
    (haccepted : root.isPathWritable path = true) :
    policy.canWriteLocalPathWithCwd host cwd path = true ↔
      host.Ordinary path ∧ policy.DecidingEntrySeen host cwd path ∧
        ¬ policy.NestedMetadataClosed host cwd root.root path := by
  obtain ⟨hdisk, hwrite, -⟩ := of_mem_getWritableRoots hroot
  obtain ⟨hbelow, -⟩ := of_isPathWritable haccepted
  obtain ⟨hordinaryRoot, hposix⟩ := inferPathConvention_localContext hwrite hkind
  constructor
  · intro h
    have hordinary := (inferPathConvention_localContext h hkind).1
    obtain ⟨⟨-, trail, hdecides⟩, hopen⟩ := (canWriteLocalPath_iff hhost hkind hposix hdisk hordinary).mp h
    refine ⟨hordinary, fun other mode hother hmode ↦ absurd (hother.mode_eq hdecides) hmode, ?_⟩
    rintro ⟨found, _, hfind, hclosed, -⟩
    rw [hopen found hfind] at hclosed
    cases hclosed
  · rintro ⟨hordinary, hseen, hnested⟩
    have hresolves := ((canWriteLocalPath_iff hhost hkind hposix hdisk hordinaryRoot).mp hwrite).1.1
    have htrail := hordinary.trail hhost.decodes
    have hcomparable : Comparable (localContext host cwd) (host.fromAbsPath path) := by
      refine ⟨hresolves.comparable.1, ?_, ?_, hresolves.comparable.2.2.2⟩
      · rw [hposix, PathUri.inferPathConvention_of_trail htrail]
      · rw [PathUri.lexicalDepth_of_trail htrail]
        rfl
    rw [canWriteLocalPath_iff hhost hkind hposix hdisk hordinary]
    exact ⟨⟨⟨hcomparable, hresolves.unambiguous⟩,
      decides_write_of_seen hhost hkind hroot haccepted hordinary hseen⟩,
      fun _ hfind ↦ reopens_of_not_nested hhost hkind hroot haccepted hordinary hnested hfind⟩

end Local

/-! ## Nested roots -/

def hexChar (n : ℕ) : Char := Char.ofNat (if n < 10 then 48 + n else 55 + n)

theorem hexDigit_hexChar : ∀ n < 16, hexDigit (hexChar n) = some n := by decide

/-- A host that escapes every byte, with an empty file system. -/
def escapingHost : LocalHost where
  toUrlRules := plainUrl
  encode name := name.flatMap fun byte => ['%', hexChar (byte.toNat / 16), hexChar (byte.toNat % 16)]
  homeDirectory := none
  tmpdir := none
  isDir _ := false
  isFile _ := false

theorem escapingHost_lawful : LawfulHost escapingHost where
  decodes name := by
    induction name with
    | nil => rfl
    | cons byte name ih =>
      have hbyte : byte.toNat < 256 := byte.toNat_lt
      have hhigh := hexDigit_hexChar (byte.toNat / 16) (by omega)
      have hlow := hexDigit_hexChar (byte.toNat % 16) (by omega)
      change decodeBinary ('%' :: _ :: _ :: escapingHost.encode name) = _
      rw [decodeBinary_escape hhigh hlow, ih, Nat.div_add_mod, UInt8.ofNat_toNat]
  push_metadata _ _ _ := rfl

def nativePath (text : String) : AbsolutePathBuf := .absolutizeFrom (asBytes text.toList) .root

/-- A directory may be written, and one below it too. -/
def nestedDirectories : FileSystemSandboxPolicy :=
  .restricted [.new (.path (.localFile ["a"])) .write, .new (.path (.localFile ["a", "b"])) .write]

/-- The outer root accepts a path in the metadata of the inner one, which the policy does not write. -/
theorem inner_metadata_accepted :
    ∃ root ∈ nestedDirectories.getWritableRootsWithCwd escapingHost (nativePath "/w"),
      root.isPathWritable (nativePath "/a/b/.git/x") = true ∧
        nestedDirectories.canWriteLocalPathWithCwd escapingHost (nativePath "/w")
          (nativePath "/a/b/.git/x") = false := by
  decide +kernel

/-- Other paths below the inner root are in no closed metadata. -/
theorem inner_path_agrees :
    ∃ root ∈ nestedDirectories.getWritableRootsWithCwd escapingHost (nativePath "/w"),
      root.isPathWritable (nativePath "/a/b/x") = true ∧
        nestedDirectories.DecidingEntrySeen escapingHost (nativePath "/w") (nativePath "/a/b/x") ∧
        ¬ nestedDirectories.NestedMetadataClosed escapingHost (nativePath "/w") root.root (nativePath "/a/b/x") := by
  have hwritten : ∃ root ∈ nestedDirectories.getWritableRootsWithCwd escapingHost (nativePath "/w"),
      root.isPathWritable (nativePath "/a/b/x") = true ∧
        nestedDirectories.canWriteLocalPathWithCwd escapingHost (nativePath "/w")
          (nativePath "/a/b/x") = true := by decide +kernel
  obtain ⟨root, hroot, haccepted, hwrite⟩ := hwritten
  exact ⟨root, hroot, haccepted,
    ((canWriteLocalPath_of_isPathWritable_iff escapingHost_lawful rfl hroot haccepted).mp hwrite).2⟩

end FileSystemSandboxPolicy

end SpineCodex
