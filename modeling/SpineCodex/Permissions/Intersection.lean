import SpineCodex.Permissions.ReadDeny

/-!
# Intersecting a grant with a request

A command asks for additional permissions and is granted some. Of the granted entries those are
accepted whose root the requested policy already gives that access. Of the denials of both sides
those are kept that meet an accepted root. Entries that depend on the context are first written out
for it; a denial that cannot be written out voids the grant.
-/

namespace SpineCodex

/-! ## Profiles -/

structure FileSystemPermissions where
  entries : List FileSystemSandboxEntry
  globScanMaxDepth : Option ℕ

structure NetworkPermissions where
  enabled : Option Bool
deriving DecidableEq

/-- Permissions on top of a profile. -/
structure AdditionalPermissionProfile where
  network : Option NetworkPermissions
  fileSystem : Option FileSystemPermissions

namespace AdditionalPermissionProfile

/-- The file-system entries of a profile. -/
def entries (profile : AdditionalPermissionProfile) : List FileSystemSandboxEntry :=
  (profile.fileSystem.map (·.entries)).getD []

end AdditionalPermissionProfile

/-! ## Equality of entries -/

/-- Windows paths are compared as paths and all else as it is written. -/
def FileSystemPath.eq : FileSystemPath → FileSystemPath → Bool
  | .path left, .path right => left.eq right
  | left, right => left == right

def FileSystemSandboxEntry.eq (left right : FileSystemSandboxEntry) : Bool :=
  left.path.eq right.path && left.access == right.access &&
    left.skipsMissingPath == right.skipsMissingPath

/-- Appends the entries that are not there yet. -/
def pushMissing (entries : List FileSystemSandboxEntry) :
    List FileSystemSandboxEntry → List FileSystemSandboxEntry
  | [] => entries
  | entry :: rest =>
    pushMissing (if entries.any (·.eq entry) then entries else entries ++ [entry]) rest

/-! ## Entries in a context -/

section Context

variable (rules : GlobRules)

def isRootEntry (entry : FileSystemSandboxEntry) : Bool := entry.path == .special .root

def accessCovers (requested : FileSystemAccessMode) : FileSystemAccessMode → Bool
  | .read => requested.canRead
  | .write => requested.canWrite
  | .deny => false

/-- The one location of a path; of several workspace roots or temporary directories the first. -/
def resolvePermissionPath (context : FileSystemSandboxPolicyContext) : FileSystemPath → Option PathUri
  | .path path => some path
  | .globPattern _ => none
  | .special .root => fileSystemRoot context
  | .special (.projectRoots subpath) => do
    let root ← context.workspaceRoots.head?
    match subpath with
    | some subpath => (root.join rules.toUrlRules subpath).toOption
    | none => some root
  | .special .tmpdir => context.temporaryDirectories.bind (·.head?)
  | .special .slashTmp =>
    if context.cwd.inferPathConvention = some .posix then
      (context.cwd.join rules.toUrlRules "/tmp".toList).toOption
    else none
  | .special .minimal | .special (.unknown _ _) => none

def materializedPathEntry (entry : FileSystemSandboxEntry) (path : PathUri) : FileSystemSandboxEntry :=
  ⟨.path path, entry.access, entry.skipsMissingPath⟩

/-- The directory of a glob, and the rest of its text. -/
def globPlace (context : FileSystemSandboxPolicyContext) (pattern : List Char) :
    Option (PathUri × List Char) :=
  let isWindows := context.cwd.inferPathConvention == some .windows
  let homeRelative := ((stripText "~/".toList pattern).or
    (if pattern = ['~'] then some [] else none)).or
    (if isWindows then stripText "~\\".toList pattern else none)
  match homeRelative with
  | some suffix => context.userHomeDir.map fun home => (home, trimSeparators isWindows suffix)
  | none => some (context.cwd, pattern)

/-- A glob as absolute text; other entries stay. -/
def materializeCwdDependentEntry (context : FileSystemSandboxPolicyContext)
    (entry : FileSystemSandboxEntry) : Option FileSystemSandboxEntry :=
  match entry.path with
  | .globPattern pattern => do
    let (root, rest) ← globPlace context pattern
    let path ← (root.join rules.toUrlRules rest).toOption
    return ⟨.globPattern (path.inferredNativePathString rules.toTextRules), entry.access,
      entry.skipsMissingPath⟩
  | _ => some entry

/-- Grants that cannot be written out are dropped; a denial that cannot be is an error. -/
def orVoid (entry : FileSystemSandboxEntry) : Option (List FileSystemSandboxEntry) :=
  if entry.access = .deny then none else some []

/-- The entries of one workspace-root entry, one for each root. -/
def materializeProjectRoots (context : FileSystemSandboxPolicyContext) (entry : FileSystemSandboxEntry) :
    Option (List FileSystemSandboxEntry) := do
  let resolved ← context.workspaceRoots.mapM fun root =>
    match resolvePermissionPath rules { context with workspaceRoots := [root] } entry.path with
    | some path => some [materializedPathEntry entry path]
    | none => orVoid entry
  let resolved := resolved.flatten
  if resolved = [] then orVoid entry else some resolved

/-- What one entry is written out to. -/
def materializeEntry (context : FileSystemSandboxPolicyContext) (entry : FileSystemSandboxEntry) :
    Option (List FileSystemSandboxEntry) :=
  match entry.path with
  | .special (.projectRoots _) => materializeProjectRoots rules context entry
  | .special .tmpdir =>
    match context.temporaryDirectories with
    | some directories => some (directories.map (materializedPathEntry entry))
    | none => if entry.access = .deny then none else some [entry]
  | .special .root => (fileSystemRoot context).map fun _ => [entry]
  | _ =>
    match materializeCwdDependentEntry rules context entry with
    | some entry => some [entry]
    | none => orVoid entry

def materializeContextDependentEntries (context : FileSystemSandboxPolicyContext)
    (entries : List FileSystemSandboxEntry) : Option (List FileSystemSandboxEntry) :=
  (entries.mapM (materializeEntry rules context)).map List.flatten

/-! ## Accepted grants -/

/-- Whether a granted entry stays within the request. -/
def grantedFileSystemEntryWithinRequest (requested requestedEntries : List FileSystemSandboxEntry)
    (context : FileSystemSandboxPolicyContext) (granted : FileSystemSandboxEntry) : Bool :=
  let convention := context.cwd.inferPathConvention
  if !granted.access.canRead || (granted.path == .special .slashTmp && convention != some .posix) then
    false
  else if convention == some .windows && isRootEntry granted &&
      !requested.any fun entry => isRootEntry entry && accessCovers entry.access granted.access then
    false
  else
    match resolvePermissionPath rules context granted.path with
    | some path =>
      if path.inferPathConvention ≠ convention ∨
          ReadDenyMatcher.isReadDeniedUri rules (.restricted requestedEntries) context path = true then
        false
      else accessCovers
        ((FileSystemSandboxPolicy.restricted requestedEntries).resolveAccess rules.toUrlRules context
          path) granted.access
    | none => requested.any fun entry =>
        accessCovers entry.access granted.access && entry.path.eq granted.path

/-- The literal directory in front of a glob. -/
def globStaticPrefixPath (context : FileSystemSandboxPolicyContext) (pattern : List Char) :
    Option PathUri := do
  let isWindows := context.cwd.inferPathConvention == some .windows
  let wildcard (c : Char) : Bool := c == '*' || c == '?' || c == '[' || c == ']'
  let literal := pattern.takeWhile (!wildcard ·)
  if pattern.any wildcard && literal.isEmpty then none
  else
    let inSegment := pattern.any wildcard &&
      !(literal.getLast? == some '/' || (isWindows && literal.getLast? == some '\\'))
    let path ← (context.cwd.join rules.toUrlRules literal).toOption
    if inSegment then path.parent else some path

def pathsOverlap (left right : PathUri) : Bool := (left.overlaps right).getD true

/-- Whether a denial meets an accepted grant, or may do so. -/
def denyEntryConstrainsAcceptedGrant (accepted : List FileSystemSandboxEntry)
    (context : FileSystemSandboxPolicyContext) (deny : FileSystemSandboxEntry) : Bool :=
  (accepted.filter (·.access.canRead)).any fun entry =>
    isRootEntry entry ||
      match resolvePermissionPath rules context entry.path with
      | none => true
      | some grantPath =>
        match deny.path with
        | .globPattern pattern =>
          (globStaticPrefixPath rules context pattern).all (pathsOverlap · grantPath)
        | path => (resolvePermissionPath rules context path).all (pathsOverlap · grantPath)

/-- The denials of a list that constrain an accepted grant. -/
def retainConstrainingDenyEntries (source accepted : List FileSystemSandboxEntry)
    (context : FileSystemSandboxPolicyContext) : List FileSystemSandboxEntry :=
  source.filter fun entry =>
    entry.access == .deny && denyEntryConstrainsAcceptedGrant rules accepted context entry

/-! ## Glob depth -/

inductive GlobScanDepth where
  | bounded (depth : ℕ)
  | unbounded
deriving DecidableEq

def effectiveGlobScanDepth (entries : List FileSystemSandboxEntry) (depth : Option ℕ) :
    Option GlobScanDepth :=
  if entries.any fun entry => entry.access == .deny &&
      match entry.path with
      | .globPattern _ => true
      | _ => false then
    some (depth.elim .unbounded .bounded)
  else none

def mergeGlobScanMaxDepth (leftEntries : List FileSystemSandboxEntry) (leftDepth : Option ℕ)
    (rightEntries : List FileSystemSandboxEntry) (rightDepth : Option ℕ) : Option ℕ :=
  match effectiveGlobScanDepth leftEntries leftDepth, effectiveGlobScanDepth rightEntries rightDepth with
  | some .unbounded, _ | _, some .unbounded => none
  | some (.bounded left), some (.bounded right) => some (max left right)
  | some (.bounded depth), none | none, some (.bounded depth) => some depth
  | none, none => none

/-! ## The intersection -/

def intersectFileSystem (requested granted : FileSystemPermissions)
    (context : FileSystemSandboxPolicyContext) : Option FileSystemPermissions := do
  let requestedEntries ← materializeContextDependentEntries rules context requested.entries
  let grantedEntries ← materializeContextDependentEntries rules context granted.entries
  let accepted := pushMissing [] (grantedEntries.filter
    (grantedFileSystemEntryWithinRequest rules requested.entries requestedEntries context))
  let requestedDenies := retainConstrainingDenyEntries rules requestedEntries accepted context
  let grantedDenies := retainConstrainingDenyEntries rules grantedEntries accepted context
  return {
    entries := pushMissing (pushMissing accepted requestedDenies) grantedDenies
    globScanMaxDepth := (mergeGlobScanMaxDepth requestedDenies requested.globScanMaxDepth grantedDenies
      granted.globScanMaxDepth).filter (· ≠ 0) }

def intersectPermissionProfilesWithContext (requested granted : AdditionalPermissionProfile)
    (context : FileSystemSandboxPolicyContext) : AdditionalPermissionProfile where
  fileSystem := (requested.fileSystem.bind fun requestedFileSystem =>
    intersectFileSystem rules requestedFileSystem (granted.fileSystem.getD ⟨[], none⟩) context).filter
      (!·.entries.isEmpty)
  network :=
    if requested.network = some ⟨some true⟩ ∧ granted.network = some ⟨some true⟩ then
      some ⟨some true⟩
    else none

end Context

end SpineCodex
