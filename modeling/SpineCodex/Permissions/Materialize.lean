import SpineCodex.Permissions.Intersection

/-!
# Materialised and approved policies

Entries for the workspace roots are replaced by concrete ones, one for each root. A subpath that would
leave its root is refused there: a denial or a read entry then denies the root itself, and a write
entry is dropped. For an approved command a policy keeps its denials only, and the whole file system
with the metadata directories at its root can be written. If the denials cannot be checked strictly,
or deny the root, the policy stays as it is.
-/

namespace SpineCodex

def projectRootsGlobPatternPrefix : List Char := "codex-project-roots://".toList

section Materialize

variable (rules : GlobRules)

/-- A path below a workspace root, in the root's own convention. -/
def resolveScopedWorkspacePath (root : PathUri) (subpath : List Char) : Option PathUri := do
  let convention ← root.inferPathConvention
  let windows := convention == .windows
  let segments := convention.pathSegments subpath
  if subpath.head? == some '/' || (windows && subpath.head? == some '\\') ||
      segments.any (fun segment => segment == ".".toList || segment == "..".toList) ||
      (windows && segments.any (·.contains ':')) then
    none
  else
    (root.join rules.toUrlRules subpath).toOption.filter (·.startsWith root)

/-- The subpath of an entry for the workspace roots, and whether it is a glob. -/
def symbolicSubpath : FileSystemPath → Option (Option (List Char) × Bool)
  | .special (.projectRoots subpath) => some (subpath, false)
  | .globPattern pattern =>
    (projectRootsGlobPatternPrefix.isPrefixOf? pattern).map fun rest => (some rest, true)
  | _ => none

/-- What an entry for the workspace roots becomes at one of them. -/
def materializeAt (entry : FileSystemSandboxEntry) (subpath : Option (List Char)) (isGlob : Bool)
    (root : PathUri) : Option FileSystemSandboxEntry :=
  let refusedGlob := isGlob && root.inferPathConvention.all fun convention =>
    !(root.validateGlobDirectory rules.toTextRules convention).isOk
  let path := if refusedGlob then none
    else subpath.elim (some root) (resolveScopedWorkspacePath rules root)
  match path with
  | some path => some ⟨if isGlob then .globPattern (path.inferredNativePathString rules.toTextRules)
      else .path path, entry.access, entry.skipsMissingPath⟩
  | none =>
    if entry.access.canWrite then none else some ⟨.path root, .deny, entry.skipsMissingPath⟩

/-- A home-relative subpath in the convention of some root. -/
def isHomeRelative (roots : List PathUri) (subpath : Option (List Char)) : Bool :=
  subpath.any fun subpath => roots.any fun root =>
    root.inferPathConvention.any fun convention => (convention.homeRelativeSuffix subpath).isSome

/-- The entries that one entry is replaced by, unless it denies a place in an unknown home. -/
def materializeOnRoots (roots : List PathUri) (entry : FileSystemSandboxEntry) :
    Option (List FileSystemSandboxEntry) :=
  match symbolicSubpath entry.path with
  | none => some [entry]
  | some (subpath, isGlob) =>
    if entry.access = .deny ∧ isHomeRelative roots subpath = true then none
    else some (roots.filterMap (materializeAt rules entry subpath isGlob))

namespace FileSystemSandboxPolicy

def tryMaterializeProjectRootsWithPathUris (policy : FileSystemSandboxPolicy) (roots : List PathUri) :
    Option FileSystemSandboxPolicy := do
  let entries ← policy.entries.mapM (materializeOnRoots rules roots)
  return ⟨policy.kind, policy.globScanMaxDepth, entries.flatten⟩

def materializeProjectRootsWithPathUris (policy : FileSystemSandboxPolicy) (roots : List PathUri) :
    FileSystemSandboxPolicy :=
  (policy.tryMaterializeProjectRootsWithPathUris rules roots).getD (.restricted [])

/-! ## Strict matchers -/

def hasContextReadDenials (policy : FileSystemSandboxPolicy) (context : FileSystemSandboxPolicyContext) :
    Bool :=
  policy.kind == .restricted && policy.entries.any fun entry =>
    entry.access == .deny &&
      !(entry.path == .special .slashTmp && context.cwd.inferPathConvention != some .posix)

inductive StrictMatcherError where
  | invalidPath
  | unreportedTemporaryDirectories
  | invalidTemporaryDirectory
  | glob (error : DenyGlobError)
deriving DecidableEq

def validContextPath (convention : PathConvention) (path : PathUri) : Bool :=
  path.inferPathConvention == some convention && path.lexicalDepth.isSome

def validateContextEntry (convention : PathConvention) (context : FileSystemSandboxPolicyContext)
    (entry : FileSystemSandboxEntry) : Except StrictMatcherError Unit :=
  match entry.path with
  | .path path => if validContextPath convention path then .ok () else .error .invalidPath
  | .special .tmpdir =>
    match context.temporaryDirectories with
    | none => .error .unreportedTemporaryDirectories
    | some directories =>
      if directories.any (!validContextPath convention ·) then .error .invalidTemporaryDirectory
      else .ok ()
  | .special (.projectRoots (some subpath)) =>
    if context.workspaceRoots.any fun root => !(root.join rules.toUrlRules subpath).isOk then
      .error .invalidPath
    else .ok ()
  | .globPattern pattern =>
    if (homeRelativeGlob (convention == .windows) pattern).isSome &&
        !context.userHomeDir.any (validContextPath convention) then
      .error .invalidPath
    else .ok ()
  | _ => .ok ()

def validateContextPaths (policy : FileSystemSandboxPolicy) (context : FileSystemSandboxPolicyContext) :
    Except StrictMatcherError Unit :=
  match context.cwd.inferPathConvention with
  | none => .error .invalidPath
  | some convention =>
    if !validContextPath convention context.cwd ||
        context.workspaceRoots.any (!validContextPath convention ·) then
      .error .invalidPath
    else policy.entries.forM (validateContextEntry rules convention context)

/-- A matcher for which every denial must be understood. -/
def tryNewMatcherWithContext (policy : FileSystemSandboxPolicy)
    (context : FileSystemSandboxPolicyContext) :
    Except StrictMatcherError (Option PreparedReadDenyMatcher) :=
  if policy.hasContextReadDenials context then
    policy.validateContextPaths rules context >>= fun _ =>
      ((policy.prepareDenyReadMatcher rules context .returnError).mapError .glob).map some
  else .ok none

/-! ## Approved commands -/

def preserveDenyReadRestrictionsFrom (policy existing : FileSystemSandboxPolicy) :
    FileSystemSandboxPolicy :=
  let denies := existing.entries.filter (·.access == .deny)
  let policy := if policy.kind = .unrestricted ∧ denies ≠ [] then
      .restricted [.new (.special .root) .write]
    else policy
  if policy.kind ≠ .restricted then policy
  else
    ⟨policy.kind, policy.globScanMaxDepth.or existing.globScanMaxDepth, pushMissing policy.entries denies⟩

/-- The whole file system, but for the denials of the policy. -/
def denialsOnly (policy : FileSystemSandboxPolicy) : FileSystemSandboxPolicy :=
  (restricted [.new (.special .root) .write]).preserveDenyReadRestrictionsFrom policy

/-- Write entries for the metadata directories at the root that the matcher does not deny. -/
def rootMetadataEntries (matcher : Option PreparedReadDenyMatcher)
    (context : FileSystemSandboxPolicyContext) (root : PathUri) :
    Option (List FileSystemSandboxEntry) := do
  let paths ← protectedMetadataPathNames.mapM fun name =>
    (root.joinDescendant rules.toUrlRules name).toOption
  let denied (path : PathUri) : Bool :=
    matcher.any fun prepared => prepared.matchesPreparedReadDeny rules path context
  return (paths.filter (!denied ·)).map fun path => .new (.path path) .write

/-- The widened policy of an approved command, if its denials can be checked. -/
def approvedPolicy (policy : FileSystemSandboxPolicy) (context : FileSystemSandboxPolicyContext) :
    Option FileSystemSandboxPolicy := do
  let approved := policy.denialsOnly
  if context.workspaceRoots.isEmpty && approved.entries.any (symbolicSubpath ·.path |>.isSome) then none
  else
    let approved ← approved.tryMaterializeProjectRootsWithPathUris rules context.workspaceRoots
    let root ← fileSystemRoot context
    let matcher ← (approved.tryNewMatcherWithContext rules context).toOption
    if !(approved.resolveAccess rules.toUrlRules context root).canWrite ||
        matcher.any fun prepared => prepared.matchesPreparedReadDeny rules root context then none
    else
      let metadata ← rootMetadataEntries rules matcher context root
      return ⟨approved.kind, approved.globScanMaxDepth, approved.entries ++ metadata⟩

def forApprovedCommand (policy : FileSystemSandboxPolicy) (context : FileSystemSandboxPolicyContext) :
    FileSystemSandboxPolicy :=
  if policy.kind ≠ .restricted then policy
  else (policy.approvedPolicy rules context).getD policy

end FileSystemSandboxPolicy

end Materialize

end SpineCodex
