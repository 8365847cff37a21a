import SpineCodex.Lib.Traversal
import SpineCodex.Paths.NativeText
import SpineCodex.Permissions.Policy

/-!
# The read-deny matcher

Besides access resolution, denials are prepared as a matcher: the denied roots, the one of the file
system apart, and the compiled globs. The matcher denies a path below a denied root however specific
other entries are. A glob that cannot be resolved or compiled makes it deny everything, or is
reported, as the caller asks. The glob compiler is a parameter.
-/

namespace SpineCodex

/-- The glob compiler, besides the rules of path text. -/
structure GlobRules extends TextRules where
  /-- The test of a compiled pattern, or nothing for an invalid one. -/
  compile : PathConvention → List Char → Option (List UInt8 → Bool)

inductive DenyGlobError where
  | missingHome (pattern : List Char)
  | directory (error : LegacyAppPathStringError)
  | unresolved (pattern : List Char)
  | invalid (pattern : List Char)
deriving DecidableEq

inductive InvalidDenyReadGlobBehavior where
  | failClosed
  | returnError
deriving DecidableEq

/-- The deny roots and globs of a policy, ready for repeated checks. -/
structure PreparedReadDenyMatcher where
  deniedRoots : List PathUri
  denyReadMatchers : List (List UInt8 → Bool)
  invalidPattern : Bool

section Globs

variable (rules : GlobRules)

def stripText (text path : List Char) : Option (List Char) := text.isPrefixOf? path

/-- What follows the home directory in a glob. -/
def homeRelativeGlob (isWindows : Bool) (pattern : List Char) : Option (List Char) :=
  (stripText "~/".toList pattern).or
    (if isWindows then stripText "~\\".toList pattern else none)

def trimSeparators (isWindows : Bool) (suffix : List Char) : List Char :=
  suffix.dropWhile fun c => c == '/' || (isWindows && c == '\\')

/-- The absolute text of a deny glob. -/
def denyReadGlob (context : FileSystemSandboxPolicyContext) (pattern : List Char) :
    Except DenyGlobError (List Char) := do
  let isWindows := context.cwd.inferPathConvention == some .windows
  let (root, rest) ← match homeRelativeGlob isWindows pattern, context.userHomeDir with
    | some suffix, some home => .ok (home, trimSeparators isWindows suffix)
    | some _, none => .error (.missingHome pattern)
    | none, _ => .ok (context.cwd, pattern)
  let convention := if isWindows then PathConvention.windows else .posix
  -- an absolute glob replaces the directory
  (if (PathUri.fromAbsoluteNativePath rules.toUrlRules rest convention).isSome then .ok ()
    else (root.validateGlobDirectory rules.toTextRules convention).mapError .directory)
  let path ← (root.join rules.toUrlRules rest).mapError fun _ => .unresolved rest
  return path.inferredNativePathString rules.toTextRules

def buildGlobMatcher (convention : PathConvention) (pattern : List Char) :
    Option (List UInt8 → Bool) :=
  rules.compile convention
    (if convention = .windows then pattern.map fun c => if c = '\\' then '/' else c else pattern)

/-- The matchers of the patterns, and whether one is invalid. -/
def buildGlobMatchers (convention : PathConvention) (behavior : InvalidDenyReadGlobBehavior) :
    List (List Char) → Except DenyGlobError (List (List UInt8 → Bool) × Bool)
  | [] => .ok ([], false)
  | pattern :: rest =>
    match buildGlobMatcher rules convention pattern with
    | some matcher =>
      buildGlobMatchers convention behavior rest >>= fun (matchers, invalid) =>
        .ok (matcher :: matchers, invalid)
    | none =>
      if behavior = .returnError then .error (.invalid pattern)
      else buildGlobMatchers convention behavior rest >>= fun (matchers, _) => .ok (matchers, true)

/-- The path in the form that globs are matched against. -/
def globCandidate (convention : PathConvention) (path : PathUri) : List UInt8 :=
  match convention with
  | .posix => path.decodedPathBytes
  | .windows => asBytes ((path.inferredNativePathString rules.toTextRules).map fun c =>
      if c = '\\' then '/' else c)

/-- The pattern, resolved in the context, matches the path. -/
def globPatternMatches (context : FileSystemSandboxPolicyContext) (path : PathUri)
    (pattern : List Char) : Bool :=
  match context.cwd.inferPathConvention, denyReadGlob rules context pattern with
  | some convention, .ok text =>
    (buildGlobMatcher rules convention text).any fun matcher =>
      matcher (globCandidate rules convention path)
  | _, _ => false

namespace FileSystemSandboxPolicy

def denyGlobPatterns (policy : FileSystemSandboxPolicy) : List (List Char) :=
  policy.entries.filterMap fun entry =>
    match entry.access, entry.path with
    | .deny, .globPattern pattern => some pattern
    | _, _ => none

/-- A deny glob of the policy matches the path. -/
def globMatches (policy : FileSystemSandboxPolicy) (context : FileSystemSandboxPolicyContext)
    (path : PathUri) : Bool :=
  policy.denyGlobPatterns.any (globPatternMatches rules context path)

def denyReadGlobs (policy : FileSystemSandboxPolicy) (context : FileSystemSandboxPolicyContext) :
    Except DenyGlobError (List (List Char)) :=
  policy.denyGlobPatterns.mapM (denyReadGlob rules context)

/-- The URI is the root of the context's file system. -/
def isFileSystemRoot (context : FileSystemSandboxPolicyContext) (root : PathUri) : Bool :=
  (fileSystemRoot context).any fun top => root.startsWith top && top.startsWith root

def deniedRoots (policy : FileSystemSandboxPolicy) (context : FileSystemSandboxPolicyContext) :
    List PathUri :=
  (policy.resolvedEntries rules.toUrlRules context).filterMap fun (root, access) =>
    if access = .deny ∧ isFileSystemRoot context root = false then some root else none

variable {rules} in
theorem mem_deniedRoots {policy : FileSystemSandboxPolicy} {context : FileSystemSandboxPolicyContext}
    {root : PathUri} :
    root ∈ policy.deniedRoots rules context ↔
      (root, .deny) ∈ policy.resolvedEntries rules.toUrlRules context ∧
        isFileSystemRoot context root = false := by
  simp only [deniedRoots, List.mem_filterMap, Option.ite_none_right_eq_some, Option.some.injEq,
    Prod.exists]
  constructor
  · rintro ⟨root, access, hmem, ⟨rfl, hroot⟩, rfl⟩
    exact ⟨hmem, hroot⟩
  · rintro ⟨hmem, hroot⟩
    exact ⟨root, .deny, hmem, ⟨rfl, hroot⟩, rfl⟩

def prepareDenyReadMatcher (policy : FileSystemSandboxPolicy)
    (context : FileSystemSandboxPolicyContext) (behavior : InvalidDenyReadGlobBehavior) :
    Except DenyGlobError PreparedReadDenyMatcher :=
  let deniedRoots := policy.deniedRoots rules context
  match context.cwd.inferPathConvention with
  | none => .ok ⟨deniedRoots, [], true⟩
  | some convention =>
    match policy.denyReadGlobs rules context, behavior with
    | .error _, .failClosed => .ok ⟨deniedRoots, [], true⟩
    | .error error, .returnError => .error error
    | .ok patterns, _ =>
      buildGlobMatchers rules convention behavior patterns >>= fun (matchers, invalid) =>
        .ok ⟨deniedRoots, matchers, invalid⟩

end FileSystemSandboxPolicy

namespace PreparedReadDenyMatcher

def matchesPreparedReadDeny (prepared : PreparedReadDenyMatcher) (path : PathUri)
    (context : FileSystemSandboxPolicyContext) : Bool :=
  match context.cwd.inferPathConvention with
  | none => true
  | some convention =>
    if ¬ Comparable context path then true
    else if prepared.invalidPattern then true
    else prepared.deniedRoots.any (path.startsWith ·) ||
      prepared.denyReadMatchers.any fun matcher => matcher (globCandidate rules convention path)

end PreparedReadDenyMatcher

/-- The matcher of a policy with denials. -/
def ReadDenyMatcher.fromContext (policy : FileSystemSandboxPolicy)
    (context : FileSystemSandboxPolicyContext) : Option PreparedReadDenyMatcher :=
  if policy.entries.any (·.access == .deny) then
    (policy.prepareDenyReadMatcher rules context .failClosed).toOption
  else none

/-- Whether the matcher of a policy denies reading a path. -/
def ReadDenyMatcher.isReadDeniedUri (policy : FileSystemSandboxPolicy)
    (context : FileSystemSandboxPolicyContext) (path : PathUri) : Bool :=
  (ReadDenyMatcher.fromContext rules policy context).any fun prepared =>
    prepared.matchesPreparedReadDeny rules path context

end Globs

/-- Rules for plain text, with globs that only match themselves. -/
def plainRules : GlobRules where
  toUrlRules := PathUri.plainUrl
  utf8Lossy bytes := bytes.map fun byte => Char.ofNat byte.toNat
  utf16Lossy units := units.map Char.ofNat
  compile _ pattern := some fun path => path == asBytes pattern

end SpineCodex
