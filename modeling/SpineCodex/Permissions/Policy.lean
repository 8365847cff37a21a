import SpineCodex.Paths.PathUri

/-!
# File-system sandbox policies

A policy lists entries: a path, a glob or a special location with an access mode. In a context, the
working directory, workspace roots, home and temporary directories of the executor, the entries
resolve to roots. The deepest root above a path decides its access, and at equal depth denial wins
over writing and writing over reading. Below a writable root the metadata directories stay
protected unless an entry reopens them.
-/

namespace SpineCodex

open PathUri (UrlRules)

/-! ## Entries -/

/-- Ordered by precedence between equally specific entries. -/
inductive FileSystemAccessMode where
  | read
  | write
  | deny
deriving DecidableEq

namespace FileSystemAccessMode

def rank : FileSystemAccessMode → ℕ
  | read => 0
  | write => 1
  | deny => 2

def canRead : FileSystemAccessMode → Bool
  | deny => false
  | _ => true

def canWrite : FileSystemAccessMode → Bool
  | write => true
  | _ => false

theorem rank_injective : Function.Injective rank := by
  intro a b h
  cases a <;> cases b <;> simp_all [rank]

theorem canWrite_eq_true {access : FileSystemAccessMode} : access.canWrite = true ↔ access = write := by
  cases access <;> simp [canWrite]

theorem canRead_eq_true {access : FileSystemAccessMode} : access.canRead = true ↔ access ≠ deny := by
  cases access <;> simp [canRead]

end FileSystemAccessMode

inductive FileSystemSpecialPath where
  | root
  | minimal
  | projectRoots (subpath : Option (List Char))
  | tmpdir
  | slashTmp
  | unknown (path : List Char) (subpath : Option (List Char))
deriving DecidableEq

inductive FileSystemPath where
  | path (path : PathUri)
  | globPattern (pattern : List Char)
  | special (value : FileSystemSpecialPath)
deriving DecidableEq

structure FileSystemSandboxEntry where
  path : FileSystemPath
  access : FileSystemAccessMode
  /-- The entry is dropped where its path does not exist. -/
  skipsMissingPath : Bool
deriving DecidableEq

def FileSystemSandboxEntry.new (path : FileSystemPath) (access : FileSystemAccessMode) :
    FileSystemSandboxEntry :=
  ⟨path, access, false⟩

inductive FileSystemSandboxKind where
  | restricted
  | unrestricted
  | externalSandbox
deriving DecidableEq

structure FileSystemSandboxPolicy where
  kind : FileSystemSandboxKind
  globScanMaxDepth : Option ℕ
  entries : List FileSystemSandboxEntry
deriving DecidableEq

/-- The executor's paths that special entries refer to. -/
structure FileSystemSandboxPolicyContext where
  cwd : PathUri
  workspaceRoots : List PathUri
  userHomeDir : Option PathUri
  temporaryDirectories : Option (List PathUri)

def fileSystemRoot (context : FileSystemSandboxPolicyContext) : Option PathUri :=
  context.cwd.lexicalDepth.map fun _ => context.cwd.root

def protectedMetadataPathNames : List (List Char) :=
  [".git".toList, ".agents".toList, ".codex".toList, ".aws".toList]

/-! ## Full-disk access -/

def specialPathsShareTarget (left right : FileSystemSpecialPath) : Bool := left == right

/-- Special locations that do not depend on the working directory. -/
def specialPathMatchesPathUri (value : FileSystemSpecialPath) (path : PathUri) : Bool :=
  match value with
  | .root => path.lexicalDepth.isSome && path.parent.isNone
  | .slashTmp => path.inferPathConvention == some .posix && path.lexicalDepth == some 1 &&
      path.basename == some (asBytes "tmp".toList)
  | _ => false

def fileSystemPathsShareTarget (convention : PathConvention) :
    FileSystemPath → FileSystemPath → Bool
  | .path left, .path right => left.eq right
  | .special left, .special right => specialPathsShareTarget left right
  | .path path, .special value | .special value, .path path =>
    path.inferPathConvention == some convention && specialPathMatchesPathUri value path
  | .globPattern left, .globPattern right => left == right
  | .globPattern _, _ | _, .globPattern _ => false

namespace FileSystemSandboxPolicy

def restricted (entries : List FileSystemSandboxEntry) : FileSystemSandboxPolicy :=
  ⟨.restricted, none, entries⟩

def hasRootAccess (policy : FileSystemSandboxPolicy) (accepts : FileSystemAccessMode → Bool) : Bool :=
  policy.kind == .restricted &&
    policy.entries.any fun entry => entry.path == .special .root && accepts entry.access

/-- A write entry of higher precedence for the same target. -/
def hasSameTargetWriteOverride (policy : FileSystemSandboxPolicy) (entry : FileSystemSandboxEntry)
    (convention : PathConvention) : Bool :=
  policy.entries.any fun candidate =>
    candidate.access.canWrite && entry.access.rank < candidate.access.rank &&
      fileSystemPathsShareTarget convention candidate.path entry.path

/-- An entry that really reduces write access to the whole disk. -/
def hasWriteNarrowingEntries (policy : FileSystemSandboxPolicy) (convention : PathConvention) : Bool :=
  policy.kind == .restricted &&
    policy.entries.any fun entry =>
      !entry.access.canWrite &&
        match entry.path with
        | .path _ => !policy.hasSameTargetWriteOverride entry convention
        | .globPattern _ => true
        | .special .root => entry.access == .deny
        | .special .slashTmp =>
          convention != .windows && !policy.hasSameTargetWriteOverride entry convention
        | .special .minimal | .special (.unknown _ _) => false
        | .special _ => !policy.hasSameTargetWriteOverride entry convention

def hasFullDiskWriteAccessForConvention (policy : FileSystemSandboxPolicy)
    (convention : Option PathConvention) : Bool :=
  match policy.kind with
  | .unrestricted | .externalSandbox => true
  | .restricted => convention.any fun convention =>
      policy.hasRootAccess (·.canWrite) && !policy.hasWriteNarrowingEntries convention

def hasFullDiskWriteAccessWithContext (policy : FileSystemSandboxPolicy)
    (context : FileSystemSandboxPolicyContext) : Bool :=
  policy.hasFullDiskWriteAccessForConvention context.cwd.inferPathConvention

end FileSystemSandboxPolicy

/-! ## Resolution -/

section Resolution

variable (url : UrlRules)

/-- The locations of an entry's path in a context. -/
def entryPaths (context : FileSystemSandboxPolicyContext) : FileSystemPath → List PathUri
  | .path path => [path]
  | .globPattern _ => []
  | .special .root => (fileSystemRoot context).toList
  | .special (.projectRoots subpath) => context.workspaceRoots.filterMap fun root =>
      match subpath with
      | some subpath => (root.join url subpath).toOption
      | none => some root
  | .special .tmpdir => context.temporaryDirectories.getD []
  | .special .slashTmp =>
    if context.cwd.inferPathConvention = some .posix then
      (context.cwd.join url "/tmp".toList).toOption.toList
    else []
  | .special .minimal | .special (.unknown _ _) => []

/-- The roots of one entry that have the context's convention. -/
def resolvedEntry (context : FileSystemSandboxPolicyContext) (entry : FileSystemSandboxEntry) :
    List (PathUri × FileSystemAccessMode) :=
  ((entryPaths url context entry.path).filter
    (·.inferPathConvention == context.cwd.inferPathConvention)).map fun path => (path, entry.access)

/-- Whether a path can be compared with the roots of a context. -/
def Comparable (context : FileSystemSandboxPolicyContext) (path : PathUri) : Prop :=
  context.cwd.inferPathConvention.isSome = true ∧
    path.inferPathConvention = context.cwd.inferPathConvention ∧
    path.lexicalDepth.isSome = true ∧ context.cwd.lexicalDepth.isSome = true

instance (context : FileSystemSandboxPolicyContext) (path : PathUri) :
    Decidable (Comparable context path) :=
  inferInstanceAs (Decidable (_ ∧ _))

/-- Precedence between roots above a path: the deeper one, then the stronger mode. -/
def keyLe (x y : ℕ × FileSystemAccessMode) : Bool :=
  x.1 < y.1 || (x.1 == y.1 && x.2.rank ≤ y.2.rank)

/-- The last of the entries with the greatest key. -/
def maxByKey : List (ℕ × FileSystemAccessMode) → Option (ℕ × FileSystemAccessMode)
  | [] => none
  | x :: rest =>
    match maxByKey rest with
    | none => some x
    | some y => some (if keyLe x y then y else x)

theorem keyLe_trans {x y z : ℕ × FileSystemAccessMode} (hxy : keyLe x y = true)
    (hyz : keyLe y z = true) : keyLe x z = true := by
  simp only [keyLe, Bool.or_eq_true, Bool.and_eq_true, decide_eq_true_eq, beq_iff_eq] at *
  omega

theorem keyLe_total (x y : ℕ × FileSystemAccessMode) : keyLe x y = true ∨ keyLe y x = true := by
  simp only [keyLe, Bool.or_eq_true, Bool.and_eq_true, decide_eq_true_eq, beq_iff_eq]
  omega

theorem keyLe_refl (x : ℕ × FileSystemAccessMode) : keyLe x x = true := (keyLe_total x x).elim id id

theorem keyLe_antisymm {x y : ℕ × FileSystemAccessMode} (hxy : keyLe x y = true)
    (hyx : keyLe y x = true) : x = y := by
  simp only [keyLe, Bool.or_eq_true, Bool.and_eq_true, decide_eq_true_eq, beq_iff_eq] at *
  apply Prod.ext
  · omega
  · exact FileSystemAccessMode.rank_injective (by omega)

theorem maxByKey_eq_none_iff {entries : List (ℕ × FileSystemAccessMode)} :
    maxByKey entries = none ↔ entries = [] := by
  cases entries with
  | nil => simp [maxByKey]
  | cons x entries =>
    simp only [maxByKey]
    split <;> simp

/-- The entry that is found is the one of the list above which no other is. -/
theorem maxByKey_eq_some_iff {entries : List (ℕ × FileSystemAccessMode)}
    {best : ℕ × FileSystemAccessMode} :
    maxByKey entries = some best ↔ best ∈ entries ∧ ∀ entry ∈ entries, keyLe entry best = true := by
  induction entries generalizing best with
  | nil => simp [maxByKey]
  | cons x entries ih =>
    simp only [maxByKey, List.mem_cons, forall_eq_or_imp]
    split
    · rename_i hnone
      obtain rfl := maxByKey_eq_none_iff.mp hnone
      constructor
      · intro h
        cases h
        simp [keyLe_refl]
      · rintro ⟨rfl | h, -⟩
        · rfl
        · cases h
    · rename_i y hy
      obtain ⟨hmem, hmax⟩ := ih.mp hy
      rw [Option.some.injEq]
      split_ifs with hxy
      · constructor
        · rintro rfl
          exact ⟨.inr hmem, hxy, hmax⟩
        · rintro ⟨rfl | hbest, hx, hall⟩
          · exact keyLe_antisymm (hall y hmem) hxy
          · exact keyLe_antisymm (hall y hmem) (hmax best hbest)
      · have hyx := (keyLe_total x y).resolve_left hxy
        constructor
        · rintro rfl
          exact ⟨.inl rfl, keyLe_refl x, fun entry hentry => keyLe_trans (hmax entry hentry) hyx⟩
        · rintro ⟨rfl | hbest, hx, -⟩
          · rfl
          · exact absurd (keyLe_trans hx (hmax best hbest)) hxy

theorem maxByKey_perm {entries entries' : List (ℕ × FileSystemAccessMode)}
    (h : entries.Perm entries') : maxByKey entries = maxByKey entries' := by
  ext best
  simp only [maxByKey_eq_some_iff, h.mem_iff]

namespace FileSystemSandboxPolicy

def resolvedEntries (policy : FileSystemSandboxPolicy) (context : FileSystemSandboxPolicyContext) :
    List (PathUri × FileSystemAccessMode) :=
  policy.entries.flatMap (resolvedEntry url context)

/-- A root whose segments are ambiguous makes every answer a denial. -/
def hasAmbiguousRoot (policy : FileSystemSandboxPolicy) (context : FileSystemSandboxPolicyContext) :
    Bool :=
  (policy.resolvedEntries url context).any fun (root, _) =>
    root.lexicalDepth.isNone && !root.isOpaque

/-- The depths and modes of the roots above a path. -/
def rootsAbove (policy : FileSystemSandboxPolicy) (context : FileSystemSandboxPolicyContext)
    (path : PathUri) : List (ℕ × FileSystemAccessMode) :=
  (policy.resolvedEntries url context).filterMap fun (root, access) =>
    root.lexicalDepth.bind fun depth => if path.startsWith root then some (depth, access) else none

def resolveAccess (policy : FileSystemSandboxPolicy) (context : FileSystemSandboxPolicyContext)
    (path : PathUri) : FileSystemAccessMode :=
  match policy.kind with
  | .unrestricted | .externalSandbox => .write
  | .restricted =>
    if ¬ Comparable context path then .deny
    else if policy.hasAmbiguousRoot url context then .deny
    else ((maxByKey (policy.rootsAbove url context path)).map (·.2)).getD .deny

/-- The protected directories of one writable root that contain the path. -/
def protectedAbove (path : PathUri) (entry : PathUri × FileSystemAccessMode) :
    List (PathUri × List Char) :=
  if entry.2.canWrite then
    protectedMetadataPathNames.filterMap fun name =>
      match entry.1.joinDescendant url name with
      | .ok dir => if path.startsWith dir then some (dir, name) else none
      | .error _ => none
  else []

/-- A write entry at or below the directory covers the path. -/
def reopens (policy : FileSystemSandboxPolicy) (context : FileSystemSandboxPolicyContext)
    (path dir : PathUri) : Bool :=
  (policy.resolvedEntries url context).any fun (root, access) =>
    access.canWrite && path.startsWith root && root.startsWith dir

/-- The name of the first protected directory above the path, unless it is reopened. -/
def metadataWriteDenial (policy : FileSystemSandboxPolicy) (context : FileSystemSandboxPolicyContext)
    (path : PathUri) : Option (List Char) :=
  if policy.kind ≠ .restricted then none
  else match (policy.resolvedEntries url context).findSome? fun entry =>
      (protectedAbove url path entry).head? with
    | none => none
    | some (dir, name) => if policy.reopens url context path dir then none else some name

def canWritePath (policy : FileSystemSandboxPolicy) (context : FileSystemSandboxPolicyContext)
    (path : PathUri) : Bool :=
  (policy.resolveAccess url context path).canWrite &&
    (policy.hasFullDiskWriteAccessWithContext context ||
      (policy.metadataWriteDenial url context path).isNone)

end FileSystemSandboxPolicy

end Resolution

/-- An executor that works in the root of a file system. -/
def rootContext : FileSystemSandboxPolicyContext where
  cwd := PathUri.localFile [""]
  workspaceRoots := []
  userHomeDir := none
  temporaryDirectories := none

end SpineCodex
