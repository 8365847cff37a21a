import SpineCodex.Paths.Positions
import SpineCodex.Permissions.Materialize
import SpineCodex.Permissions.Precedence

/-!
# Required denials

A managed policy requires denials, and a selected policy is accepted if it has every required entry and
none of its readable paths lies below a denied root. Nothing else of the selected policy is looked at. A
root that would reopen a path below a denied one is deeper, so it lies below the denied root itself and
the check has refused it.
-/

namespace SpineCodex

open PathUri (UrlRules plainUrl localFile)

/-! ## The validator -/

/-- Required rules that are prepared once and used for each selected policy. -/
structure DenyReadValidator where
  requiredEntries : List FileSystemSandboxEntry
  matcher : Option PreparedReadDenyMatcher

inductive DenyReadViolation where
  | missingRequiredDeny
  | readablePath (path : PathUri)
deriving DecidableEq

namespace DenyReadValidator

variable (rules : GlobRules)

def new (required : FileSystemSandboxPolicy) (context : FileSystemSandboxPolicyContext) :
    Except DenyGlobError DenyReadValidator :=
  if required.hasContextReadDenials context then
    (required.prepareDenyReadMatcher rules context .returnError).map fun matcher =>
      ⟨required.entries, some matcher⟩
  else .ok ⟨required.entries, none⟩

/-- The path of an entry, if it is one of the context that the matcher denies. -/
def violatingPath (validator : DenyReadValidator) (context : FileSystemSandboxPolicyContext)
    (entry : FileSystemSandboxEntry) : Option PathUri :=
  match entry.path with
  | .path path =>
    if path.inferPathConvention ≠ context.cwd.inferPathConvention then none
    else if validator.matcher.any fun matcher => matcher.matchesPreparedReadDeny rules path context
    then some path
    else none
  | _ => none

/-- Symbolic entries are not expanded, and a conflicting path is reported before a missing entry. -/
def validate (validator : DenyReadValidator) (selected : FileSystemSandboxPolicy)
    (context : FileSystemSandboxPolicyContext) : Except DenyReadViolation Unit :=
  match (selected.entries.filter (·.access.canRead)).findSome? (validator.violatingPath rules context) with
  | some path => .error (.readablePath path)
  | none =>
    if validator.requiredEntries.any fun entry => !selected.entries.any (·.eq entry) then
      .error .missingRequiredDeny
    else .ok ()

variable {rules} {required selected : FileSystemSandboxPolicy} {context : FileSystemSandboxPolicyContext}
  {validator : DenyReadValidator}

theorem deniedRoots_of_prepare {prepared : PreparedReadDenyMatcher}
    (h : required.prepareDenyReadMatcher rules context .returnError = .ok prepared) :
    prepared.deniedRoots = required.deniedRoots rules context := by
  rw [FileSystemSandboxPolicy.prepareDenyReadMatcher] at h
  cases hconvention : context.cwd.inferPathConvention with
  | none =>
    rw [hconvention] at h
    rw [← Except.ok.inj h]
  | some convention =>
    rw [hconvention] at h
    cases hglobs : required.denyReadGlobs rules context with
    | error error =>
      rw [hglobs] at h
      cases h
    | ok patterns =>
      rw [hglobs] at h
      obtain ⟨matchers, -, hprepared⟩ := except_bind_eq_ok.mp h
      rw [← Except.ok.inj hprepared]

/-- What is prepared for a policy with denials. -/
theorem new_eq_ok (hdenials : required.hasContextReadDenials context = true)
    (h : new rules required context = .ok validator) :
    validator.requiredEntries = required.entries ∧
      ∃ matcher, validator.matcher = some matcher ∧ matcher.deniedRoots = required.deniedRoots rules context := by
  rw [new, if_pos hdenials] at h
  cases hprepared : required.prepareDenyReadMatcher rules context .returnError with
  | error error =>
    rw [hprepared] at h
    cases h
  | ok matcher =>
    rw [hprepared] at h
    obtain rfl := Except.ok.inj h
    exact ⟨rfl, matcher, rfl, deniedRoots_of_prepare hprepared⟩

/-- What is known of a policy that is accepted. -/
theorem validate_eq_ok (h : validator.validate rules selected context = .ok ()) :
    (∀ entry ∈ validator.requiredEntries, ∃ entry' ∈ selected.entries, entry'.eq entry = true) ∧
      ∀ entry ∈ selected.entries, entry.access.canRead = true →
        validator.violatingPath rules context entry = none := by
  rw [validate] at h
  cases hfound : (selected.entries.filter (·.access.canRead)).findSome?
      (validator.violatingPath rules context) with
  | some path =>
    rw [hfound] at h
    cases h
  | none =>
    rw [hfound] at h
    dsimp only at h
    split_ifs at h with hmissing
    constructor
    · intro entry hentry
      by_contra hnone
      refine hmissing (List.any_eq_true.mpr ⟨entry, hentry, ?_⟩)
      rw [Bool.not_eq_true', List.any_eq_false]
      exact fun entry' hentry' heq ↦ hnone ⟨entry', hentry', heq⟩
    · intro entry hentry hread
      exact List.findSome?_eq_none_iff.mp hfound entry (List.mem_filter.mpr ⟨hentry, hread⟩)

/-- A path below a denied root violates the requirement. -/
theorem violatingPath_of_startsWith {matcher : PreparedReadDenyMatcher} {entry : FileSystemSandboxEntry}
    {root path : PathUri} (hmatcher : validator.matcher = some matcher) (hpath : entry.path = .path path)
    (hcomparable : Comparable context path) (hroot : root ∈ matcher.deniedRoots)
    (hstarts : path.startsWith root = true) :
    validator.violatingPath rules context entry = some path := by
  obtain ⟨convention, hconvention⟩ := Option.isSome_iff_exists.mp hcomparable.1
  have hdenied : matcher.matchesPreparedReadDeny rules path context = true := by
    rw [PreparedReadDenyMatcher.matchesPreparedReadDeny, hconvention]
    dsimp only
    rw [if_neg (not_not.mpr hcomparable)]
    split_ifs
    · rfl
    · rw [Bool.or_eq_true, List.any_eq_true]
      exact .inl ⟨root, hroot, hstarts⟩
  rw [violatingPath, hpath]
  dsimp only
  rw [if_neg (not_not.mpr hcomparable.2.1), hmatcher, Option.any_some, if_pos hdenied]

end DenyReadValidator

/-! ## Deeper roots -/

namespace PathUri

variable {path root other : PathUri} {depth depth' : ℕ}

/-- Of two URIs above a path the deeper one lies below the other. -/
theorem startsWith_of_deeper (hroot : path.startsWith root = true) (hother : path.startsWith other = true)
    (hconvention : path.inferPathConvention = root.inferPathConvention)
    (hconvention' : path.inferPathConvention = other.inferPathConvention)
    (hdepth : root.lexicalDepth = some depth) (hdepth' : other.lexicalDepth = some depth')
    (hpath : path.lexicalDepth.isSome = true) (hdeeper : depth < depth')
    (hdecoded : path.ComparesDecoded) (hdecodedRoot : root.ComparesDecoded)
    (hdecodedOther : other.ComparesDecoded) : other.startsWith root = true := by
  obtain ⟨_, hlength⟩ := Option.isSome_iff_exists.mp hpath
  obtain ⟨host, keys, hposition, -⟩ := exists_position hlength
  obtain ⟨hostRoot, keysRoot, hpositionRoot, rfl⟩ := exists_position hdepth
  obtain ⟨hostOther, keysOther, hpositionOther, rfl⟩ := exists_position hdepth'
  rw [startsWith_iff_position hposition hpositionRoot hconvention hdecoded hdecodedRoot] at hroot
  rw [startsWith_iff_position hposition hpositionOther hconvention' hdecoded hdecodedOther] at hother
  rw [startsWith_iff_position hpositionOther hpositionRoot (hconvention'.symm.trans hconvention)
    hdecodedOther hdecodedRoot]
  exact ⟨hother.1.symm.trans hroot.1, List.prefix_of_prefix_length_le hroot.2 hother.2 hdeeper.le⟩

end PathUri

namespace FileSystemSandboxPolicy

variable {url : UrlRules} {policy : FileSystemSandboxPolicy} {context : FileSystemSandboxPolicyContext}
  {path root : PathUri} {depth : ℕ}

theorem mem_rootsAbove_of_startsWith {mode : FileSystemAccessMode}
    (hroot : (root, mode) ∈ policy.resolvedEntries url context) (hdepth : root.lexicalDepth = some depth)
    (hstarts : path.startsWith root = true) : (depth, mode) ∈ policy.rootsAbove url context path := by
  refine List.mem_filterMap.mpr ⟨(root, mode), hroot, ?_⟩
  simp only [hdepth, Option.bind_some, hstarts, if_true]

/-- Where a denied root is above a path that is not denied, a deeper root gives the access. -/
theorem exists_deeper_of_resolveAccess (hkind : policy.kind = .restricted)
    (hdenied : (depth, .deny) ∈ policy.rootsAbove url context path)
    (haccess : policy.resolveAccess url context path ≠ .deny) :
    ∃ other mode depth', (other, mode) ∈ policy.resolvedEntries url context ∧ mode.canRead = true ∧
      other.lexicalDepth = some depth' ∧ path.startsWith other = true ∧ depth < depth' := by
  have hresolves := resolves_of_resolveAccess hkind haccess
  rw [resolveAccess_of_resolves hkind hresolves] at haccess
  cases hbest : maxByKey (policy.rootsAbove url context path) with
  | none => exact absurd (by rw [hbest]; rfl) haccess
  | some best =>
    rw [hbest] at haccess
    obtain ⟨hmem, hmax⟩ := maxByKey_eq_some_iff.mp hbest
    have hle := hmax _ hdenied
    obtain ⟨⟨other, mode⟩, hother, habove⟩ := List.mem_filterMap.mp hmem
    obtain ⟨depth', hdepth', habove⟩ := Option.bind_eq_some_iff.mp habove
    obtain ⟨hstarts, hkey⟩ := Option.ite_none_right_eq_some.mp habove
    obtain rfl := Option.some.inj hkey
    refine ⟨other, mode, depth', hother, FileSystemAccessMode.canRead_eq_true.mpr haccess, hdepth', hstarts, ?_⟩
    simp only [keyLe, Bool.or_eq_true, decide_eq_true_eq, Bool.and_eq_true, beq_iff_eq] at hle
    cases mode <;> simp_all [FileSystemAccessMode.rank]

theorem mem_resolvedEntry {entry : FileSystemSandboxEntry} {mode : FileSystemAccessMode} :
    (root, mode) ∈ resolvedEntry url context entry ↔
      entry.access = mode ∧ root ∈ entryPaths url context entry.path ∧
        root.inferPathConvention = context.cwd.inferPathConvention := by
  simp only [resolvedEntry, List.mem_map, List.mem_filter, beq_iff_eq, Prod.mk.injEq]
  constructor
  · rintro ⟨path, ⟨hpath, hconvention⟩, rfl, rfl⟩
    exact ⟨rfl, hpath, hconvention⟩
  · rintro ⟨rfl, hroot, hconvention⟩
    exact ⟨root, ⟨hroot, hconvention⟩, rfl, rfl⟩

/-- Equal entries resolve to roots at the same positions. -/
theorem exists_root_of_eq {entry entry' : FileSystemSandboxEntry} {mode : FileSystemAccessMode}
    (heq : entry'.eq entry = true) (hroot : (root, mode) ∈ resolvedEntry url context entry) :
    ∃ root', (root', mode) ∈ resolvedEntry url context entry' ∧ root'.position = root.position := by
  rw [FileSystemSandboxEntry.eq, Bool.and_eq_true, Bool.and_eq_true, beq_iff_eq] at heq
  obtain ⟨⟨hpaths, haccess⟩, -⟩ := heq
  obtain ⟨rfl, hpath, hconvention⟩ := mem_resolvedEntry.mp hroot
  have hsame : entry'.path = entry.path →
      ∃ root', (root', entry.access) ∈ resolvedEntry url context entry' ∧ root'.position = root.position := by
    intro h
    exact ⟨root, mem_resolvedEntry.mpr ⟨haccess, h ▸ hpath, hconvention⟩, rfl⟩
  cases hleft : entry'.path with
  | path left =>
    cases hright : entry.path with
    | path right =>
      rw [hleft, hright] at hpaths
      rw [hright, entryPaths, List.mem_singleton] at hpath
      rw [hpath] at hconvention ⊢
      refine ⟨left, mem_resolvedEntry.mpr ⟨haccess, ?_, ?_⟩, PathUri.position_of_eq hpaths⟩
      · rw [hleft, entryPaths]
        exact List.mem_singleton_self left
      · exact (PathUri.inferPathConvention_of_eq hpaths).trans hconvention
    | _ =>
      rw [hleft, hright] at hpaths
      exact hsame (by rw [hleft, hright]; exact beq_iff_eq.mp hpaths)
  | _ =>
    rw [hleft] at hpaths
    exact hsame (by rw [hleft]; exact beq_iff_eq.mp hpaths)

/-- A policy with a denied root has denials. -/
theorem hasContextReadDenials_of_mem (hkind : policy.kind = .restricted)
    {entry : FileSystemSandboxEntry} (hentry : entry ∈ policy.entries)
    (hroot : (root, .deny) ∈ resolvedEntry url context entry) :
    policy.hasContextReadDenials context = true := by
  obtain ⟨haccess, hpath, -⟩ := mem_resolvedEntry.mp hroot
  rw [hasContextReadDenials, hkind, Bool.and_eq_true, List.any_eq_true]
  refine ⟨rfl, entry, hentry, ?_⟩
  rw [haccess, Bool.and_eq_true, Bool.not_eq_true', Bool.and_eq_false_iff]
  refine ⟨rfl, ?_⟩
  by_contra hnot
  simp only [beq_eq_false_iff_ne, ne_eq, bne_eq_false_iff_eq, not_or, not_not] at hnot
  -- the directory of temporary files has no root in such a context
  rw [hnot.1, entryPaths, if_neg hnot.2] at hpath
  cases hpath

/-- Paths below a denied root of the required policy are denied by an accepted one. -/
theorem resolveAccess_of_validate {rules : GlobRules} {required selected : FileSystemSandboxPolicy}
    {validator : DenyReadValidator} (hrequired : required.kind = .restricted)
    (hselected : selected.kind = .restricted)
    (hreadable : ∀ entry ∈ selected.entries, entry.access.canRead = true →
      (∃ concrete, entry.path = .path concrete) ∨ entry.path = .special .root)
    (hnew : DenyReadValidator.new rules required context = .ok validator)
    (hvalidate : validator.validate rules selected context = .ok ())
    (hroot : (root, .deny) ∈ required.resolvedEntries rules.toUrlRules context)
    (habove : ∀ top, fileSystemRoot context = some top → top.startsWith root = false)
    (hstarts : path.startsWith root = true)
    (hdecoded : path.ComparesDecoded) (hdecodedRoot : root.ComparesDecoded)
    (hdecodedRoots : ∀ entry ∈ selected.resolvedEntries rules.toUrlRules context, entry.1.ComparesDecoded) :
    selected.resolveAccess rules.toUrlRules context path = .deny := by
  by_contra haccess
  have hresolves := resolves_of_resolveAccess hselected haccess
  obtain ⟨hknown, hconvention, hdepth, hcwd⟩ := hresolves.comparable
  have hconventionRoot := inferPathConvention_of_mem_resolvedEntries hroot
  obtain ⟨entry, hentry, hresolved⟩ := List.mem_flatMap.mp hroot
  obtain ⟨hentries, matcher, hmatcher, hroots⟩ :=
    DenyReadValidator.new_eq_ok (hasContextReadDenials_of_mem hrequired hentry hresolved) hnew
  obtain ⟨hpresent, hviolating⟩ := DenyReadValidator.validate_eq_ok hvalidate
  have hdenied : root ∈ matcher.deniedRoots := by
    rw [hroots, mem_deniedRoots]
    refine ⟨hroot, ?_⟩
    rw [isFileSystemRoot, Option.any_eq_false]
    intro top htop
    rw [habove top htop, Bool.and_false]
  -- the selected policy denies at the same position
  obtain ⟨entry', hentry', heq⟩ := hpresent entry (hentries ▸ hentry)
  obtain ⟨root', hresolved', hposition'⟩ := exists_root_of_eq heq hresolved
  have hroot' : (root', .deny) ∈ selected.resolvedEntries rules.toUrlRules context :=
    List.mem_flatMap.mpr ⟨entry', hentry', hresolved'⟩
  have hconventionRoot' := inferPathConvention_of_mem_resolvedEntries hroot'
  obtain ⟨_, hlength⟩ := Option.isSome_iff_exists.mp hdepth
  obtain ⟨host, keys, hposition, -⟩ := PathUri.exists_position hlength
  obtain ⟨hostRoot, keysRoot, hpositionRoot⟩ := PathUri.exists_position_of_startsWith hposition hstarts
  have hstarts' : path.startsWith root' = true := by
    rw [PathUri.startsWith_iff_position hposition (hposition'.trans hpositionRoot)
      (hconvention.trans hconventionRoot'.symm) hdecoded (hdecodedRoots _ hroot')]
    exact (PathUri.startsWith_iff_position hposition hpositionRoot
      (hconvention.trans hconventionRoot.symm) hdecoded hdecodedRoot).mp hstarts
  have hdepthRoot : root.lexicalDepth = some keysRoot.length := by
    rw [PathUri.lexicalDepth_eq_map_position, hpositionRoot, Option.map_some]
  have hdepthRoot' : root'.lexicalDepth = some keysRoot.length := by
    rw [PathUri.lexicalDepth_eq_map_position, hposition', hpositionRoot, Option.map_some]
  -- a root that decides otherwise is deeper, so the check has seen it below the denied root
  obtain ⟨other, mode, depth', hother, hread, hdepth', habove', hdeeper⟩ :=
    exists_deeper_of_resolveAccess hselected (mem_rootsAbove_of_startsWith hroot' hdepthRoot' hstarts') haccess
  have hconventionOther := inferPathConvention_of_mem_resolvedEntries hother
  have hbelow : other.startsWith root = true :=
    PathUri.startsWith_of_deeper hstarts habove' (hconvention.trans hconventionRoot.symm)
      (hconvention.trans hconventionOther.symm) hdepthRoot hdepth' hdepth hdeeper hdecoded hdecodedRoot
      (hdecodedRoots _ hother)
  obtain ⟨reopening, hreopening, hmem⟩ := List.mem_flatMap.mp hother
  obtain ⟨rfl, hpaths, -⟩ := mem_resolvedEntry.mp hmem
  cases hreadable reopening hreopening hread with
  | inl hconcrete =>
    obtain ⟨concrete, hconcrete⟩ := hconcrete
    rw [hconcrete, entryPaths, List.mem_singleton] at hpaths
    subst hpaths
    have hcomparable : Comparable context other := ⟨hknown, hconventionOther, by rw [hdepth']; rfl, hcwd⟩
    have hfound : validator.violatingPath rules context reopening = some other :=
      DenyReadValidator.violatingPath_of_startsWith hmatcher hconcrete hcomparable hdenied hbelow
    rw [hviolating reopening hreopening hread] at hfound
    cases hfound
  | inr htop =>
    rw [htop, entryPaths, Option.mem_toList] at hpaths
    rw [habove other hpaths] at hbelow
    cases hbelow

/-- An executor that works on a drive. -/
def driveContext : FileSystemSandboxPolicyContext :=
  { rootContext with cwd := localFile ["C:", "work"] }

/-- The required entry may be spelled in another case, and stands after the one it takes access from. -/
theorem secret_denied_on_drive :
    ∃ validator, DenyReadValidator.new plainRules (restricted [.new (.path (localFile ["C:", "secret"])) .deny])
        driveContext = .ok validator ∧
      resolveAccess plainUrl (restricted [.new (.special .root) .read,
        .new (.path (localFile ["c:", "Secret"])) .deny, .new (.path (localFile ["C:", "work"])) .write])
        driveContext (localFile ["C:", "SECRET", "key"]) = .deny := by
  have hdenied : (localFile ["C:", "secret"], .deny) ∈ resolvedEntries plainRules.toUrlRules
      (restricted [.new (.path (localFile ["C:", "secret"])) .deny]) driveContext := by decide +kernel
  have hrequired : (restricted [.new (.path (localFile ["C:", "secret"])) .deny]).kind = .restricted := rfl
  refine ⟨_, rfl, resolveAccess_of_validate hrequired rfl ?_ rfl ?_ hdenied ?_ ?_ ?_ ?_ ?_⟩
  · simp [restricted, FileSystemSandboxEntry.new, FileSystemAccessMode.canRead]
  · decide +kernel
  · decide +kernel
  · decide +kernel
  · decide +kernel
  · decide +kernel
  · decide +kernel

/-- A share of a server. -/
def shareFile (segments : List String) : PathUri := .file (some "server".toList) (segments.map (·.toList))

/-- A denied server does not deny its share, where the root of the file system may be read. -/
theorem share_of_denied_server_readable :
    ∃ validator, DenyReadValidator.new plainRules (restricted [.new (.path (shareFile [""])) .deny])
        { rootContext with cwd := shareFile ["share", "work"] } = .ok validator ∧
      validator.validate plainRules
        (restricted [.new (.path (shareFile [""])) .deny, .new (.special .root) .read])
        { rootContext with cwd := shareFile ["share", "work"] } = .ok () ∧
      shareFile [""] ∈ deniedRoots plainRules (restricted [.new (.path (shareFile [""])) .deny])
        { rootContext with cwd := shareFile ["share", "work"] } ∧
      (shareFile ["share", "x"]).startsWith (shareFile [""]) = true ∧
      resolveAccess plainUrl (restricted [.new (.path (shareFile [""])) .deny, .new (.special .root) .read])
        { rootContext with cwd := shareFile ["share", "work"] } (shareFile ["share", "x"]) = .read :=
  ⟨_, rfl, rfl, by decide +kernel, by decide +kernel, by decide +kernel⟩

/-- A readable path with bytes that are no text is not seen below the denied directory that it is in. -/
theorem respelled_bytes_readable :
    ∃ validator, DenyReadValidator.new plainRules (restricted [.new (.path (localFile ["C:", "%FFa"])) .deny])
        driveContext = .ok validator ∧
      validator.validate plainRules (restricted [.new (.path (localFile ["C:", "%FFa"])) .deny,
        .new (.path (localFile ["C:", "%FF%61", "x"])) .read]) driveContext = .ok () ∧
      (localFile ["C:", "%FFa", "x"]).startsWith (localFile ["C:", "%FFa"]) = true ∧
      resolveAccess plainUrl (restricted [.new (.path (localFile ["C:", "%FFa"])) .deny,
        .new (.path (localFile ["C:", "%FF%61", "x"])) .read]) driveContext
        (localFile ["C:", "%FFa", "x"]) = .read :=
  ⟨_, rfl, by decide +kernel, by decide +kernel, by decide +kernel⟩

end FileSystemSandboxPolicy

end SpineCodex
