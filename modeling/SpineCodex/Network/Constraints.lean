import SpineCodex.Network.DomainMatcher

/-!
# Managed constraints on the network configuration

The managed requirements bound what a network configuration may say. For the domain lists the
bound is checked on patterns read once more, with the host rules of the `url` crate: a text that
those rules refuse is read as the empty domain. That reader, and the check of one interception
hook, are parameters.
-/

namespace SpineCodex

/-! ## The configuration -/

inductive NetworkMode where
  | limited
  | full
deriving DecidableEq

def NetworkMode.rank : NetworkMode → ℕ
  | limited => 0
  | full => 1

def NetworkMode.debug : NetworkMode → String
  | limited => "Limited"
  | full => "Full"

/-- Later permissions win over earlier ones for the same pattern. -/
inductive NetworkDomainPermission where
  | none
  | allow
  | deny
deriving DecidableEq

def NetworkDomainPermission.rank : NetworkDomainPermission → ℕ
  | none => 0
  | allow => 1
  | deny => 2

structure NetworkDomainPermissionEntry where
  pattern : List Char
  permission : NetworkDomainPermission
deriving DecidableEq

/-- One entry is merged into those of the patterns seen so far, in the order of first occurrence. -/
def mergeEntry (effective : List NetworkDomainPermissionEntry) (entry : NetworkDomainPermissionEntry) :
    List NetworkDomainPermissionEntry :=
  if effective.any (·.pattern == entry.pattern) then
    effective.map fun held =>
      if held.pattern = entry.pattern ∧ held.permission.rank < entry.permission.rank then
        { held with permission := entry.permission }
      else held
  else effective ++ [entry]

structure NetworkDomainPermissions where
  entries : List NetworkDomainPermissionEntry
deriving DecidableEq

def NetworkDomainPermissions.effectiveEntries (domains : NetworkDomainPermissions) :
    List NetworkDomainPermissionEntry :=
  domains.entries.foldl mergeEntry []

inductive NetworkUnixSocketPermission where
  | allow
  | deny
deriving DecidableEq

/-- The settings that the constraints and the host check read; `Hook` is an interception hook. -/
structure NetworkProxyConfig (Hook : Type) where
  enabled : Bool
  allowUpstreamProxy : Bool
  dangerouslyAllowNonLoopbackProxy : Bool
  dangerouslyAllowAllUnixSockets : Option Bool
  mode : NetworkMode
  domains : Option NetworkDomainPermissions
  unixSockets : Option (List (List Char × NetworkUnixSocketPermission))
  allowLocalBinding : Option Bool
  mitm : Bool
  mitmHooks : List Hook
deriving DecidableEq

namespace NetworkProxyConfig

variable {Hook : Type}

def domainEntries (config : NetworkProxyConfig Hook) (permission : NetworkDomainPermission) :
    Option (List (List Char)) :=
  (config.domains.map fun domains =>
    (domains.effectiveEntries.filter (·.permission == permission)).map (·.pattern)).filter
      fun entries => !entries.isEmpty

def allowedDomains (config : NetworkProxyConfig Hook) : Option (List (List Char)) :=
  config.domainEntries .allow

def deniedDomains (config : NetworkProxyConfig Hook) : Option (List (List Char)) :=
  config.domainEntries .deny

def allowUnixSockets (config : NetworkProxyConfig Hook) : List (List Char) :=
  ((config.unixSockets.getD []).filter (·.2 == .allow)).map (·.1)

end NetworkProxyConfig

structure NetworkProxyConstraints where
  enabled : Option Bool
  mode : Option NetworkMode
  allowUpstreamProxy : Option Bool
  dangerouslyAllowNonLoopbackProxy : Option Bool
  dangerouslyAllowAllUnixSockets : Option Bool
  allowedDomains : Option (List (List Char))
  allowlistExpansionEnabled : Option Bool
  deniedDomains : Option (List (List Char))
  denylistExpansionEnabled : Option Bool
  allowUnixSockets : Option (List (List Char))
  allowLocalBinding : Option Bool
deriving DecidableEq

/-! ## Patterns as the constraints read them -/

/-- What the constraint check makes of a pattern. -/
inductive DomainPattern where
  | apexAndSubdomains (domain : List Char)
  | subdomainsOnly (domain : List Char)
  | exact (domain : List Char)
deriving DecidableEq

section Reading

-- the `url` crate's host reader: the normalised host, or an error
variable (urlHost : List Char → Option (List Char))

def parseDomainForConstraints (domain : List Char) : List Char :=
  let domain := (trimList domain).rdropWhile (· == '.')
  if domain = [] then []
  else
    let host :=
      if domain.head? = some '[' ∧ domain.getLast? = some ']' then domain.tail.dropLast else domain
    if host.any (oneOf "*?%") then domain else (urlHost host).getD []

def DomainPattern.parseForConstraints (input : List Char) : DomainPattern :=
  let input := trimList input
  if input = [] then .exact []
  else
    let (wildcard, domain) := splitWildcard input
    if wildcard = "**.".toList then .apexAndSubdomains (parseDomainForConstraints urlHost domain)
    else if wildcard = "*.".toList then .subdomainsOnly (parseDomainForConstraints urlHost domain)
    else .exact (parseDomainForConstraints urlHost domain)

end Reading

def normalizeDomain (domain : List Char) : List Char := lower (domain.rdropWhile (· == '.'))

def domainEq (left right : List Char) : Bool := normalizeDomain left == normalizeDomain right

/-- Whether the normalised child ends in a dot and the normalised parent. -/
def endsBelow (child parent : List Char) : Bool :=
  ('.' :: normalizeDomain parent).isSuffixOf (normalizeDomain child)

def isSubdomainOrEqual (child parent : List Char) : Bool :=
  domainEq child parent || endsBelow child parent

def isStrictSubdomain (child parent : List Char) : Bool :=
  !domainEq child parent && endsBelow child parent

def DomainPattern.allows : DomainPattern → DomainPattern → Bool
  | .exact domain, .exact candidate => domainEq candidate domain
  | .exact _, _ => false
  | .subdomainsOnly domain, .exact candidate => isStrictSubdomain candidate domain
  | .subdomainsOnly domain, .subdomainsOnly candidate => isSubdomainOrEqual candidate domain
  | .subdomainsOnly domain, .apexAndSubdomains candidate => isStrictSubdomain candidate domain
  | .apexAndSubdomains domain, .exact candidate => isSubdomainOrEqual candidate domain
  | .apexAndSubdomains domain, .subdomainsOnly candidate => isSubdomainOrEqual candidate domain
  | .apexAndSubdomains domain, .apexAndSubdomains candidate => isSubdomainOrEqual candidate domain

/-! ## The check -/

/-- A value quoted in an error: a text, or a list shown in debug form. -/
inductive Quoted where
  | text (text : List Char)
  | list (entries : List (List Char))
deriving DecidableEq

/-- "invalid value for `fieldName`: `candidate` (allowed `allowed`)". -/
structure NetworkProxyConstraintError where
  fieldName : String
  candidate : Quoted
  allowed : Quoted
deriving DecidableEq

def invalidValue (fieldName candidate allowed : String) : NetworkProxyConstraintError :=
  ⟨fieldName, .text candidate.toList, .text allowed.toList⟩

def check (accepted : Bool) (error : NetworkProxyConstraintError) :
    Except NetworkProxyConstraintError Unit :=
  if accepted then .ok () else .error error

/-- A switch that the managed configuration may have turned off. -/
def checkSwitch (fieldName : String) (candidate permitted : Bool) :
    Except NetworkProxyConstraintError Unit :=
  check (!candidate || permitted)
    (invalidValue fieldName "true" "false (disabled by managed config)")

def validateNonGlobalWildcardDomainPatterns (fieldName : String) (patterns : List (List Char)) :
    Except NetworkProxyConstraintError Unit :=
  match patterns.find? isGlobalWildcardDomainPattern with
  | some pattern => .error ⟨fieldName, .text (trimList pattern),
      .text "exact hosts or scoped wildcards like *.example.com or **.example.com".toList⟩
  | none => .ok ()

/-- Two lists hold the same entries, capitals apart. -/
def sameEntries (left right : List (List Char)) : Bool :=
  left.all (fun entry => right.contains entry) && right.all fun entry => left.contains entry

section Validate

variable {Hook : Type} (urlHost : List Char → Option (List Char))
  (validateMitmHook : Hook → Except (List Char) Unit)

def validateMitmHookConfig (config : NetworkProxyConfig Hook) : Except (List Char) Unit :=
  if config.mitmHooks.isEmpty then .ok ()
  else if !config.mitm then .error "network.mitm_hooks requires network.mitm = true".toList
  else config.mitmHooks.forM validateMitmHook

def validateAllowedDomains (candidates denied allowed : List (List Char)) (expansion : Option Bool) :
    Except NetworkProxyConstraintError Unit :=
  let required := allowed.map lower
  let lowered := candidates.map lower
  match expansion with
  | some true =>
    let missing := required.filter fun entry => !lowered.contains entry && !denied.contains entry
    check missing.isEmpty ⟨"network.allowed_domains",
      .text "missing managed allowed_domains entries".toList, .list missing⟩
  | some false =>
    check (sameEntries lowered (required.filter fun entry => !denied.contains entry))
      ⟨"network.allowed_domains", .list candidates, .text "must match managed allowed_domains".toList⟩
  | none =>
    let managed := allowed.map (DomainPattern.parseForConstraints urlHost)
    let invalid := candidates.filter fun entry =>
      !managed.any fun pattern => pattern.allows (.parseForConstraints urlHost entry)
    check invalid.isEmpty
      ⟨"network.allowed_domains", .list invalid, .text "subset of managed allowed_domains".toList⟩

def validateDeniedDomains (candidates denied : List (List Char)) (expansion : Option Bool) :
    Except NetworkProxyConstraintError Unit :=
  let required := denied.map lower
  let lowered := candidates.map lower
  match expansion with
  | some false => check (sameEntries lowered required)
      ⟨"network.denied_domains", .list candidates, .text "must match managed denied_domains".toList⟩
  | _ =>
    let missing := required.filter fun entry => !lowered.contains entry
    check missing.isEmpty ⟨"network.denied_domains",
      .text "missing managed denied_domains entries".toList, .list missing⟩

/-- The sockets that the configuration opens are among the managed ones. -/
def validateUnixSockets (candidates sockets : List (List Char)) :
    Except NetworkProxyConstraintError Unit :=
  let allowed := sockets.map lower
  let invalid := candidates.filter fun entry => !allowed.contains (lower entry)
  check invalid.isEmpty
    ⟨"network.allow_unix_sockets", .list invalid, .text "subset of managed allow_unix_sockets".toList⟩

def validatePolicyAgainstConstraints (config : NetworkProxyConfig Hook)
    (constraints : NetworkProxyConstraints) : Except NetworkProxyConstraintError Unit := do
  let allowedDomains := config.allowedDomains.getD []
  let deniedDomains := config.deniedDomains.getD []
  (validateMitmHookConfig validateMitmHook config).mapError fun text =>
    ⟨"network.mitm_hooks", .text text, .text "valid MITM hook configuration".toList⟩
  validateNonGlobalWildcardDomainPatterns "network.denied_domains" deniedDomains
  constraints.enabled.forM (checkSwitch "network.enabled" config.enabled)
  constraints.mode.forM fun maxMode =>
    check (config.mode.rank ≤ maxMode.rank)
      (invalidValue "network.mode" config.mode.debug (maxMode.debug ++ " or more restrictive"))
  checkSwitch "network.allow_upstream_proxy" config.allowUpstreamProxy
    (constraints.allowUpstreamProxy.getD true)
  checkSwitch "network.dangerously_allow_non_loopback_proxy" config.dangerouslyAllowNonLoopbackProxy
    (constraints.dangerouslyAllowNonLoopbackProxy.getD true)
  checkSwitch "network.dangerously_allow_all_unix_sockets"
    (config.dangerouslyAllowAllUnixSockets.getD false)
    (constraints.dangerouslyAllowAllUnixSockets.getD constraints.allowUnixSockets.isNone)
  constraints.allowLocalBinding.forM
    (checkSwitch "network.allow_local_binding" (config.allowLocalBinding.getD false))
  constraints.allowedDomains.forM fun allowed => do
    validateNonGlobalWildcardDomainPatterns "network.allowed_domains" allowed
    validateAllowedDomains urlHost allowedDomains (deniedDomains.map lower) allowed
      constraints.allowlistExpansionEnabled
  constraints.deniedDomains.forM fun denied => do
    validateNonGlobalWildcardDomainPatterns "network.denied_domains" denied
    validateDeniedDomains deniedDomains denied constraints.denylistExpansionEnabled
  constraints.allowUnixSockets.forM (validateUnixSockets config.allowUnixSockets)

end Validate

end SpineCodex
