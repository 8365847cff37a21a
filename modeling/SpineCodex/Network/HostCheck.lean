import SpineCodex.Network.Constraints

/-!
# Which hosts the proxy blocks

A denied host is blocked first; then local and private destinations, which must be allowed
explicitly; then every host that is neither allowed nor approved. The answer of the name lookup and
the result of a configuration reload are inputs.
-/

namespace SpineCodex

/-! ## Addresses that are not public -/

namespace IpAddr

def ipv4Nat (octets : Fin 4 → UInt8) : ℕ :=
  (((octets 0).toNat * 256 + (octets 1).toNat) * 256 + (octets 2).toNat) * 256 + (octets 3).toNat

/-- The leading `bits` bits are those of the base address. -/
def ipv4InCidr (octets : Fin 4 → UInt8) (a b c d : ℕ) (bits : ℕ) : Bool :=
  ipv4Nat octets / 2 ^ (32 - bits) == (((a * 256 + b) * 256 + c) * 256 + d) / 2 ^ (32 - bits)

def isNonPublicIpv4 (octets : Fin 4 → UInt8) : Bool :=
  ipv4InCidr octets 127 0 0 0 8 -- loopback
    || ipv4InCidr octets 10 0 0 0 8 || ipv4InCidr octets 172 16 0 0 12
    || ipv4InCidr octets 192 168 0 0 16 -- private
    || ipv4InCidr octets 169 254 0 0 16 -- link local
    || ipv4InCidr octets 0 0 0 0 32 -- unspecified
    || ipv4InCidr octets 224 0 0 0 4 -- multicast
    || ipv4InCidr octets 255 255 255 255 32 -- broadcast
    || ipv4InCidr octets 0 0 0 0 8
    || ipv4InCidr octets 100 64 0 0 10
    || ipv4InCidr octets 192 0 0 0 24
    || ipv4InCidr octets 192 0 2 0 24
    || ipv4InCidr octets 198 18 0 0 15
    || ipv4InCidr octets 198 51 100 0 24
    || ipv4InCidr octets 203 0 113 0 24
    || ipv4InCidr octets 240 0 0 0 4

/-- The IPv4 address that a compatible or mapped IPv6 address carries. -/
def toIpv4 (segments : Fin 8 → UInt16) : Option (Fin 4 → UInt8) :=
  if segments 0 = 0 ∧ segments 1 = 0 ∧ segments 2 = 0 ∧ segments 3 = 0 ∧ segments 4 = 0 ∧
      (segments 5 = 0 ∨ segments 5 = 0xffff) then
    some ![(segments 6 >>> 8).toUInt8, (segments 6).toUInt8, (segments 7 >>> 8).toUInt8,
      (segments 7).toUInt8]
  else none

def isLoopbackIpv6 (segments : Fin 8 → UInt16) : Bool :=
  decide (segments = ![0, 0, 0, 0, 0, 0, 0, 1])

def isNonPublicIpv6 (segments : Fin 8 → UInt16) : Bool :=
  match toIpv4 segments with
  | some octets => isNonPublicIpv4 octets || isLoopbackIpv6 segments
  | none =>
    isLoopbackIpv6 segments || decide (segments = fun _ => 0) -- unspecified
      || segments 0 &&& 0xff00 == 0xff00 -- multicast
      || segments 0 &&& 0xfe00 == 0xfc00 -- unique local
      || segments 0 &&& 0xffc0 == 0xfe80 -- link local

def isNonPublicIp : IpAddr → Bool
  | v4 octets => isNonPublicIpv4 octets
  | v6 segments => isNonPublicIpv6 segments

def isLoopback : IpAddr → Bool
  | v4 octets => octets 0 == 127
  | v6 segments => isLoopbackIpv6 segments

end IpAddr

def isLoopbackHost (host : List Char) : Bool :=
  let host := (unscopedIpLiteral host).getD host
  host == "localhost".toList || (IpAddr.parse host).any IpAddr.isLoopback

/-! ## The state -/

inductive LocalBindingPolicy where
  | defaultFalse
  | requireTrue
deriving DecidableEq

def LocalBindingPolicy.resolve {Hook : Type} (policy : LocalBindingPolicy)
    (config : NetworkProxyConfig Hook) : Bool :=
  config.allowLocalBinding.getD (config.enabled && policy == .requireTrue)

/-- A configuration with its compiled domain lists. -/
structure ConfigState (Hook : Type) where
  config : NetworkProxyConfig Hook
  allowSet : DomainPatternSet
  denySet : DomainPatternSet
  allow_compiled : compileAllowlist (config.allowedDomains.getD []) = .ok allowSet
  deny_compiled : compileDenylist (config.deniedDomains.getD []) = .ok denySet

structure NetworkProxyState (Hook : Type) where
  state : ConfigState Hook
  localBindingPolicy : LocalBindingPolicy
  /-- What the reloader answers when it is asked: an error, no change, or a new state. -/
  maybeReload : Except (List Char) (Option (ConfigState Hook))

/-- The state after a reload, which replaces the configuration or leaves it. -/
def NetworkProxyState.reloadIfNeeded {Hook : Type} (proxy : NetworkProxyState Hook) :
    Except (List Char) (ConfigState Hook) :=
  proxy.maybeReload.map fun fresh => fresh.getD proxy.state

/-! ## The check -/

inductive HostBlockReason where
  | denied
  | notAllowed
  | notAllowedLocal
deriving DecidableEq

inductive HostBlockDecision where
  | allowed
  | blocked (reason : HostBlockReason)
deriving DecidableEq

inductive HostAuthorization where
  | requireAllowlist
  | approved
deriving DecidableEq

def domainsMatchHostOrUnscoped (set : DomainPatternSet) (host : List Char) : Bool :=
  set.isMatch host || (unscopedIpLiteral host).any set.isMatch

/-- A pattern without wildcards that names the host, or the host without its zone. -/
def isExplicitLocalAllowlisted (allowedDomains : List (List Char)) (host : List Char) : Bool :=
  allowedDomains.any fun pattern =>
    let pattern := trimList pattern
    !pattern.any (oneOf "*?") &&
      (normalizeHost pattern == host || unscopedIpLiteral host == some (normalizeHost pattern))

/-- A lookup that fails or times out counts as an answer that is not public. -/
def hostResolvesToNonPublicIp (lookup : List Char → ℕ → Option (List IpAddr)) (host : List Char)
    (port : ℕ) : Bool :=
  match IpAddr.parse host with
  | some ip => ip.isNonPublicIp
  | none =>
    match lookup host port with
    | some addresses => addresses.any IpAddr.isNonPublicIp
    | none => true

section HostBlocked

variable {Hook : Type}

/-- The decision for a host once the configuration is known: an explicit denial wins, then local and
private networking is opt-in, then an allowlist match or an approval is required. -/
def hostDecision (guard : ConfigState Hook) (allowLocalBinding : Bool) (host : List Char) (port : ℕ)
    (authorization : HostAuthorization) (lookup : List Char → ℕ → Option (List IpAddr)) :
    HostBlockDecision :=
  let isAuthorized :=
    authorization == .approved || domainsMatchHostOrUnscoped guard.allowSet host
  let localLiteral := isLoopbackHost host ||
    (IpAddr.parse ((unscopedIpLiteral host).getD host)).any IpAddr.isNonPublicIp
  if domainsMatchHostOrUnscoped guard.denySet host then .blocked .denied
  else if !allowLocalBinding && localLiteral &&
      !isExplicitLocalAllowlisted (guard.config.allowedDomains.getD []) host then
    .blocked .notAllowedLocal
  else if !allowLocalBinding && !localLiteral && isAuthorized &&
      hostResolvesToNonPublicIp lookup host port then
    .blocked .notAllowedLocal
  else if isAuthorized then .allowed
  else .blocked .notAllowed

def hostBlockedWithLookup (proxy : NetworkProxyState Hook) (host : List Char) (port : ℕ)
    (allowLocalBinding : Option Bool) (authorization : HostAuthorization)
    (lookup : List Char → ℕ → Option (List IpAddr)) : Except (List Char) HostBlockDecision :=
  proxy.reloadIfNeeded.map fun guard =>
    let host := normalizeHost host
    if host = [] then .blocked .notAllowed
    else
      let allowLocalBinding :=
        allowLocalBinding.getD (proxy.localBindingPolicy.resolve guard.config) &&
          guard.config.allowLocalBinding != some false
      hostDecision guard allowLocalBinding host port authorization lookup

def hostBlocked (proxy : NetworkProxyState Hook) (host : List Char) (port : ℕ)
    (lookup : List Char → ℕ → Option (List IpAddr)) : Except (List Char) HostBlockDecision :=
  hostBlockedWithLookup proxy host port none .requireAllowlist lookup

/-- A host is answered with a denial exactly if the denylist matches its normal form. -/
theorem hostBlockedWithLookup_denied_iff {proxy : NetworkProxyState Hook} {guard : ConfigState Hook}
    (hreload : proxy.reloadIfNeeded = .ok guard) {host : List Char} (hne : normalizeHost host ≠ [])
    (port : ℕ) (allowLocalBinding : Option Bool) (authorization : HostAuthorization)
    (lookup : List Char → ℕ → Option (List IpAddr)) :
    hostBlockedWithLookup proxy host port allowLocalBinding authorization lookup =
        .ok (.blocked .denied) ↔
      domainsMatchHostOrUnscoped guard.denySet (normalizeHost host) = true := by
  simp only [hostBlockedWithLookup, hreload, Except.map, if_neg hne, hostDecision]
  split_ifs with hdenied <;> simp [hdenied]

end HostBlocked

end SpineCodex
