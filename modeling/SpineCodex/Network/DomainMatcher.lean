import SpineCodex.Lib.Traversal
import SpineCodex.Lib.IpText
import SpineCodex.Lib.Wildcard

/-!
# Domain patterns of the network proxy

Hosts and patterns are normalised before they are compared: white space, brackets, one port and
trailing dots are stripped and ASCII capitals lowered. A pattern then stands for one or two
wildcard texts, which are matched against the bytes of the host. Addresses are compared by their
text: normalisation checks that a host is an address but does not rewrite it.
-/

namespace SpineCodex

/-! ## Normalisation -/

/-- An address, or an address with a zone; the zone's delimiter becomes a plain `%`. -/
def normalizeIpLiteral (host : List Char) : Option (List Char) :=
  if (IpAddr.parse host).isSome then some host
  else ["%25".toList, "%".toList].findSome? fun delimiter =>
    (splitOnce delimiter host).bind fun (ip, scope) =>
      if (IpAddr.parse ip).isSome then some (ip ++ '%' :: scope) else none

def normalizeDnsHostOrIpLiteral (host : List Char) : List Char :=
  let host := (lower host).rdropWhile (· == '.')
  (normalizeIpLiteral host).getD host

def normalizeHost (host : List Char) : List Char :=
  let host := trimList host
  match if host.head? = some '[' then splitOnce [']'] host.tail else none with
  | some (literal, _) => normalizeDnsHostOrIpLiteral literal
  | none =>
    -- a port is stripped only where there is exactly one colon, so that bare IPv6 texts survive
    if host.count ':' = 1 then normalizeDnsHostOrIpLiteral (host.takeWhile (· != ':'))
    else normalizeDnsHostOrIpLiteral host

/-- The address in front of a zone. -/
def unscopedIpLiteral (host : List Char) : Option (List Char) :=
  (splitOnce ['%'] host).bind fun (ip, _) => if (IpAddr.parse ip).isSome then some ip else none

/-- The wildcard in front of a domain, and the domain. -/
def splitWildcard (pattern : List Char) : List Char × List Char :=
  match "**.".toList.isPrefixOf? pattern with
  | some domain => ("**.".toList, domain)
  | none =>
    match "*.".toList.isPrefixOf? pattern with
    | some domain => ("*.".toList, domain)
    | none => ([], pattern)

def normalizePattern (pattern : List Char) : List Char :=
  let pattern := trimList pattern
  if pattern = ['*'] then ['*']
  else
    let (wildcard, remainder) := splitWildcard pattern
    wildcard ++ normalizeHost remainder

/-- The wildcard texts a pattern stands for: `*.` covers the subdomains of a domain, `**.` the
domain as well. -/
def expandDomainPattern (pattern : List Char) : List (List Char) :=
  let pattern := trimList pattern
  let (wildcard, domain) := splitWildcard pattern
  if wildcard = [] then [pattern]
  else
    let domain := trimList domain
    if domain = [] then [[]]
    else if wildcard = "**.".toList then [domain, "?*.".toList ++ domain]
    else ["?*.".toList ++ domain]

def isGlobalWildcardDomainPattern (pattern : List Char) : Bool :=
  (expandDomainPattern (normalizePattern pattern)).any (· == ['*'])

/-! ## Matching -/

/-- A byte of a pattern: `*` is a star, `?` is any byte, and another byte is itself in either case. -/
def byteWildcard (c : UInt8) : Wildcard UInt8 :=
  if c = 42 then .star else .one fun b => c == 63 || eqIgnoreAsciiCase c b

/-- The wildcard pattern that a text denotes. -/
def globOf (text : List Char) : List (Wildcard UInt8) := (asBytes text).map byteWildcard

structure DomainPatternSet where
  patterns : List (List UInt8)
deriving DecidableEq

def DomainPatternSet.matches (pattern host : List UInt8) : Bool :=
  Wildcard.matchesText (pattern.map byteWildcard) host

def DomainPatternSet.isMatch (set : DomainPatternSet) (host : List Char) : Bool :=
  set.patterns.any fun pattern => DomainPatternSet.matches pattern (asBytes host)

/-! ## Compilation -/

inductive GlobalWildcard where
  | allow
  | reject
deriving DecidableEq

def oneOf (chars : String) (c : Char) : Bool := chars.toList.contains c

/-- Brackets hold an IPv6 address or `*`, followed by dots or by a port. -/
def bracketsSupported (host : List Char) : Bool :=
  match if host.head? = some '[' then splitOnce [']'] host.tail else none with
  | none => false
  | some (ip, suffix) =>
    let normalized := normalizeDnsHostOrIpLiteral ip
    let unscoped := normalized.takeWhile (· != '%')
    !ip.any (oneOf "[]") && (normalized == ['*'] || IpAddr.isIpv6 unscoped) &&
      !suffix.any (oneOf "[]") && (suffix.all (· == '.') || suffix.head? == some ':')

def checkDomainPattern (globalWildcard : GlobalWildcard) (pattern : List Char) :
    Except (List Char) Unit :=
  let raw := trimList pattern
  let host := (splitWildcard raw).2
  if globalWildcard = .reject ∧ isGlobalWildcardDomainPattern pattern = true then
    .error ("unsupported global wildcard domain pattern \"*\"; use exact hosts or scoped wildcards " ++
      "like *.example.com or **.example.com").toList
  else if raw.any (oneOf "\x7b\x7d\\/") = true ∨ raw.any whiteSpace = true then
    .error ("unsupported domain pattern syntax: ".toList ++ pattern)
  else if (splitOnce "**".toList host).isSome = true then
    .error ("unsupported repeated wildcard: ".toList ++ pattern)
  else if host.any (oneOf "[]") = true ∧ bracketsSupported host = false then
    .error ("brackets are only supported for IPv6 literals or [*]: ".toList ++ pattern)
  else .ok ()

/-- The candidates of one pattern, each once. -/
def addCandidates (seen : List (List Char)) : List (List Char) → Except (List Char) (List (List Char))
  | [] => .ok seen
  | candidate :: candidates =>
    if candidate ∈ seen then addCandidates seen candidates
    else if candidate = [] then .error "domain pattern is empty".toList
    else addCandidates (seen ++ [candidate]) candidates

def compilePatterns (globalWildcard : GlobalWildcard) :
    List (List Char) → List (List Char) → Except (List Char) (List (List Char))
  | seen, [] => .ok seen
  | seen, pattern :: patterns => do
    checkDomainPattern globalWildcard pattern
    let seen ← addCandidates seen (expandDomainPattern (normalizePattern pattern))
    compilePatterns globalWildcard seen patterns

def DomainPatternSet.new (patterns : List (List Char)) (globalWildcard : GlobalWildcard) :
    Except (List Char) DomainPatternSet := do
  let candidates ← compilePatterns globalWildcard [] patterns
  return { patterns := candidates.map asBytes }

def compileAllowlist (patterns : List (List Char)) : Except (List Char) DomainPatternSet :=
  DomainPatternSet.new patterns .allow

def compileDenylist (patterns : List (List Char)) : Except (List Char) DomainPatternSet :=
  DomainPatternSet.new patterns .reject

/-! ## What a compiled list matches -/

/-- The hosts that one pattern covers, by the meaning of its wildcard texts. -/
def Covers (pattern host : List Char) : Prop :=
  ∃ candidate ∈ expandDomainPattern (normalizePattern pattern),
    Wildcard.Reads (globOf candidate) (asBytes host)

theorem addCandidates_eq_ok {seen candidates result : List (List Char)}
    (h : addCandidates seen candidates = .ok result) :
    ∀ text, text ∈ result ↔ text ∈ seen ∨ text ∈ candidates := by
  induction candidates generalizing seen with
  | nil =>
    cases h
    simp
  | cons candidate candidates ih =>
    intro text
    simp only [addCandidates] at h
    split_ifs at h with hseen hempty
    · rw [ih h text, List.mem_cons]
      constructor
      · rintro (h | h)
        · exact .inl h
        · exact .inr (.inr h)
      · rintro (h | rfl | h)
        · exact .inl h
        · exact .inl hseen
        · exact .inr h
    · rw [ih h text, List.mem_append, List.mem_singleton, List.mem_cons, or_assoc]

theorem compilePatterns_eq_ok {globalWildcard : GlobalWildcard}
    {seen patterns result : List (List Char)}
    (h : compilePatterns globalWildcard seen patterns = .ok result) :
    (∀ pattern ∈ patterns, checkDomainPattern globalWildcard pattern = .ok ()) ∧
      ∀ text, text ∈ result ↔
        text ∈ seen ∨ ∃ pattern ∈ patterns, text ∈ expandDomainPattern (normalizePattern pattern) := by
  induction patterns generalizing seen with
  | nil =>
    cases h
    simp
  | cons pattern patterns ih =>
    simp only [compilePatterns, except_bind_eq_ok] at h
    obtain ⟨_, hcheck, more, hadd, hrest⟩ := h
    obtain ⟨hchecks, hmem⟩ := ih hrest
    constructor
    · intro p hp
      rcases List.mem_cons.mp hp with rfl | hp
      · exact hcheck
      · exact hchecks p hp
    · intro text
      rw [hmem text, addCandidates_eq_ok hadd text, or_assoc]
      simp

/-- A compiled list matches the hosts that one of its patterns covers. -/
theorem DomainPatternSet.isMatch_iff {patterns : List (List Char)} {globalWildcard : GlobalWildcard}
    {set : DomainPatternSet} (h : DomainPatternSet.new patterns globalWildcard = .ok set)
    (host : List Char) : set.isMatch host = true ↔ ∃ pattern ∈ patterns, Covers pattern host := by
  rw [DomainPatternSet.new, except_bind_eq_ok] at h
  obtain ⟨candidates, hcompile, hset⟩ := h
  cases hset
  have hmem := (compilePatterns_eq_ok hcompile).2
  simp only [DomainPatternSet.isMatch, DomainPatternSet.matches, List.any_eq_true, List.mem_map,
    Wildcard.matchesText_iff]
  constructor
  · rintro ⟨-, ⟨text, htext, rfl⟩, hreads⟩
    obtain ⟨pattern, hp, ht⟩ := ((hmem text).mp htext).resolve_left (by simp)
    exact ⟨pattern, hp, text, ht, hreads⟩
  · rintro ⟨pattern, hp, text, ht, hreads⟩
    exact ⟨_, ⟨text, (hmem text).mpr (.inr ⟨pattern, hp, ht⟩), rfl⟩, hreads⟩

end SpineCodex
