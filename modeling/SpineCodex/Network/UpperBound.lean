import SpineCodex.Network.Constraints

/-!
# The managed allowlist as an upper bound

The constraint check compares patterns as the host rules of the `url` crate read them, and the
proxy matches hosts against the same patterns normalised by its own rules. Where the two readings
of an accepted entry and of the managed entry that admitted it agree, every host of the entry is a
host of the managed list, except that a domain written with an empty first label slips through a
wildcard. Where they differ, nothing follows: two texts that the host rules refuse both read as the
empty domain, so one admits the other.
-/

namespace SpineCodex

open Wildcard (Reads reads_append_iff reads_one_iff reads_star_iff reads_nil_iff)

/-! ## What a constraint pattern means -/

/-- The domain of a pattern in its normal form. -/
def DomainPattern.normalized : DomainPattern → List Char
  | .apexAndSubdomains domain | .subdomainsOnly domain | .exact domain => normalizeDomain domain

/-- The wildcard texts for the hosts that a pattern is meant to allow. -/
def DomainPattern.globs (pattern : DomainPattern) : List (List Char) :=
  match pattern with
  | .apexAndSubdomains _ => [pattern.normalized, "?*.".toList ++ pattern.normalized]
  | .subdomainsOnly _ => ["?*.".toList ++ pattern.normalized]
  | .exact _ => [pattern.normalized]

/-- The host is one that the pattern is meant to allow. -/
def DomainPattern.Means (pattern : DomainPattern) (host : List Char) : Prop :=
  ∃ text ∈ pattern.globs, Reads (globOf text) (asBytes host)

/-- The candidate itself, and not only its subdomains, is admitted below a managed wildcard, and the
labels in front of the managed domain may be empty. -/
def EmptyLabel (managed candidate : DomainPattern) : Prop :=
  (∀ domain, managed ≠ .exact domain) ∧ (∀ domain, candidate ≠ .subdomainsOnly domain) ∧
    ∃ labels, candidate.normalized = labels ++ '.' :: managed.normalized ∧ Reads (globOf labels) []

theorem globOf_append (first second : List Char) :
    globOf (first ++ second) = globOf first ++ globOf second := by
  rw [globOf, asBytes_append, List.map_append, globOf, globOf]

theorem eqIgnoreAsciiCase_dot_iff (b : UInt8) : eqIgnoreAsciiCase 46 b = true ↔ b = 46 := by
  simp only [eqIgnoreAsciiCase]
  split_ifs <;> grind

theorem reads_dot_iff {pattern : List (Wildcard UInt8)} {bytes : List UInt8} :
    Reads (globOf ['.'] ++ pattern) bytes ↔ ∃ rest, bytes = 46 :: rest ∧ Reads pattern rest := by
  have hglob : globOf ['.'] ++ pattern =
      .one (fun b => (46 : UInt8) == 63 || eqIgnoreAsciiCase 46 b) :: pattern := rfl
  rw [hglob]
  cases bytes with
  | nil =>
    constructor
    · rintro ⟨⟩
    · simp
  | cons b bytes =>
    rw [reads_one_iff, show ((46 : UInt8) == 63) = false from rfl, Bool.false_or,
      eqIgnoreAsciiCase_dot_iff]
    simp

/-- A domain below another reads its own labels, a dot, and the other. -/
theorem reads_below_iff {labels domain : List Char} {bytes : List UInt8} :
    Reads (globOf (labels ++ '.' :: domain)) bytes ↔
      ∃ left rest, bytes = left ++ 46 :: rest ∧ Reads (globOf labels) left ∧
        Reads (globOf domain) rest := by
  rw [globOf_append, show '.' :: domain = ['.'] ++ domain from rfl, globOf_append, reads_append_iff]
  simp only [reads_dot_iff]
  constructor
  · rintro ⟨left, -, rfl, hleft, rest, rfl, hrest⟩
    exact ⟨left, rest, rfl, hleft, hrest⟩
  · rintro ⟨left, rest, rfl, hleft, hrest⟩
    exact ⟨left, _, rfl, hleft, rest, rfl, hrest⟩

/-- `?*` reads what is not empty. -/
theorem reads_some_iff {bytes : List UInt8} : Reads (globOf "?*".toList) bytes ↔ bytes ≠ [] := by
  have hglob : globOf "?*".toList =
      [.one fun b => (63 : UInt8) == 63 || eqIgnoreAsciiCase 63 b, .star] := rfl
  rw [hglob]
  cases bytes with
  | nil =>
    constructor
    · rintro ⟨⟩
    · simp
  | cons b bytes =>
    have hrest : Reads [.star] bytes := reads_star_iff.mpr ⟨bytes, [], by simp, .nil⟩
    rw [reads_one_iff]
    simp [hrest]

/-- A subdomain wildcard reads one byte or more, a dot, and the domain. -/
theorem reads_subdomain_iff {domain : List Char} {bytes : List UInt8} :
    Reads (globOf ("?*.".toList ++ domain)) bytes ↔
      ∃ left rest, bytes = left ++ 46 :: rest ∧ left ≠ [] ∧ Reads (globOf domain) rest := by
  rw [show "?*.".toList ++ domain = "?*".toList ++ '.' :: domain from rfl, reads_below_iff]
  simp only [reads_some_iff]

/-! ## Admission keeps the meaning -/

/-- What `isSubdomainOrEqual` compares, on normal forms. -/
theorem isSubdomainOrEqual_eq_true {child parent : List Char}
    (h : isSubdomainOrEqual child parent = true) :
    normalizeDomain child = normalizeDomain parent ∨
      ∃ labels, normalizeDomain child = labels ++ '.' :: normalizeDomain parent := by
  rw [isSubdomainOrEqual, Bool.or_eq_true, domainEq, beq_iff_eq, endsBelow,
    List.isSuffixOf_iff_suffix] at h
  refine h.imp id ?_
  rintro ⟨labels, hlabels⟩
  exact ⟨labels, hlabels.symm⟩

theorem isStrictSubdomain_eq_true {child parent : List Char}
    (h : isStrictSubdomain child parent = true) :
    ∃ labels, normalizeDomain child = labels ++ '.' :: normalizeDomain parent := by
  rw [isStrictSubdomain, Bool.and_eq_true, endsBelow, List.isSuffixOf_iff_suffix] at h
  obtain ⟨labels, hlabels⟩ := h.2
  exact ⟨labels, hlabels.symm⟩

/-- The subdomains of a domain below another are subdomains of the other. -/
theorem reads_subdomain_of_below {labels domain : List Char} {bytes : List UInt8}
    (h : Reads (globOf ("?*.".toList ++ (labels ++ '.' :: domain))) bytes) :
    Reads (globOf ("?*.".toList ++ domain)) bytes := by
  obtain ⟨left, after, rfl, hne, hbelow⟩ := reads_subdomain_iff.mp h
  obtain ⟨middle, rest, rfl, -, hrest⟩ := reads_below_iff.mp hbelow
  exact reads_subdomain_iff.mpr ⟨left ++ 46 :: middle, rest, by simp, by simp, hrest⟩

/-- A domain below another whose labels cannot be empty is a subdomain of the other. -/
theorem reads_subdomain_of_labels {labels domain : List Char} {bytes : List UInt8}
    (hlabels : ¬ Reads (globOf labels) []) (h : Reads (globOf (labels ++ '.' :: domain)) bytes) :
    Reads (globOf ("?*.".toList ++ domain)) bytes := by
  obtain ⟨left, rest, rfl, hleft, hrest⟩ := reads_below_iff.mp h
  refine reads_subdomain_iff.mpr ⟨left, rest, rfl, ?_, hrest⟩
  rintro rfl
  exact hlabels hleft

theorem DomainPattern.Means.of_subdomain {managed : DomainPattern} {host : List Char}
    (hwild : ∀ domain, managed ≠ .exact domain)
    (h : Reads (globOf ("?*.".toList ++ managed.normalized)) (asBytes host)) : managed.Means host := by
  cases managed with
  | exact domain => exact absurd rfl (hwild domain)
  | subdomainsOnly domain => exact ⟨_, by simp [globs], h⟩
  | apexAndSubdomains domain => exact ⟨_, by simp [globs], h⟩

/-- A candidate at a domain strictly below that of a managed wildcard. -/
theorem DomainPattern.Means.of_below {managed candidate : DomainPattern} {host : List Char}
    {labels : List Char} (h : candidate.Means host) (hwild : ∀ domain, managed ≠ .exact domain)
    (hn : candidate.normalized = labels ++ '.' :: managed.normalized)
    (hlabel : ¬ EmptyLabel managed candidate) : managed.Means host := by
  obtain ⟨text, htext, hreads⟩ := h
  have hself : (∀ domain, candidate ≠ .subdomainsOnly domain) → text = candidate.normalized →
      managed.Means host := by
    rintro hc rfl
    rw [hn] at hreads
    have hlabels : ¬ Reads (globOf labels) [] := fun hempty => hlabel ⟨hwild, hc, labels, hn, hempty⟩
    exact .of_subdomain hwild (reads_subdomain_of_labels hlabels hreads)
  have hsub : text = "?*.".toList ++ candidate.normalized → managed.Means host := by
    rintro rfl
    rw [hn] at hreads
    exact .of_subdomain hwild (reads_subdomain_of_below hreads)
  cases candidate with
  | exact domain => exact hself nofun (List.mem_singleton.mp htext)
  | subdomainsOnly domain => exact hsub (List.mem_singleton.mp htext)
  | apexAndSubdomains domain =>
    rcases List.mem_cons.mp htext with htext | htext
    · exact hself nofun htext
    · exact hsub (List.mem_singleton.mp htext)

/-- A candidate that a managed pattern allows means no host that the managed pattern does not, unless
its labels may be empty. -/
theorem DomainPattern.Means.of_allows {managed candidate : DomainPattern} {host : List Char}
    (hallows : managed.allows candidate = true) (hlabel : ¬ EmptyLabel managed candidate)
    (h : candidate.Means host) : managed.Means host := by
  cases managed with
  | exact domain =>
    cases candidate with
    | exact candidate =>
      have heq : normalizeDomain candidate = normalizeDomain domain := by
        simpa [allows, domainEq] using hallows
      simpa [Means, globs, normalized, heq] using h
    | subdomainsOnly candidate => cases hallows
    | apexAndSubdomains candidate => cases hallows
  | subdomainsOnly domain =>
    cases candidate with
    | subdomainsOnly candidate =>
      rcases isSubdomainOrEqual_eq_true hallows with heq | ⟨labels, hn⟩
      · simpa [Means, globs, normalized, heq] using h
      · exact h.of_below nofun hn hlabel
    | exact candidate | apexAndSubdomains candidate =>
      obtain ⟨labels, hn⟩ := isStrictSubdomain_eq_true hallows
      exact h.of_below nofun hn hlabel
  | apexAndSubdomains domain =>
    cases candidate with
    | exact candidate | subdomainsOnly candidate | apexAndSubdomains candidate =>
      rcases isSubdomainOrEqual_eq_true hallows with heq | ⟨labels, hn⟩
      · obtain ⟨text, htext, hreads⟩ := h
        refine ⟨text, ?_, hreads⟩
        simp only [globs, normalized, heq, List.mem_cons, List.not_mem_nil, or_false] at htext ⊢
        tauto
      · exact h.of_below nofun hn hlabel

/-! ## The bound -/

section Bound

variable {Hook : Type} {urlHost : List Char → Option (List Char)}
  {validateMitmHook : Hook → Except (List Char) Unit}

/-- The proxy's reading of an entry is the meaning of the constraint check's reading. -/
def Agrees (urlHost : List Char → Option (List Char)) (entry : List Char) : Prop :=
  expandDomainPattern (normalizePattern entry) =
    (DomainPattern.parseForConstraints urlHost entry).globs

/-- The managed pattern admits the entry in the constraint check. -/
def Admits (urlHost : List Char → Option (List Char)) (pattern entry : List Char) : Prop :=
  (DomainPattern.parseForConstraints urlHost pattern).allows (.parseForConstraints urlHost entry) = true

/-- Both readings agree for the managed pattern and for the entry, and no label of the entry may be
empty. -/
structure Faithful (urlHost : List Char → Option (List Char)) (pattern entry : List Char) : Prop where
  pattern_agrees : Agrees urlHost pattern
  entry_agrees : Agrees urlHost entry
  label : ¬ EmptyLabel (.parseForConstraints urlHost pattern) (.parseForConstraints urlHost entry)

theorem Faithful.covers {pattern entry host : List Char} (h : Faithful urlHost pattern entry)
    (hadmits : Admits urlHost pattern entry) (hc : Covers entry host) : Covers pattern host := by
  rw [Covers, h.entry_agrees] at hc
  rw [Covers, h.pattern_agrees]
  exact DomainPattern.Means.of_allows hadmits h.label hc

theorem check_eq_ok {accepted : Bool} {error : NetworkProxyConstraintError} {u : Unit} :
    check accepted error = .ok u ↔ accepted = true := by
  cases accepted <;> simp [check]

/-- Without an expansion flag, an accepted configuration allows only entries that some managed
pattern admits. -/
theorem exists_admits_of_accepted {config : NetworkProxyConfig Hook}
    {constraints : NetworkProxyConstraints} {managed : List (List Char)}
    (hmanaged : constraints.allowedDomains = some managed)
    (hflag : constraints.allowlistExpansionEnabled = none)
    (haccepted : validatePolicyAgainstConstraints urlHost validateMitmHook config constraints = .ok ()) :
    ∀ entry ∈ config.allowedDomains.getD [], ∃ pattern ∈ managed, Admits urlHost pattern entry := by
  simp only [validatePolicyAgainstConstraints, hmanaged, hflag, except_bind_eq_ok, Option.forM]
    at haccepted
  obtain ⟨_, _, _, _, _, _, _, _, _, _, _, _, _, _, _, _, _, ⟨_, _, hsubset⟩, _⟩ := haccepted
  intro entry hentry
  simp only [validateAllowedDomains, check_eq_ok, List.isEmpty_iff, List.filter_eq_nil_iff] at hsubset
  have hany := hsubset entry hentry
  simpa [Admits] using hany

end Bound

/-! ## Two refused texts -/

/-- A host reader that refuses a port and lowers everything else. -/
def portRefusing (host : List Char) : Option (List Char) :=
  if ':' ∈ host then none else some (lower host)

/-- A configuration that allows the given patterns and asks for nothing else. -/
def allowingDomains (patterns : List String) : NetworkProxyConfig Empty where
  enabled := true
  allowUpstreamProxy := true
  dangerouslyAllowNonLoopbackProxy := false
  dangerouslyAllowAllUnixSockets := none
  mode := .full
  domains := some ⟨patterns.map fun pattern => ⟨pattern.toList, .allow⟩⟩
  unixSockets := none
  allowLocalBinding := none
  mitm := false
  mitmHooks := []

/-- Managed requirements that only bound the allowlist. -/
def managingDomains (patterns : List String) : NetworkProxyConstraints where
  enabled := none
  mode := none
  allowUpstreamProxy := none
  dangerouslyAllowNonLoopbackProxy := none
  dangerouslyAllowAllUnixSockets := none
  allowedDomains := some (patterns.map String.toList)
  allowlistExpansionEnabled := none
  deniedDomains := none
  denylistExpansionEnabled := none
  allowUnixSockets := none
  allowLocalBinding := none

end SpineCodex
