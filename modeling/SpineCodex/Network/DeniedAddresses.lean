import SpineCodex.Network.HostCheck

/-!
# Denying an address in every spelling

A denied address and a requested host are compared as texts. Normalisation strips what may surround
an address and lowers its digits, but keeps the way the address itself is written. A denial therefore
reaches the spellings that differ from the denied one in case, brackets, port and trailing dots. For
an IPv4 address these are all spellings; an IPv6 address has others, such as `::1` written out.
-/

namespace SpineCodex

open Wildcard (Reads reads_one_iff reads_nil_iff)

/-- A text with trailing dots. -/
def dotted (text : List Char) (dots : ℕ) : List Char := text ++ List.replicate dots '.'

/-- What may surround the text of an address: trailing dots, a port after an IPv4 address, or
brackets followed by dots or a port. -/
inductive Spells (text : List Char) : List Char → Prop where
  | plain (dots : ℕ) : Spells text (dotted text dots)
  | port (dots : ℕ) (port : List Char) : ':' ∉ text → (∀ c ∈ port, c.isDigit = true) →
      Spells text (dotted text dots ++ ':' :: port)
  | bracketed (dots : ℕ) (suffix : List Char) :
      (∀ c ∈ suffix, c.isDigit = true ∨ c = '.' ∨ c = ':') →
      Spells text ('[' :: (dotted text dots ++ ']' :: suffix))

/-! ## Normal forms -/

section Normal

variable {text : List Char} {ip : IpAddr}

theorem letter_toNat {c : Char} (h : IpAddr.Letter c) :
    46 ≤ c.toNat ∧ c.toNat ≤ 102 ∧ c.toNat ≠ 63 ∧ c.toNat ≠ 91 ∧ c.toNat ≠ 93 := by
  rcases h with h | rfl | rfl
  · unfold IpAddr.isDigit IpAddr.digit at h
    grind
  · decide
  · decide

theorem whiteSpace_of_toNat {c : Char} (h : 33 ≤ c.toNat ∧ c.toNat ≤ 126) : whiteSpace c = false := by
  simp only [whiteSpace]
  grind

/-- The address with trailing dots comes out in lower case and without the dots. -/
theorem normalizeDnsHostOrIpLiteral_eq (h : IpAddr.parse text = some ip) (dots : ℕ) :
    normalizeDnsHostOrIpLiteral (dotted text dots) = lower text := by
  obtain ⟨hne, htaken, -⟩ := IpAddr.parse_eq_some h
  have hlast : (lower text).rdropWhile (· == '.') = lower text := by
    rw [List.rdropWhile_eq_self_iff]
    intro hl hdot
    have hget : (lower text).getLast? = some '.' := by
      rw [List.getLast?_eq_getLast_of_ne_nil hl, eq_of_beq hdot]
    rw [lower, List.getLast?_map, Option.map_eq_some_iff] at hget
    obtain ⟨c, hc, hlow⟩ := hget
    rw [(toLower_eq_iff (by decide)).mp hlow] at hc
    exact htaken.last hc
  have hdots : ∀ n, (lower text ++ List.replicate n '.').rdropWhile (· == '.') = lower text := by
    intro n
    induction n with
    | zero => simpa using hlast
    | succ n ih =>
      rw [List.replicate_succ', ← List.append_assoc, List.rdropWhile_concat_pos _ _ _ (by simp), ih]
  have hlower : lower (dotted text dots) = lower text ++ List.replicate dots '.' := by
    rw [dotted, lower_append, lower, lower, List.map_replicate]
    rfl
  have hparse : (IpAddr.parse (lower text)).isSome = true := by rw [IpAddr.parse_lower, h]; rfl
  simp only [normalizeDnsHostOrIpLiteral, hlower, hdots, normalizeIpLiteral, hparse, if_true,
    Option.getD_some]

/-- Characters of an address, and of the dots behind it, are neither white space nor brackets. -/
theorem toNat_of_mem_dotted (h : IpAddr.parse text = some ip) {dots : ℕ} {c : Char}
    (hc : c ∈ dotted text dots) :
    46 ≤ c.toNat ∧ c.toNat ≤ 102 ∧ c.toNat ≠ 63 ∧ c.toNat ≠ 91 ∧ c.toNat ≠ 93 := by
  rcases List.mem_append.mp hc with hc | hc
  · exact letter_toNat ((IpAddr.parse_eq_some h).2.1.letters c hc)
  · rw [List.eq_of_mem_replicate hc]
    decide

theorem toNat_of_isDigit {c : Char} (h : c.isDigit = true) : 48 ≤ c.toNat ∧ c.toNat ≤ 57 := by
  simp only [Char.isDigit, Bool.and_eq_true, decide_eq_true_eq, ge_iff_le,
    UInt32.le_iff_toNat_le] at h
  exact h

theorem trimList_of_spells (h : IpAddr.parse text = some ip) {host : List Char}
    (hs : Spells text host) : trimList host = host := by
  apply trimList_eq_self
  intro c hc
  apply whiteSpace_of_toNat
  have hdotted : ∀ dots, c ∈ dotted text dots → 33 ≤ c.toNat ∧ c.toNat ≤ 126 := by
    intro dots hmem
    have := toNat_of_mem_dotted h hmem
    omega
  have hdigit : c.isDigit = true → 33 ≤ c.toNat ∧ c.toNat ≤ 126 := by
    intro hmem
    have := toNat_of_isDigit hmem
    omega
  cases hs with
  | plain dots => exact hdotted dots hc
  | port dots port _ hport =>
    rw [List.mem_append, List.mem_cons] at hc
    rcases hc with hc | rfl | hc
    · exact hdotted dots hc
    · decide
    · exact hdigit (hport c hc)
  | bracketed dots suffix hsuffix =>
    rw [List.mem_cons, List.mem_append, List.mem_cons] at hc
    rcases hc with rfl | hc | rfl | hc
    · decide
    · exact hdotted dots hc
    · decide
    · rcases hsuffix c hc with hc | rfl | rfl
      · exact hdigit hc
      · decide
      · decide

theorem not_mem_dotted (h : IpAddr.parse text = some ip) (dots : ℕ) {d : Char}
    (hd : d.toNat < 46 ∨ 102 < d.toNat ∨ d.toNat = 91 ∨ d.toNat = 93) : d ∉ dotted text dots := by
  intro hmem
  have := toNat_of_mem_dotted h hmem
  omega

theorem count_colon_dotted (dots : ℕ) : (dotted text dots).count ':' = text.count ':' := by
  rw [dotted, List.count_append, List.count_replicate]
  simp

theorem head?_dotted (h : IpAddr.parse text = some ip) (dots : ℕ) {d : Char}
    (hd : d.toNat < 46 ∨ 102 < d.toNat ∨ d.toNat = 91 ∨ d.toNat = 93) (rest : List Char) :
    (dotted text dots ++ rest).head? ≠ some d := by
  have hne : dotted text dots ≠ [] := by simp [dotted, (IpAddr.parse_eq_some h).1]
  rw [List.head?_append_of_ne_nil _ hne]
  exact fun hhead => not_mem_dotted h dots hd (List.mem_of_head? hhead)

/-- Whatever surrounds an address, its normal form is the address in lower case. -/
theorem normalizeHost_of_spells (h : IpAddr.parse text = some ip) {host : List Char}
    (hs : Spells text host) : normalizeHost host = lower text := by
  simp only [normalizeHost, trimList_of_spells h hs]
  cases hs with
  | plain dots =>
    have hhead := head?_dotted h dots (d := '[') (by decide) []
    rw [List.append_nil] at hhead
    have hcount : (dotted text dots).count ':' ≠ 1 := by
      rw [count_colon_dotted]
      exact (IpAddr.parse_eq_some h).2.2
    simp only [if_neg hhead, if_neg hcount]
    exact normalizeDnsHostOrIpLiteral_eq h dots
  | port dots port hcolon hport =>
    have hhead := head?_dotted h dots (d := '[') (by decide) (':' :: port)
    have hnone : ':' ∉ port := fun hmem => absurd (toNat_of_isDigit (hport _ hmem)) (by decide)
    have hnone' : ':' ∉ dotted text dots := by
      rw [dotted, List.mem_append, List.mem_replicate]
      simp [hcolon]
    have hcount : (dotted text dots ++ ':' :: port).count ':' = 1 := by
      rw [List.count_append, List.count_cons_self, List.count_eq_zero_of_not_mem hnone,
        List.count_eq_zero_of_not_mem hnone']
    have htake : (dotted text dots ++ ':' :: port).takeWhile (· != ':') = dotted text dots := by
      rw [List.takeWhile_append_of_pos]
      · simp
      · intro c hc
        simpa using fun heq : c = ':' => hnone' (heq ▸ hc)
    simp only [if_neg hhead, if_pos hcount, htake]
    exact normalizeDnsHostOrIpLiteral_eq h dots
  | bracketed dots suffix _ =>
    have hsplit : splitOnce [']'] (dotted text dots ++ ']' :: suffix) =
        some (dotted text dots, suffix) :=
      splitOnce_char (not_mem_dotted h dots (by decide))
    simp only [List.head?_cons, if_true, List.tail_cons, hsplit]
    exact normalizeDnsHostOrIpLiteral_eq h dots

theorem splitWildcard_eq {pattern : List Char} (h : pattern.head? ≠ some '*') :
    splitWildcard pattern = ([], pattern) := by
  cases pattern with
  | nil => rfl
  | cons c pattern =>
    have hc : ('*' == c) = false := by
      rw [beq_eq_false_iff_ne]
      rintro rfl
      exact h rfl
    have hdouble : "**.".toList.isPrefixOf? (c :: pattern) = none := by
      simp [List.isPrefixOf?, hc]
    have hsingle : "*.".toList.isPrefixOf? (c :: pattern) = none := by
      simp [List.isPrefixOf?, hc]
    simp only [splitWildcard, hdouble, hsingle]

theorem head?_of_spells (h : IpAddr.parse text = some ip) {host : List Char}
    (hs : Spells text host) : host.head? ≠ some '*' := by
  cases hs with
  | plain dots => simpa using head?_dotted h dots (d := '*') (by decide) []
  | port dots port => exact head?_dotted h dots (by decide) _
  | bracketed dots suffix => simp

/-- The letters of an address in lower case are bytes of their own, and no capitals. -/
theorem toNat_of_mem_lower (h : ∀ c ∈ text, IpAddr.Letter c) {c : Char} (hc : c ∈ lower text) :
    46 ≤ c.toNat ∧ c.toNat ≤ 102 ∧ c.toNat ≠ 63 ∧ ¬ (65 ≤ c.toNat ∧ c.toNat ≤ 90) := by
  obtain ⟨d, hd, rfl⟩ := List.mem_map.mp hc
  have hletter := letter_toNat (h d hd)
  have hdigit : d.toNat ≤ 70 ∨ 97 ≤ d.toNat := by
    rcases h d hd with hd | rfl | rfl
    · unfold IpAddr.isDigit IpAddr.digit at hd
      grind
    · decide
    · decide
  rw [toNat_toLower]
  split_ifs <;> omega

/-- The pattern of an address stands for the address in lower case. -/
theorem expand_of_spells (h : IpAddr.parse text = some ip) {pattern : List Char}
    (hs : Spells text pattern) :
    expandDomainPattern (normalizePattern pattern) = [lower text] := by
  have hhead := head?_of_spells h hs
  have hstar : pattern ≠ ['*'] := by
    rintro rfl
    exact hhead rfl
  have hnormal : normalizePattern pattern = lower text := by
    simp only [normalizePattern, trimList_of_spells h hs, if_neg hstar, splitWildcard_eq hhead,
      List.nil_append]
    exact normalizeHost_of_spells h hs
  have hletters := (IpAddr.parse_eq_some h).2.1.letters
  have htrim : trimList (lower text) = lower text := by
    apply trimList_eq_self
    intro c hc
    have := toNat_of_mem_lower hletters hc
    exact whiteSpace_of_toNat (by omega)
  have hfirst : (lower text).head? ≠ some '*' := by
    intro hc
    have := toNat_of_mem_lower hletters (List.mem_of_head? hc)
    exact absurd this.1 (by decide)
  rw [hnormal]
  simp only [expandDomainPattern, htrim, splitWildcard_eq hfirst, if_true]

end Normal

/-! ## Literal texts -/

theorem eqIgnoreAsciiCase_iff {a b : ℕ} (ha : a < 128 ∧ ¬ (65 ≤ a ∧ a ≤ 90))
    (hb : b < 128 ∧ ¬ (65 ≤ b ∧ b ≤ 90)) :
    eqIgnoreAsciiCase (UInt8.ofNat a) (UInt8.ofNat b) = true ↔ a = b := by
  have hplain : ∀ n : ℕ, n < 128 ∧ ¬ (65 ≤ n ∧ n ≤ 90) →
      ¬ (65 ≤ UInt8.ofNat n ∧ UInt8.ofNat n ≤ 90) := by
    intro n hn
    simp only [UInt8.le_iff_toNat_le, UInt8.toNat_ofNat']
    have : n % 2 ^ 8 = n := Nat.mod_eq_of_lt (by omega)
    rw [this]
    exact hn.2
  simp only [eqIgnoreAsciiCase, if_neg (hplain a ha), if_neg (hplain b hb), beq_iff_eq]
  constructor
  · intro h
    have := congrArg UInt8.toNat h
    simp only [UInt8.toNat_ofNat'] at this
    omega
  · rintro rfl
    rfl

/-- Without wildcards and capitals, a pattern of address letters reads its own bytes only. -/
theorem reads_literal_iff {first second : List Char}
    (hfirst : ∀ c ∈ first, 46 ≤ c.toNat ∧ c.toNat ≤ 102 ∧ c.toNat ≠ 63 ∧
      ¬ (65 ≤ c.toNat ∧ c.toNat ≤ 90))
    (hsecond : ∀ c ∈ second, 46 ≤ c.toNat ∧ c.toNat ≤ 102 ∧ c.toNat ≠ 63 ∧
      ¬ (65 ≤ c.toNat ∧ c.toNat ≤ 90)) :
    Reads (globOf first) (asBytes second) ↔ first = second := by
  induction first generalizing second with
  | nil =>
    rw [show globOf [] = [] from rfl, reads_nil_iff]
    constructor
    · intro h
      by_contra hne
      exact asBytes_ne_nil (Ne.symm hne) h
    · rintro rfl
      rfl
  | cons c first ih =>
    have hc := hfirst c (by simp)
    have hbyte : byteWildcard (UInt8.ofNat c.toNat) =
        .one fun b => eqIgnoreAsciiCase (UInt8.ofNat c.toNat) b := by
      have hne : ∀ n : ℕ, n < 128 → c.toNat ≠ n → UInt8.ofNat c.toNat ≠ UInt8.ofNat n := by
        intro n hn hcn heq
        have := congrArg UInt8.toNat heq
        simp only [UInt8.toNat_ofNat'] at this
        omega
      have hstar : UInt8.ofNat c.toNat ≠ 42 := hne 42 (by decide) (by omega)
      have hany : (UInt8.ofNat c.toNat == 63) = false :=
        beq_eq_false_iff_ne.mpr (hne 63 (by decide) (by omega))
      simp only [byteWildcard, if_neg hstar, hany, Bool.false_or]
    have hglob : globOf (c :: first) =
        .one (fun b => eqIgnoreAsciiCase (UInt8.ofNat c.toNat) b) :: globOf first := by
      rw [globOf, asBytes_cons_ascii (by omega), List.map_cons, hbyte, globOf]
    rw [hglob]
    cases second with
    | nil =>
      constructor
      · rintro ⟨⟩
      · simp
    | cons d second =>
      have hd := hsecond d (by simp)
      rw [asBytes_cons_ascii (by omega), reads_one_iff, eqIgnoreAsciiCase_iff (by omega) (by omega),
        ih (fun e he => hfirst e (List.mem_cons_of_mem _ he))
          (fun e he => hsecond e (List.mem_cons_of_mem _ he)), List.cons.injEq]
      exact and_congr_left' ⟨toNat_inj, congrArg Char.toNat⟩

/-- The pattern of an address covers the hosts that write the address the same way, capitals
apart. -/
theorem covers_of_spells_iff {text text' pattern : List Char} {ip ip' : IpAddr}
    (h : IpAddr.parse text = some ip) (hs : Spells text pattern) (h' : IpAddr.parse text' = some ip') :
    Covers pattern (lower text') ↔ lower text = lower text' := by
  have hletters := (IpAddr.parse_eq_some h).2.1.letters
  have hletters' := (IpAddr.parse_eq_some h').2.1.letters
  rw [Covers, expand_of_spells h hs]
  simp only [List.mem_singleton, exists_eq_left]
  exact reads_literal_iff (fun _ hc => toNat_of_mem_lower hletters hc)
    (fun _ hc => toNat_of_mem_lower hletters' hc)

theorem unscopedIpLiteral_lower {text : List Char} {ip : IpAddr}
    (h : IpAddr.parse text = some ip) : unscopedIpLiteral (lower text) = none := by
  have hnone : '%' ∉ lower text := by
    intro hmem
    have := toNat_of_mem_lower (IpAddr.parse_eq_some h).2.1.letters hmem
    exact absurd this.1 (by decide)
  rw [unscopedIpLiteral, splitOnce_eq_none hnone]
  rfl

/-! ## Denials -/

/-- For every configuration whose denylist names an address and every host that names the same
address: the host is denied exactly if the two are written the same way, capitals apart, or another
denied pattern covers the host. For an IPv4 address it is always denied. -/
theorem denied_address_iff {Hook : Type} {proxy : NetworkProxyState Hook} {guard : ConfigState Hook}
    (hreload : proxy.reloadIfNeeded = .ok guard) {ip : IpAddr} {text text' literal host : List Char}
    (hliteral : literal ∈ guard.config.deniedDomains.getD [])
    (hparse : IpAddr.parse text = some ip) (hs : Spells text literal)
    (hparse' : IpAddr.parse text' = some ip) (hs' : Spells text' host)
    (port : ℕ) (allowLocalBinding : Option Bool) (authorization : HostAuthorization)
    (lookup : List Char → ℕ → Option (List IpAddr)) :
    (hostBlockedWithLookup proxy host port allowLocalBinding authorization lookup =
        .ok (.blocked .denied) ↔
      lower text = lower text' ∨ ∃ pattern ∈ guard.config.deniedDomains.getD [],
        pattern ≠ literal ∧ Covers pattern (lower text')) ∧
    (∀ octets, ip = .v4 octets →
      hostBlockedWithLookup proxy host port allowLocalBinding authorization lookup =
        .ok (.blocked .denied)) := by
  have hnormal := normalizeHost_of_spells hparse' hs'
  have hne : normalizeHost host ≠ [] := by
    rw [hnormal, lower, Ne, List.map_eq_nil_iff]
    exact (IpAddr.parse_eq_some hparse').1
  have hdenied : hostBlockedWithLookup proxy host port allowLocalBinding authorization lookup =
        .ok (.blocked .denied) ↔
      lower text = lower text' ∨ ∃ pattern ∈ guard.config.deniedDomains.getD [],
        pattern ≠ literal ∧ Covers pattern (lower text') := by
    rw [hostBlockedWithLookup_denied_iff hreload hne, hnormal, domainsMatchHostOrUnscoped,
      unscopedIpLiteral_lower hparse', Option.any_none, Bool.or_false,
      DomainPatternSet.isMatch_iff guard.deny_compiled]
    constructor
    · rintro ⟨pattern, hmem, hcovers⟩
      by_cases hsame : pattern = literal
      · exact .inl ((covers_of_spells_iff hparse hs hparse').mp (hsame ▸ hcovers))
      · exact .inr ⟨pattern, hmem, hsame, hcovers⟩
    · rintro (hsame | ⟨pattern, hmem, -, hcovers⟩)
      · exact ⟨literal, hliteral, (covers_of_spells_iff hparse hs hparse').mpr hsame⟩
      · exact ⟨pattern, hmem, hcovers⟩
  refine ⟨hdenied, ?_⟩
  rintro octets rfl
  exact hdenied.mpr (.inl (congrArg lower (IpAddr.parse_v4_unique hparse hparse')))

/-- A configuration that denies one IPv6 address and allows everything else. -/
def denyingAddress : NetworkProxyConfig Empty where
  enabled := true
  allowUpstreamProxy := true
  dangerouslyAllowNonLoopbackProxy := false
  dangerouslyAllowAllUnixSockets := none
  mode := .full
  domains := some ⟨[⟨"2001:db8::1".toList, .deny⟩, ⟨"*".toList, .allow⟩]⟩
  unixSockets := none
  allowLocalBinding := none
  mitm := false
  mitmHooks := []

/-- The proxy of that configuration, without a reload. -/
def addressProxy : NetworkProxyState Empty where
  state :=
    { config := denyingAddress
      allowSet := ⟨[asBytes "*".toList]⟩
      denySet := ⟨[asBytes "2001:db8::1".toList]⟩
      allow_compiled := by decide +kernel
      deny_compiled := by decide +kernel }
  localBindingPolicy := .defaultFalse
  maybeReload := .ok none

/-- A bracketed host with a port in capitals is denied. -/
theorem denied_address_in_capitals :
    hostBlocked addressProxy "[2001:DB8::1]:443".toList 443 (fun _ _ => none) =
      .ok (.blocked .denied) := by
  have hreload : addressProxy.reloadIfNeeded = .ok addressProxy.state := rfl
  obtain ⟨ip, hparse⟩ : ∃ ip, IpAddr.parse "2001:db8::1".toList = some ip :=
    Option.isSome_iff_exists.mp (by decide +kernel)
  have hparse' : IpAddr.parse "2001:DB8::1".toList = some ip := by
    rw [← IpAddr.parse_lower]
    exact hparse
  have hliteral : "2001:db8::1".toList ∈ addressProxy.state.config.deniedDomains.getD [] := by
    decide +kernel
  have hs : Spells "2001:db8::1".toList (dotted "2001:db8::1".toList 0) := .plain 0
  have hs' : Spells "2001:DB8::1".toList ('[' :: (dotted "2001:DB8::1".toList 0 ++ "]:443".toList)) :=
    .bracketed 0 [':', '4', '4', '3'] (by simp [Char.isDigit])
  exact (denied_address_iff hreload hliteral hparse hs hparse' hs' 443 none .requireAllowlist
    fun _ _ => none).1.mpr (.inl (by decide +kernel))

/-- The denied address with its zero groups written out is allowed. -/
theorem denied_address_written_out_allowed :
    IpAddr.parse "2001:db8:0:0:0:0:0:1".toList = IpAddr.parse "2001:db8::1".toList ∧
      "2001:db8::1".toList ∈ addressProxy.state.config.deniedDomains.getD [] ∧
      hostBlocked addressProxy "2001:db8:0:0:0:0:0:1".toList 443 (fun _ _ => none) =
        .ok .allowed := by
  decide +kernel

end SpineCodex
