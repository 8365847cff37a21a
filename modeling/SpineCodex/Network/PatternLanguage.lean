import SpineCodex.Lib.Delimiters
import SpineCodex.Lib.Encoding
import SpineCodex.Network.DomainMatcher

/-!
# The language of domain patterns

The meaning of a pattern is said in terms of byte strings: an instance of a pattern has any bytes
for each `*` and one byte for each `?`, and a leading `*.` or `**.` speaks of the subdomains of a
domain.  `matchesLoop` is the matching loop with its positions, and returns nothing when its rounds
are used up; it needs no more rounds than the positions of a pattern and a host allow.
-/

namespace SpineCodex

/-! ## Instances -/

/-- The byte strings that a pattern stands for. -/
inductive IsInstance : List UInt8 → List UInt8 → Prop
  | nil : IsInstance [] []
  | star {pattern text : List UInt8} (run : List UInt8) (h : IsInstance pattern text) :
      IsInstance (42 :: pattern) (run ++ text)
  | any {pattern text : List UInt8} (b : UInt8) (h : IsInstance pattern text) :
      IsInstance (63 :: pattern) (b :: text)
  | byte {pattern text : List UInt8} {c : UInt8} (hstar : c ≠ 42) (hany : c ≠ 63)
      (h : IsInstance pattern text) : IsInstance (c :: pattern) (c :: text)

/-- The instances of a pattern for domains.  With a leading `*.` there is at least one byte before
the dot, and a leading `**.` allows the domain alone as well. -/
inductive Denotes (pattern : List Char) (text : List UInt8) : Prop
  | plain (hsub : ¬"*.".toList <+: pattern) (hall : ¬"**.".toList <+: pattern)
      (h : IsInstance (asBytes pattern) text)
  | subdomain (domain : List Char)
      (hpattern : pattern = "*.".toList ++ domain ∨ pattern = "**.".toList ++ domain)
      (front rest : List UInt8) (hfront : front ≠ []) (htext : text = front ++ 46 :: rest)
      (h : IsInstance (asBytes domain) rest)
  | bare (domain : List Char) (hpattern : pattern = "**.".toList ++ domain)
      (h : IsInstance (asBytes domain) text)

theorem byteWildcard_of_ne {c : UInt8} (h : c ≠ 42) :
    byteWildcard c = .one fun b ↦ c == 63 || eqIgnoreAsciiCase c b :=
  if_neg h

/-- A pattern reads a host exactly if the host is an instance of it, ASCII case apart. -/
theorem reads_iff_isInstance {pattern host : List UInt8} :
    Wildcard.Reads (pattern.map byteWildcard) host ↔
      ∃ text, IsInstance pattern text ∧ text.map lowerByte = host.map lowerByte := by
  constructor
  · intro h
    induction pattern generalizing host with
    | nil =>
      obtain rfl := Wildcard.reads_nil_iff.mp h
      exact ⟨[], .nil, rfl⟩
    | cons c pattern ih =>
      rw [List.map_cons] at h
      by_cases hstar : c = 42
      · subst hstar
        obtain ⟨run, rest, rfl, hrest⟩ := Wildcard.reads_star_iff.mp h
        obtain ⟨text, htext, hsame⟩ := ih hrest
        exact ⟨run ++ text, .star run htext, by rw [List.map_append, List.map_append, hsame]⟩
      · rw [byteWildcard_of_ne hstar] at h
        cases h with
        | @one _ b _ host htest hrest =>
          obtain ⟨text, htext, hsame⟩ := ih hrest
          by_cases hany : c = 63
          · subst hany
            exact ⟨b :: text, .any b htext, by rw [List.map_cons, List.map_cons, hsame]⟩
          · have hbyte : lowerByte c = lowerByte b := by
              rw [Bool.or_eq_true, beq_iff_eq] at htest
              exact beq_iff_eq.mp (htest.resolve_left hany)
            exact ⟨c :: text, .byte hstar hany htext, by rw [List.map_cons, List.map_cons, hsame, hbyte]⟩
  · rintro ⟨text, htext, hsame⟩
    induction htext generalizing host with
    | nil =>
      obtain rfl := List.map_eq_nil_iff.mp hsame.symm
      exact .nil
    | star run _ ih =>
      rw [List.map_append] at hsame
      obtain ⟨front, rest, rfl, -, hrest⟩ := List.map_eq_append_iff.mp hsame.symm
      exact .star front (ih hrest.symm)
    | any b _ ih =>
      rw [List.map_cons] at hsame
      obtain ⟨b', rest, rfl, -, hrest⟩ := List.map_eq_cons_iff.mp hsame.symm
      exact .one rfl (ih hrest.symm)
    | @byte _ _ c hstar _ _ ih =>
      rw [List.map_cons] at hsame
      obtain ⟨b, rest, rfl, hb, hrest⟩ := List.map_eq_cons_iff.mp hsame.symm
      rw [List.map_cons, byteWildcard_of_ne hstar]
      refine .one ?_ (ih hrest.symm)
      rw [Bool.or_eq_true]
      exact .inr (beq_iff_eq.mpr hb.symm)

/-- The wildcard text of a subdomain: one byte and any others, a dot and the domain. -/
theorem isInstance_subdomain_iff {domain text : List UInt8} :
    IsInstance (63 :: 42 :: 46 :: domain) text ↔
      ∃ front rest, front ≠ [] ∧ text = front ++ 46 :: rest ∧ IsInstance domain rest := by
  constructor
  · intro h
    cases h with
    | any b h =>
      cases h with
      | star run h =>
        cases h with
        | byte _ _ h => exact ⟨b :: run, _, List.cons_ne_nil _ _, rfl, h⟩
      | byte hstar _ _ => exact absurd rfl hstar
    | byte _ hany _ => exact absurd rfl hany
  · rintro ⟨front, rest, hfront, rfl, h⟩
    obtain ⟨b, run, rfl⟩ := List.exists_cons_of_ne_nil hfront
    exact .any b (.star run (.byte (by decide) (by decide) h))

/-! ## Accepted patterns -/

/-- No white space at all. -/
def Spaceless (text : List Char) : Prop := ∀ c ∈ text, whiteSpace c = false

theorem Spaceless.mono {text more : List Char} (h : Spaceless more) (hsub : text ⊆ more) :
    Spaceless text := fun c hc ↦ h c (hsub hc)

theorem trimList_subset (text : List Char) : trimList text ⊆ text := by
  intro c hc
  rw [trimList, List.mem_reverse] at hc
  have hreversed := (List.dropWhile_sublist whiteSpace).subset hc
  exact (List.dropWhile_sublist whiteSpace).subset (List.mem_reverse.mp hreversed)

theorem spaceless_lower {text : List Char} (h : Spaceless text) : Spaceless (lower text) := by
  intro c hc
  obtain ⟨d, hd, rfl⟩ := List.mem_map.mp hc
  have hspace := h d hd
  have hnat := toNat_toLower d
  unfold whiteSpace at hspace ⊢
  split_ifs at hnat with hupper
  · grind
  · rw [hnat]
    exact hspace

theorem spaceless_of_splitOnce {separator text front rest : List Char} (h : Spaceless text)
    (hsplit : splitOnce separator text = some (front, rest)) :
    Spaceless front ∧ Spaceless rest := by
  have htext := eq_append_of_splitOnce hsplit
  constructor
  · exact h.mono (by rw [htext]; exact List.subset_append_left _ _)
  · refine h.mono ?_
    rw [htext, ← List.append_assoc]
    exact List.subset_append_right _ _

theorem spaceless_of_normalizeIpLiteral {host literal : List Char} (h : Spaceless host)
    (hliteral : normalizeIpLiteral host = some literal) : Spaceless literal := by
  unfold normalizeIpLiteral at hliteral
  split_ifs at hliteral with haddress
  · exact Option.some.inj hliteral ▸ h
  · obtain ⟨delimiter, -, hfound⟩ := List.exists_of_findSome?_eq_some hliteral
    obtain ⟨⟨ip, scope⟩, hsplit, hkept⟩ := Option.bind_eq_some_iff.mp hfound
    obtain ⟨hip, hscope⟩ := spaceless_of_splitOnce h hsplit
    dsimp only at hkept
    split_ifs at hkept with hparsed
    obtain rfl := Option.some.inj hkept
    intro c hc
    rcases List.mem_append.mp hc with hc | hc
    · exact hip c hc
    · rcases List.mem_cons.mp hc with rfl | hc
      · rfl
      · exact hscope c hc

theorem spaceless_normalizeDnsHostOrIpLiteral {host : List Char} (h : Spaceless host) :
    Spaceless (normalizeDnsHostOrIpLiteral host) := by
  have hstripped : Spaceless ((lower host).rdropWhile (· == '.')) :=
    (spaceless_lower h).mono (List.rdropWhile_prefix _ _).subset
  unfold normalizeDnsHostOrIpLiteral
  dsimp only
  cases hliteral : normalizeIpLiteral ((lower host).rdropWhile (· == '.')) with
  | none => exact hstripped
  | some literal => exact spaceless_of_normalizeIpLiteral hstripped hliteral

theorem spaceless_normalizeHost {host : List Char} (h : Spaceless host) :
    Spaceless (normalizeHost host) := by
  have htrimmed : Spaceless (trimList host) := h.mono (trimList_subset host)
  unfold normalizeHost
  dsimp only
  split
  · rename_i literal rest hsplit
    split_ifs at hsplit with hbracket
    have htail : Spaceless (trimList host).tail := htrimmed.mono (List.tail_subset _)
    exact spaceless_normalizeDnsHostOrIpLiteral (spaceless_of_splitOnce htail hsplit).1
  · split_ifs with hport
    · exact spaceless_normalizeDnsHostOrIpLiteral
        (htrimmed.mono (List.takeWhile_prefix _).subset)
    · exact spaceless_normalizeDnsHostOrIpLiteral htrimmed

/-- The three ways a pattern can start. -/
theorem splitWildcard_cases (pattern : List Char) :
    (∃ domain, pattern = "**.".toList ++ domain ∧ splitWildcard pattern = ("**.".toList, domain)) ∨
      (∃ domain, pattern = "*.".toList ++ domain ∧ splitWildcard pattern = ("*.".toList, domain)) ∨
        ¬"*.".toList <+: pattern ∧ ¬"**.".toList <+: pattern ∧
          splitWildcard pattern = ([], pattern) := by
  unfold splitWildcard
  cases hall : "**.".toList.isPrefixOf? pattern with
  | some domain =>
    exact .inl ⟨domain, (List.isPrefixOf?_eq_some_iff_append_eq.mp hall).symm, rfl⟩
  | none =>
    cases hsub : "*.".toList.isPrefixOf? pattern with
    | some domain =>
      exact .inr (.inl ⟨domain, (List.isPrefixOf?_eq_some_iff_append_eq.mp hsub).symm, rfl⟩)
    | none =>
      refine .inr (.inr ⟨?_, ?_, rfl⟩)
      · rintro ⟨domain, hdomain⟩
        rw [List.isPrefixOf?_eq_some_iff_append_eq.mpr hdomain] at hsub
        cases hsub
      · rintro ⟨domain, hdomain⟩
        rw [List.isPrefixOf?_eq_some_iff_append_eq.mpr hdomain] at hall
        cases hall

theorem spaceless_normalizePattern {pattern : List Char} (h : Spaceless (trimList pattern)) :
    Spaceless (normalizePattern pattern) := by
  unfold normalizePattern
  dsimp only
  split_ifs with hglobal
  · intro c hc
    rw [List.mem_singleton.mp hc]
    rfl
  · rcases splitWildcard_cases (trimList pattern) with
      ⟨domain, hpattern, hsplit⟩ | ⟨domain, hpattern, hsplit⟩ | ⟨-, -, hsplit⟩ <;>
      rw [hsplit] <;> intro c hc <;> rcases List.mem_append.mp hc with hc | hc
    · exact h c (by rw [hpattern]; exact List.mem_append_left _ hc)
    · refine spaceless_normalizeHost (h.mono ?_) c hc
      rw [hpattern]
      exact List.subset_append_right _ _
    · exact h c (by rw [hpattern]; exact List.mem_append_left _ hc)
    · refine spaceless_normalizeHost (h.mono ?_) c hc
      rw [hpattern]
      exact List.subset_append_right _ _
    · exact absurd hc List.not_mem_nil
    · exact spaceless_normalizeHost h c hc

theorem asBytes_subdomain (domain : List Char) :
    asBytes ("?*.".toList ++ domain) = 63 :: 42 :: 46 :: asBytes domain := by
  rw [asBytes_append]
  rfl

/-- The two leading wildcards are not mistaken for each other. -/
theorem wildcards_ne (domain other : List Char) :
    "**.".toList ++ domain ≠ "*.".toList ++ other := by
  simp

/-- The candidates of a pattern with a leading wildcard.  A domain that is empty has only the empty
candidate. -/
theorem expandDomainPattern_of_wildcard {pattern wildcard domain : List Char}
    (h : Spaceless pattern) (hpattern : pattern = wildcard ++ domain)
    (hsplit : splitWildcard pattern = (wildcard, domain)) (hwildcard : wildcard ≠ [])
    (hcandidates : ∀ candidate ∈ expandDomainPattern pattern, candidate ≠ []) :
    expandDomainPattern pattern =
      if wildcard = "**.".toList then [domain, "?*.".toList ++ domain]
      else ["?*.".toList ++ domain] := by
  have hdomain : Spaceless domain := h.mono (by rw [hpattern]; exact List.subset_append_right _ _)
  have hexpand : expandDomainPattern pattern =
      if domain = [] then [[]]
      else if wildcard = "**.".toList then [domain, "?*.".toList ++ domain]
      else ["?*.".toList ++ domain] := by
    unfold expandDomainPattern
    dsimp only
    rw [trimList_eq_self h, hsplit]
    dsimp only
    rw [if_neg hwildcard, trimList_eq_self hdomain]
  rw [hexpand] at hcandidates ⊢
  refine if_neg fun hempty ↦ ?_
  rw [if_pos hempty] at hcandidates
  exact hcandidates [] (List.mem_singleton_self _) rfl

/-- What a pattern without white space stands for, if it names a domain. -/
theorem denotes_iff {pattern : List Char} (h : Spaceless pattern)
    (hcandidates : ∀ candidate ∈ expandDomainPattern pattern, candidate ≠ []) {text : List UInt8} :
    Denotes pattern text ↔
      ∃ candidate ∈ expandDomainPattern pattern, IsInstance (asBytes candidate) text := by
  rcases splitWildcard_cases pattern with
    ⟨domain, hpattern, hsplit⟩ | ⟨domain, hpattern, hsplit⟩ | ⟨hsub, hall, hsplit⟩
  · rw [expandDomainPattern_of_wildcard h hpattern hsplit (by simp) hcandidates, if_pos rfl]
    simp only [List.mem_cons, List.not_mem_nil, or_false, exists_eq_or_imp, exists_eq_left,
      asBytes_subdomain, isInstance_subdomain_iff]
    constructor
    · rintro (⟨-, hall, -⟩ | ⟨domain', hdomain | hdomain, front, rest, hfront, htext, hrest⟩ |
        ⟨domain', hdomain, htext⟩)
      · exact absurd ⟨domain, hpattern.symm⟩ hall
      · exact absurd (hpattern.symm.trans hdomain) (wildcards_ne _ _)
      · obtain rfl := List.append_cancel_left (hpattern.symm.trans hdomain)
        exact .inr ⟨front, rest, hfront, htext, hrest⟩
      · obtain rfl := List.append_cancel_left (hpattern.symm.trans hdomain)
        exact .inl htext
    · rintro (htext | ⟨front, rest, hfront, htext, hrest⟩)
      · exact .bare domain hpattern htext
      · exact .subdomain domain (.inr hpattern) front rest hfront htext hrest
  · rw [expandDomainPattern_of_wildcard h hpattern hsplit (by simp) hcandidates,
      if_neg (by decide)]
    simp only [List.mem_singleton, exists_eq_left, asBytes_subdomain, isInstance_subdomain_iff]
    constructor
    · rintro (⟨hsub, -, -⟩ | ⟨domain', hdomain | hdomain, front, rest, hfront, htext, hrest⟩ |
        ⟨domain', hdomain, htext⟩)
      · exact absurd ⟨domain, hpattern.symm⟩ hsub
      · obtain rfl := List.append_cancel_left (hpattern.symm.trans hdomain)
        exact ⟨front, rest, hfront, htext, hrest⟩
      · exact absurd (hdomain.symm.trans hpattern) (wildcards_ne _ _)
      · exact absurd (hdomain.symm.trans hpattern) (wildcards_ne _ _)
    · rintro ⟨front, rest, hfront, htext, hrest⟩
      exact .subdomain domain (.inl hpattern) front rest hfront htext hrest
  · have hexpand : expandDomainPattern pattern = [pattern] := by
      unfold expandDomainPattern
      dsimp only
      rw [trimList_eq_self h, hsplit]
      rfl
    simp only [hexpand, List.mem_singleton, exists_eq_left]
    constructor
    · rintro (⟨-, -, htext⟩ | ⟨domain, rfl | rfl, -, -, -, -, -⟩ | ⟨domain, rfl, -⟩)
      · exact htext
      · exact absurd (List.prefix_append _ _) hsub
      · exact absurd (List.prefix_append _ _) hall
      · exact absurd (List.prefix_append _ _) hall
    · exact fun htext ↦ .plain hsub hall htext

/-- Candidates that are added are not empty. -/
theorem addCandidates_ne_nil {seen candidates result : List (List Char)}
    (h : addCandidates seen candidates = .ok result) (hseen : ∀ text ∈ seen, text ≠ []) :
    ∀ text ∈ result, text ≠ [] := by
  induction candidates generalizing seen with
  | nil =>
    cases h
    exact hseen
  | cons candidate candidates ih =>
    rw [addCandidates] at h
    split_ifs at h with hmem hempty
    · exact ih h hseen
    · refine ih h fun text htext ↦ ?_
      rcases List.mem_append.mp htext with htext | htext
      · exact hseen text htext
      · rw [List.mem_singleton.mp htext]
        exact hempty

theorem compilePatterns_ne_nil {globalWildcard : GlobalWildcard}
    {seen patterns result : List (List Char)}
    (h : compilePatterns globalWildcard seen patterns = .ok result)
    (hseen : ∀ text ∈ seen, text ≠ []) : ∀ text ∈ result, text ≠ [] := by
  induction patterns generalizing seen with
  | nil =>
    cases h
    exact hseen
  | cons pattern patterns ih =>
    simp only [compilePatterns, except_bind_eq_ok] at h
    obtain ⟨-, -, more, hadd, hrest⟩ := h
    exact ih hrest (addCandidates_ne_nil hadd hseen)

/-- Patterns that are accepted have no white space inside. -/
theorem spaceless_of_checkDomainPattern {globalWildcard : GlobalWildcard} {pattern : List Char}
    (h : checkDomainPattern globalWildcard pattern = .ok ()) : Spaceless (trimList pattern) := by
  unfold checkDomainPattern at h
  dsimp only at h
  split_ifs at h with hglobal hraw
  rw [not_or, Bool.not_eq_true, Bool.not_eq_true] at hraw
  exact fun c hc ↦ Bool.eq_false_iff.mpr (List.any_eq_false.mp hraw.2 c hc)

/-- A compiled list matches the hosts that are an instance of one of its normalised patterns. -/
theorem covers_iff {patterns : List (List Char)} {globalWildcard : GlobalWildcard}
    {set : DomainPatternSet} (h : DomainPatternSet.new patterns globalWildcard = .ok set)
    {pattern : List Char} (hpattern : pattern ∈ patterns) (host : List Char) :
    Covers pattern host ↔
      ∃ text, Denotes (normalizePattern pattern) text ∧
        sameIgnoreAsciiCase text (asBytes host) = true := by
  rw [DomainPatternSet.new, except_bind_eq_ok] at h
  obtain ⟨candidates, hcompile, -⟩ := h
  obtain ⟨hchecks, hmem⟩ := compilePatterns_eq_ok hcompile
  have hspaceless :=
    spaceless_normalizePattern (spaceless_of_checkDomainPattern (hchecks pattern hpattern))
  have hnonempty : ∀ candidate ∈ expandDomainPattern (normalizePattern pattern),
      candidate ≠ [] := fun candidate hcandidate ↦
    compilePatterns_ne_nil hcompile (fun _ h ↦ absurd h List.not_mem_nil) candidate
      ((hmem candidate).mpr (.inr ⟨pattern, hpattern, hcandidate⟩))
  simp only [Covers, globOf, reads_iff_isInstance, denotes_iff hspaceless hnonempty,
    sameIgnoreAsciiCase_iff]
  constructor
  · rintro ⟨candidate, hcandidate, text, htext, hsame⟩
    exact ⟨text, ⟨candidate, hcandidate, htext⟩, hsame⟩
  · rintro ⟨text, ⟨candidate, hcandidate, htext⟩, hsame⟩
    exact ⟨candidate, hcandidate, text, htext, hsame⟩

/-! ## The loop -/

/-- The positions of the matching loop, and for the latest star the position behind it and the
host position from which it was last resumed. -/
structure MatchState where
  p : ℕ
  h : ℕ
  star : Option (ℕ × ℕ)

/-- One round of the loop at a byte of the host; without a next state the loop returns false. -/
def matchesRound (pattern : List UInt8) (state : MatchState) (byte : UInt8) : Option MatchState :=
  let resumed := state.star.map fun star ↦ ⟨star.1, star.2 + 1, some (star.1, star.2 + 1)⟩
  match pattern[state.p]? with
  | some c =>
    if c = 42 then some ⟨state.p + 1, state.h, some (state.p + 1, state.h)⟩
    else if c == 63 || eqIgnoreAsciiCase c byte then some ⟨state.p + 1, state.h + 1, state.star⟩
    else resumed
  | none => resumed

/-- The answer of the loop, unless its rounds are used up before. -/
def matchesLoop (pattern host : List UInt8) : ℕ → MatchState → Option Bool
  | 0, state =>
    match host[state.h]? with
    | some _ => none
    | none => some ((pattern.drop state.p).all (· == 42))
  | rounds + 1, state =>
    match host[state.h]? with
    | some byte =>
      match matchesRound pattern state byte with
      | some next => matchesLoop pattern host rounds next
      | none => some false
    | none => some ((pattern.drop state.p).all (· == 42))

/-- The rounds that are left at most: the rest of the pattern, and for each retry of a star one
round and another pass over the pattern. -/
def MatchState.left (pattern host : List UInt8) (state : MatchState) : ℕ :=
  pattern.length - state.p +
    (pattern.length + 1) * (host.length - state.star.elim 0 Prod.snd)

/-- A star was passed before the current positions. -/
def MatchState.Ordered (state : MatchState) : Prop :=
  ∀ resume consumed, state.star = some (resume, consumed) → consumed ≤ state.h

variable {pattern host : List UInt8} {state next : MatchState}

/-- Every round lowers the number of rounds that are left. -/
theorem matchesRound_left {byte : UInt8} (hordered : state.Ordered)
    (hbyte : host[state.h]? = some byte)
    (h : matchesRound pattern state byte = some next) :
    next.Ordered ∧ next.left pattern host < state.left pattern host := by
  obtain ⟨hh, -⟩ := List.getElem?_eq_some_iff.mp hbyte
  have hresumed : (state.star.map fun star ↦
        (⟨star.1, star.2 + 1, some (star.1, star.2 + 1)⟩ : MatchState)) = some next →
      next.Ordered ∧ next.left pattern host < state.left pattern host := by
    intro hnext
    obtain ⟨⟨resume, consumed⟩, hstar, rfl⟩ := Option.map_eq_some_iff.mp hnext
    have hconsumed := hordered resume consumed hstar
    have hless : host.length - consumed = host.length - (consumed + 1) + 1 := by omega
    constructor
    · intro resume' consumed' heq
      cases heq
      exact le_rfl
    · simp only [MatchState.left, hstar, Option.elim_some, hless, Nat.mul_succ]
      omega
  unfold matchesRound at h
  dsimp only at h
  cases hc : pattern[state.p]? with
  | none =>
    rw [hc] at h
    exact hresumed h
  | some c =>
    obtain ⟨hp, -⟩ := List.getElem?_eq_some_iff.mp hc
    rw [hc] at h
    dsimp only at h
    split_ifs at h with hstar hmatch
    · obtain rfl := Option.some.inj h
      constructor
      · intro resume consumed heq
        cases heq
        exact le_rfl
      · have hconsumed : state.star.elim 0 Prod.snd ≤ state.h := by
          cases hstate : state.star with
          | none => exact Nat.zero_le _
          | some star => exact hordered star.1 star.2 hstate
        have hmul : (pattern.length + 1) * (host.length - state.h) ≤
            (pattern.length + 1) * (host.length - state.star.elim 0 Prod.snd) :=
          Nat.mul_le_mul_left _ (by omega)
        simp only [MatchState.left, Option.elim_some]
        omega
    · obtain rfl := Option.some.inj h
      constructor
      · intro resume consumed heq
        exact (hordered resume consumed heq).trans (Nat.le_succ _)
      · simp only [MatchState.left]
        omega
    · exact hresumed h

theorem isStar_byteWildcard (c : UInt8) : (byteWildcard c).isStar = (c == 42) := by
  unfold byteWildcard
  by_cases hstar : c = 42 <;> simp [hstar, Wildcard.isStar]

/-- The rest of the pattern from a position, as wildcards. -/
def restOf (pattern : List UInt8) (p : ℕ) : List (Wildcard UInt8) :=
  (pattern.drop p).map byteWildcard

theorem restOf_of_none {p : ℕ} (h : pattern[p]? = none) : restOf pattern p = [] := by
  rw [restOf, List.drop_eq_nil_of_le (List.getElem?_eq_none_iff.mp h), List.map_nil]

theorem restOf_of_some {p : ℕ} {c : UInt8} (h : pattern[p]? = some c) :
    restOf pattern p = byteWildcard c :: restOf pattern (p + 1) := by
  obtain ⟨hp, hc⟩ := List.getElem?_eq_some_iff.mp h
  rw [restOf, List.drop_eq_getElem_cons hp, hc, List.map_cons, restOf]

theorem drop_of_some {h : ℕ} {byte : UInt8} (hbyte : host[h]? = some byte) :
    host.drop h = byte :: host.drop (h + 1) := by
  obtain ⟨hh, hb⟩ := List.getElem?_eq_some_iff.mp hbyte
  rw [List.drop_eq_getElem_cons hh, hb]

/-- What the scan over lists remembers of the latest star. -/
def MatchState.last (pattern host : List UInt8) (state : MatchState) :
    Option (List (Wildcard UInt8) × List UInt8) :=
  state.star.map fun star ↦ (restOf pattern star.1, host.drop star.2)

/-- The scan over lists takes the same rounds: one of them at a byte of the host. -/
theorem scan_round {byte : UInt8} (hordered : state.Ordered) (hbyte : host[state.h]? = some byte)
    (rounds : ℕ) :
    Wildcard.scan (rounds + 1) (restOf pattern state.p) (host.drop state.h)
        (state.last pattern host) =
      (matchesRound pattern state byte).elim false fun next ↦
        Wildcard.scan rounds (restOf pattern next.p) (host.drop next.h) (next.last pattern host) := by
  obtain ⟨hh, -⟩ := List.getElem?_eq_some_iff.mp hbyte
  have hresumed : Wildcard.resumed (fun resume consumed ↦
        Wildcard.scan rounds resume consumed (some (resume, consumed))) (state.last pattern host) =
      (state.star.map fun star ↦
          (⟨star.1, star.2 + 1, some (star.1, star.2 + 1)⟩ : MatchState)).elim false fun next ↦
        Wildcard.scan rounds (restOf pattern next.p) (host.drop next.h)
          (next.last pattern host) := by
    unfold MatchState.last
    cases hstar : state.star with
    | none => rfl
    | some star =>
      have hconsumed := hordered star.1 star.2 hstar
      have hlt : star.2 < host.length := by omega
      rw [Option.map_some, List.drop_eq_getElem_cons hlt]
      rfl
  unfold matchesRound
  dsimp only
  rw [drop_of_some hbyte]
  cases hc : pattern[state.p]? with
  | none =>
    rw [restOf_of_none hc]
    exact hresumed
  | some c =>
    rw [restOf_of_some hc]
    dsimp only
    by_cases hstar : c = 42
    · subst hstar
      rw [if_pos rfl]
      change _ = Wildcard.scan rounds (restOf pattern (state.p + 1)) (host.drop state.h)
        (some (restOf pattern (state.p + 1), host.drop state.h))
      rw [drop_of_some hbyte]
      rfl
    · rw [if_neg hstar, byteWildcard_of_ne hstar]
      by_cases hmatch : (c == 63 || eqIgnoreAsciiCase c byte) = true
      · rw [if_pos hmatch]
        simp only [Wildcard.scan, hmatch, if_true]
        rfl
      · rw [if_neg hmatch]
        simp only [Wildcard.scan, hmatch]
        exact hresumed

/-- With enough rounds the loop answers as the scan over lists does. -/
theorem matchesLoop_eq_scan {rounds : ℕ} (hordered : state.Ordered)
    (hleft : state.left pattern host < rounds) :
    matchesLoop pattern host rounds state =
      some (Wildcard.scan (rounds + 1) (restOf pattern state.p) (host.drop state.h)
        (state.last pattern host)) := by
  induction rounds generalizing state with
  | zero => omega
  | succ rounds ih =>
    rw [matchesLoop]
    cases hbyte : host[state.h]? with
    | none =>
      rw [List.drop_eq_nil_of_le (List.getElem?_eq_none_iff.mp hbyte)]
      simp only [Wildcard.scan, restOf, List.all_map]
      congr 2
      funext c
      exact (isStar_byteWildcard c).symm
    | some byte =>
      rw [scan_round hordered hbyte]
      dsimp only
      cases hround : matchesRound pattern state byte with
      | none => rfl
      | some next =>
        obtain ⟨hnext, hless⟩ := matchesRound_left hordered hbyte hround
        exact ih hnext (by omega)

/-- More rounds give the same answer. -/
theorem matchesLoop_mono {rounds more : ℕ} {answer : Bool} (hle : rounds ≤ more)
    (h : matchesLoop pattern host rounds state = some answer) :
    matchesLoop pattern host more state = some answer := by
  induction more generalizing rounds state with
  | zero => rwa [Nat.le_zero.mp hle] at h
  | succ more ih =>
    cases rounds with
    | zero =>
      simp only [matchesLoop] at h ⊢
      cases hbyte : host[state.h]? with
      | none => rwa [hbyte] at h
      | some byte => simp [hbyte] at h
    | succ rounds =>
      simp only [matchesLoop] at h ⊢
      cases hbyte : host[state.h]? with
      | none => rwa [hbyte] at h
      | some byte =>
        rw [hbyte] at h
        dsimp only at h ⊢
        cases hround : matchesRound pattern state byte with
        | none => rwa [hround] at h
        | some next =>
          rw [hround] at h
          exact ih (Nat.le_of_succ_le_succ hle) h

/-- The loop ends within its rounds, with the answer of the scan. -/
theorem matchesLoop_eq (pattern host : List UInt8) :
    matchesLoop pattern host ((pattern.length + 1) * (host.length + 1)) ⟨0, 0, none⟩ =
      some (DomainPatternSet.matches pattern host) := by
  have hordered : (⟨0, 0, none⟩ : MatchState).Ordered := fun _ _ h ↦ by cases h
  have hleft : (⟨0, 0, none⟩ : MatchState).left pattern host <
      (pattern.length + 1) * (host.length + 1) := by
    simp only [MatchState.left, Option.elim_none, Nat.sub_zero, Nat.mul_succ]
    omega
  have hmore : (pattern.length + 1) * (host.length + 1) ≤
      pattern.length + (pattern.length + 1) * (host.length + 1) := Nat.le_add_left _ _
  have hanswer := matchesLoop_mono hmore (matchesLoop_eq_scan hordered hleft)
  rw [matchesLoop_eq_scan hordered (hleft.trans_le hmore)] at hanswer
  rw [matchesLoop_eq_scan hordered hleft, ← hanswer, DomainPatternSet.matches,
    Wildcard.matchesText, Wildcard.rounds, List.length_map]
  rfl

/-- A compiled list matches a host exactly if the host is, ASCII case apart, an instance of one of
its normalised patterns, and every matching loop ends within the positions of its pattern and the
host. -/
theorem DomainPatternSet.isMatch_iff_denotes {patterns : List (List Char)}
    {globalWildcard : GlobalWildcard} {set : DomainPatternSet}
    (h : DomainPatternSet.new patterns globalWildcard = .ok set) (host : List Char) :
    (set.isMatch host = true ↔
      ∃ pattern ∈ patterns, ∃ text, Denotes (normalizePattern pattern) text ∧
        sameIgnoreAsciiCase text (asBytes host) = true) ∧
      ∀ pattern ∈ set.patterns,
        matchesLoop pattern (asBytes host) ((pattern.length + 1) * ((asBytes host).length + 1))
          ⟨0, 0, none⟩ = some (DomainPatternSet.matches pattern (asBytes host)) := by
  constructor
  · rw [DomainPatternSet.isMatch_iff h]
    constructor
    · rintro ⟨pattern, hpattern, hcovers⟩
      exact ⟨pattern, hpattern, (covers_iff h hpattern host).mp hcovers⟩
    · rintro ⟨pattern, hpattern, hdenotes⟩
      exact ⟨pattern, hpattern, (covers_iff h hpattern host).mpr hdenotes⟩
  · intro pattern _
    exact matchesLoop_eq pattern (asBytes host)

/-- The pattern `**.a?` and the host `x.AB`. -/
theorem subdomain_matched :
    ∃ set, DomainPatternSet.new ["**.a?".toList] .reject = .ok set ∧
      set.isMatch "x.AB".toList = true ∧
      ∃ pattern ∈ ["**.a?".toList], ∃ text, Denotes (normalizePattern pattern) text ∧
        sameIgnoreAsciiCase text (asBytes "x.AB".toList) = true := by
  have hset : DomainPatternSet.new ["**.a?".toList] .reject =
      .ok ⟨[asBytes "a?".toList, asBytes "?*.a?".toList]⟩ := by
    decide +kernel
  have hmatch : DomainPatternSet.isMatch ⟨[asBytes "a?".toList, asBytes "?*.a?".toList]⟩
      "x.AB".toList = true := by
    decide +kernel
  exact ⟨_, hset, hmatch, (DomainPatternSet.isMatch_iff_denotes hset _).1.mp hmatch⟩

end SpineCodex
