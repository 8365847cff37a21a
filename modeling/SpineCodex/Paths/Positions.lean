import SpineCodex.Lib.Encoding
import SpineCodex.Paths.Containment

/-!
# Positions of paths

The position of a URI is its host and a key for each of its segments: the decoded bytes, on Windows
with their ASCII capitals lowered. Equal URIs have the same position, and containment is the order of
prefixes of positions. On Windows this needs segments that decode to text, since others are compared as
they are written where containment is asked and as bytes where equality is.
-/

namespace SpineCodex

/-! ## Decoding -/

theorem hexDigit_toLower (c : Char) : hexDigit c.toLower = hexDigit c := by
  simp only [hexDigit, toNat_toLower]
  split_ifs <;> first | omega | rfl

theorem decodeBinary_escape {high low : Char} {h l : ℕ} (hhigh : hexDigit high = some h)
    (hlow : hexDigit low = some l) (rest : List Char) :
    decodeBinary ('%' :: high :: low :: rest) = UInt8.ofNat (16 * h + l) :: decodeBinary rest := by
  rw [decodeBinary, hhigh, hlow]

theorem decodeBinary_incomplete {high low : Char} (h : hexDigit high = none ∨ hexDigit low = none)
    (rest : List Char) :
    decodeBinary ('%' :: high :: low :: rest) = 37 :: decodeBinary (high :: low :: rest) := by
  rw [decodeBinary]
  rcases h with h | h
  · rw [h]
  · rw [h]
    cases hexDigit high <;> rfl

/-- Escapes are decoded alike in either case. -/
theorem decodeBinary_lower (text : List Char) :
    (decodeBinary (lower text)).map lowerByte = (decodeBinary text).map lowerByte := by
  induction text using decodeBinary.induct with
  | case1 high low rest h l hlow hhigh ih =>
    have hhigh' : hexDigit high.toLower = some h := by rw [hexDigit_toLower, hhigh]
    have hlow' : hexDigit low.toLower = some l := by rw [hexDigit_toLower, hlow]
    change (decodeBinary ('%' :: high.toLower :: low.toLower :: lower rest)).map lowerByte = _
    rw [decodeBinary_escape hhigh' hlow', decodeBinary_escape hhigh hlow, List.map_cons, ih,
      List.map_cons]
  | case2 high low rest hnot ih =>
    have hnone : hexDigit high = none ∨ hexDigit low = none := by
      cases hhigh : hexDigit high with
      | none => exact .inl rfl
      | some h =>
        cases hlow : hexDigit low with
        | none => exact .inr rfl
        | some l => exact absurd hlow (hnot h l hhigh)
    have hnone' : hexDigit high.toLower = none ∨ hexDigit low.toLower = none := by
      rwa [hexDigit_toLower, hexDigit_toLower]
    change (decodeBinary ('%' :: high.toLower :: low.toLower :: lower rest)).map lowerByte = _
    rw [decodeBinary_incomplete hnone', decodeBinary_incomplete hnone, List.map_cons, List.map_cons,
      ← ih]
    rfl
  | case3 c rest hnot ih =>
    have hnot' : ∀ (high low : Char) (tail : List Char), c.toLower = '%' → lower rest = high :: low :: tail →
        False := by
      intro high low tail hc hrest
      have hpercent : c = '%' := (toLower_eq_iff (by decide)).mp hc
      cases rest with
      | nil => cases hrest
      | cons a rest =>
        cases rest with
        | nil => cases hrest
        | cons b rest => exact hnot a b rest hpercent rfl
    calc
      (decodeBinary (lower (c :: rest))).map lowerByte
          = (asBytes (lower [c]) ++ decodeBinary (lower rest)).map lowerByte := by
        change (decodeBinary (c.toLower :: lower rest)).map lowerByte = _
        rw [decodeBinary.eq_2 _ _ hnot']
        rfl
      _ = (asBytes [c]).map lowerByte ++ (decodeBinary rest).map lowerByte := by
        rw [List.map_append, ih, asBytes_lower, List.map_map]
        congr 1
        exact List.map_congr_left fun byte _ ↦ lowerByte_lowerByte byte
      _ = (decodeBinary (c :: rest)).map lowerByte := by
        rw [← List.map_append, decodeBinary.eq_2 _ _ hnot]
  | case4 => rfl
/-! ## Separated parts -/

/-- Parts without the separator in front of each of them are told apart. -/
theorem eq_of_flatMap_cons {α : Type*} [DecidableEq α] {separator : α} {parts others : List (List α)}
    (hparts : ∀ part ∈ parts, separator ∉ part) (hothers : ∀ part ∈ others, separator ∉ part)
    (h : parts.flatMap (separator :: ·) = others.flatMap (separator :: ·)) : parts = others := by
  have hfirst : ∀ (part : List α) (rest : List (List α)), separator ∉ part →
      (part ++ rest.flatMap (separator :: ·)).takeWhile (· ≠ separator) = part := by
    intro part rest hpart
    have hall : ∀ a ∈ part, decide (a ≠ separator) = true := by
      intro a ha
      exact decide_eq_true fun heq ↦ hpart (heq ▸ ha)
    rw [List.takeWhile_append_of_pos hall]
    cases rest <;> simp
  induction parts generalizing others with
  | nil =>
    cases others with
    | nil => rfl
    | cons part others => simp at h
  | cons part parts ih =>
    cases others with
    | nil => simp at h
    | cons other others =>
      rw [List.forall_mem_cons] at hparts hothers
      rw [List.flatMap_cons, List.flatMap_cons, List.cons_append, List.cons_append, List.cons.injEq] at h
      have hpart : part = other := by
        rw [← hfirst part parts hparts.1, h.2, hfirst other others hothers.1]
      rw [hpart] at h ⊢
      rw [ih hparts.2 hothers.2 (List.append_cancel_left h.2)]

/-! ## Positions -/

/-- The bytes by which segments are compared. -/
def segmentKey : PathConvention → List Char → List UInt8
  | .posix, segment => decodeBinary segment
  | .windows, segment => (decodeBinary segment).map lowerByte

theorem decodeBinary_eq_nil {segment : List Char} : decodeBinary segment = [] ↔ segment = [] := by
  fun_cases decodeBinary segment with
  | case1 high low rest h l hlow hhigh => simp
  | case2 high low rest hnot => simp
  | case3 c rest hnot => simp [asBytes_ne_nil (List.cons_ne_nil c [])]
  | case4 => simp

/-- Only the empty segment has an empty key. -/
theorem segmentKey_isEmpty (convention : PathConvention) (segment : List Char) :
    (segmentKey convention segment).isEmpty = segment.isEmpty := by
  rw [Bool.eq_iff_iff, List.isEmpty_iff, List.isEmpty_iff]
  cases convention with
  | posix => exact decodeBinary_eq_nil
  | windows => rw [segmentKey, List.map_eq_nil_iff, decodeBinary_eq_nil]

namespace PathUri

variable {path base : PathUri} {host host' : Option (List Char)} {keys keys' : List (List UInt8)}

/-- The host and the keys of the segments of a URI that is safe for containment. -/
def position : PathUri → Option (Option (List Char) × List (List UInt8))
  | fallback _ => none
  | file host segments =>
    let convention := (file host segments).inferPathConvention.getD .posix
    (containmentPathSegments convention segments).map fun kept => (host, kept.map (segmentKey convention))

/-- Segments that are compared decoded: on Windows those that decode to text. -/
def ComparesDecoded : PathUri → Prop
  | fallback _ => True
  | file host segments => (file host segments).inferPathConvention = some .windows →
      ∀ segment ∈ segments, decodeUriPath segment = decodeBinary segment

instance : (path : PathUri) → Decidable path.ComparesDecoded
  | fallback _ => inferInstanceAs (Decidable True)
  | file _ segments => inferInstanceAs (Decidable (_ = _ → ∀ segment ∈ segments, _ = _))

theorem inferPathConvention_file (host : Option (List Char)) (segments : List (List Char)) :
    ∃ convention, (file host segments).inferPathConvention = some convention := by
  simp only [inferPathConvention]
  split_ifs <;> exact ⟨_, rfl⟩

/-- What a URI with a position looks like. -/
theorem position_eq_some (h : path.position = some (host, keys)) :
    ∃ segments kept convention, path = file host segments ∧
      path.inferPathConvention = some convention ∧
      containmentPathSegments convention segments = some kept ∧ kept.map (segmentKey convention) = keys := by
  cases path with
  | fallback bytes => cases h
  | file host segments =>
    obtain ⟨convention, hconvention⟩ := inferPathConvention_file host segments
    rw [position, hconvention, Option.map_eq_some_iff] at h
    obtain ⟨kept, hkept, heq⟩ := h
    cases heq
    exact ⟨segments, kept, convention, rfl, hconvention, hkept, rfl⟩

theorem lexicalDepth_eq_map_position (path : PathUri) :
    path.lexicalDepth = path.position.map (·.2.length) := by
  cases path with
  | fallback bytes => rfl
  | file host segments =>
    obtain ⟨convention, hconvention⟩ := inferPathConvention_file host segments
    simp only [lexicalDepth, position, hconvention, Option.getD_some, Option.bind_eq_bind,
      Option.bind_some, Option.map_map]
    cases containmentPathSegments convention segments <;> simp

theorem exists_position {depth : ℕ} (h : path.lexicalDepth = some depth) :
    ∃ host keys, path.position = some (host, keys) ∧ keys.length = depth := by
  rw [lexicalDepth_eq_map_position, Option.map_eq_some_iff] at h
  obtain ⟨⟨host, keys⟩, hposition, hlength⟩ := h
  exact ⟨host, keys, hposition, hlength⟩

/-- The position of a Windows URI, and the bytes by which it is compared with others. -/
theorem position_of_windowsIdentity {bytes : List UInt8} (h : path.windowsIdentityPathBytes = some bytes) :
    ∃ keys : List (List UInt8), path.position = some (path.hostOf, keys.filter (!·.isEmpty)) ∧
      bytes.map lowerByte = keys.flatMap (47 :: ·) ∧ ∀ key ∈ keys, (47 : UInt8) ∉ key := by
  cases path with
  | fallback bytes => cases h
  | file host segments =>
    rw [windowsIdentityPathBytes, Option.ite_none_left_eq_some, not_or, not_not, Option.some.injEq] at h
    obtain ⟨⟨hwindows, hplain⟩, rfl⟩ := h
    have hkept : containmentPathSegments .windows segments = some (segments.filter (!·.isEmpty)) := by
      rw [containmentPathSegments, if_neg]
      intro hany
      obtain ⟨segment, hmem, hambiguous⟩ := List.any_eq_true.mp hany
      exact hplain (List.any_eq_true.mpr ⟨segment, List.mem_of_mem_filter hmem, hambiguous⟩)
    refine ⟨segments.map (segmentKey .windows), ?_, ?_, ?_⟩
    · rw [position, hwindows, Option.getD_some, hkept, Option.map_some, List.filter_map]
      simp [hostOf, Function.comp_def, segmentKey_isEmpty]
    · rw [List.map_flatMap, List.flatMap_map]
      exact List.flatMap_congr fun segment _ ↦ rfl
    · intro key hkey hslash
      obtain ⟨segment, hmem, rfl⟩ := List.mem_map.mp hkey
      obtain ⟨byte, hbyte, heq⟩ := List.mem_map.mp hslash
      have hbyte47 : byte = 47 := (lowerByte_eq_iff (by decide)).mp heq
      refine hplain (List.any_eq_true.mpr ⟨segment, hmem, List.any_eq_true.mpr ⟨byte, hbyte, ?_⟩⟩)
      rw [hbyte47]
      rfl

/-- Equal URIs have the same position. -/
theorem position_of_eq (h : path.eq base = true) : path.position = base.position := by
  rw [eq, Bool.or_eq_true, beq_iff_eq] at h
  rcases h with rfl | h
  · rfl
  · split at h
    · rename_i bytes bytes' hpath hbase
      rw [Bool.and_eq_true, beq_iff_eq, sameIgnoreAsciiCase_iff] at h
      obtain ⟨keys, hposition, hbytes, hkeys⟩ := position_of_windowsIdentity hpath
      obtain ⟨keys', hposition', hbytes', hkeys'⟩ := position_of_windowsIdentity hbase
      rw [hbytes, hbytes'] at h
      rw [hposition, hposition', h.1, eq_of_flatMap_cons hkeys hkeys' h.2]
    · cases h

/-- Segments that are compared decoded are the same if their keys are. -/
theorem sameSegment_iff {convention : PathConvention} {segment other : List Char}
    (hsegment : convention = .windows → decodeUriPath segment = decodeBinary segment)
    (hother : convention = .windows → decodeUriPath other = decodeBinary other) :
    sameSegment convention segment other = true ↔
      segmentKey convention segment = segmentKey convention other := by
  cases convention with
  | posix => exact beq_iff_eq
  | windows =>
    rw [sameSegment, Bool.or_eq_true, hsegment rfl, hother rfl]
    refine ⟨fun h ↦ ?_, fun h ↦ .inr (sameIgnoreAsciiCase_iff.mpr h)⟩
    cases h with
    | inl hwritten =>
      calc
        (decodeBinary segment).map lowerByte = (decodeBinary (lower segment)).map lowerByte :=
          (decodeBinary_lower segment).symm
        _ = (decodeBinary (lower other)).map lowerByte := by
          rw [lower_eq_of_sameIgnoreAsciiCase hwritten]
        _ = (decodeBinary other).map lowerByte := decodeBinary_lower other
    | inr hdecoded => exact sameIgnoreAsciiCase_iff.mp hdecoded

theorem ComparesDecoded.of_mem {segments kept : List (List Char)} {convention : PathConvention}
    (h : (file host segments).ComparesDecoded)
    (hconvention : (file host segments).inferPathConvention = some convention)
    (hkept : containmentPathSegments convention segments = some kept) {segment : List Char}
    (hmem : segment ∈ kept) (hwindows : convention = .windows) :
    decodeUriPath segment = decodeBinary segment := by
  rw [containmentPathSegments, Option.ite_none_left_eq_some, Option.some.injEq] at hkept
  rw [← hkept.2] at hmem
  exact h (hwindows ▸ hconvention) segment (List.mem_of_mem_filter hmem)

/-- Containment is the order of prefixes of positions. -/
theorem startsWith_iff_position (hpath : path.position = some (host, keys))
    (hbase : base.position = some (host', keys'))
    (hsame : path.inferPathConvention = base.inferPathConvention) (hdecoded : path.ComparesDecoded)
    (hdecoded' : base.ComparesDecoded) :
    path.startsWith base = true ↔ host = host' ∧ keys' <+: keys := by
  have hequal : path.eq base = true → (host, keys) = (host', keys') := by
    intro h
    have heq := position_of_eq h
    rw [hpath, hbase, Option.some.injEq] at heq
    exact heq
  obtain ⟨segments, kept, convention, rfl, hconvention, hkept, rfl⟩ := position_eq_some hpath
  obtain ⟨segments', kept', convention', rfl, hconvention', hkept', rfl⟩ := position_eq_some hbase
  have hone : convention' = convention := by
    rw [hconvention, hconvention', Option.some.injEq] at hsame
    exact hsame.symm
  rw [hone] at hconvention' hkept' hequal ⊢
  have hnative : nativePathSegmentsStartWith kept kept' convention = true ↔
      kept'.map (segmentKey convention) <+: kept.map (segmentKey convention) :=
    nativePathSegmentsStartWith_iff_of_key fun segment hmem other hmem' ↦
      sameSegment_iff (hdecoded.of_mem hconvention hkept hmem) (hdecoded'.of_mem hconvention' hkept' hmem')
  have hstart : (file host segments).startsWith (file host' segments') =
      ((file host segments).eq (file host' segments') ||
        (decide (host = host') && nativePathSegmentsStartWith kept kept' convention)) := by
    by_cases hhost : host = host'
    · subst hhost
      simp [startsWith, hconvention, hconvention', hkept, hkept']
    · simp [startsWith, hhost]
  rw [hstart, Bool.or_eq_true, Bool.and_eq_true, decide_eq_true_eq, hnative]
  constructor
  · intro h
    cases h with
    | inl heq =>
      obtain ⟨hhost, hkeys⟩ := Prod.mk.inj (hequal heq)
      exact ⟨hhost, hkeys ▸ List.prefix_refl _⟩
    | inr h => exact h
  · exact .inr

/-- What a URI with a position lies below has one too. -/
theorem exists_position_of_startsWith (hpath : path.position = some (host, keys))
    (h : path.startsWith base = true) : ∃ host' keys', base.position = some (host', keys') := by
  rw [startsWith.eq_def, Bool.or_eq_true] at h
  rcases h with heq | h
  · exact ⟨host, keys, (position_of_eq heq).symm.trans hpath⟩
  · obtain ⟨segments, kept, convention, rfl, hconvention, hkept, -⟩ := position_eq_some hpath
    cases base with
    | fallback bytes => cases h
    | file host' segments' =>
      dsimp only at h
      split_ifs at h with hdiffer
      rw [not_or, not_not, not_not] at hdiffer
      rw [hconvention, Option.getD_some, hkept] at h
      split at h
      · rename_i hkept'
        exact ⟨_, _, by rw [position, ← hdiffer.2, hconvention, Option.getD_some, hkept', Option.map_some]⟩
      · cases h

end PathUri

end SpineCodex
