import SpineCodex.Lib.Text

/-!
# Delimiters in a text that is still growing

A delimiter is looked for in the part of a text that has arrived. An occurrence that is found stays the
first one when the text grows. If none is found, only the longest end of the text that the delimiter
can start with may become part of one.
-/

namespace SpineCodex

variable {needle text x y rest more : List Char}

theorem eq_append_of_splitOnce (h : splitOnce needle text = some (x, rest)) :
    text = x ++ (needle ++ rest) := by
  induction text generalizing x with
  | nil =>
    rw [splitOnce, Option.ite_none_right_eq_some] at h
    obtain ⟨rfl, h⟩ := h
    cases h
    rfl
  | cons c text ih =>
    rw [splitOnce] at h
    split_ifs at h with hstart
    · obtain ⟨tail, htail⟩ := List.isPrefixOf_iff_prefix.mp hstart
      rw [← htail, List.drop_left] at h
      cases h
      exact htail.symm
    · obtain ⟨⟨before, after⟩, hsplit, heq⟩ := Option.map_eq_some_iff.mp h
      cases heq
      rw [List.cons_append, ← ih hsplit]

/-- Where the delimiter occurs, it is found, there or before. -/
theorem exists_splitOnce (needle x rest : List Char) :
    ∃ before after, splitOnce needle (x ++ (needle ++ rest)) = some (before, after) ∧
      before.length ≤ x.length := by
  induction x with
  | nil =>
    have hstart : needle.isPrefixOf (needle ++ rest) = true :=
      List.isPrefixOf_iff_prefix.mpr (List.prefix_append _ _)
    refine ⟨[], rest, ?_, le_refl _⟩
    rw [List.nil_append]
    cases htext : needle ++ rest with
    | nil =>
      obtain ⟨rfl, rfl⟩ := List.append_eq_nil_iff.mp htext
      rfl
    | cons c text => rw [splitOnce, if_pos (htext ▸ hstart), ← htext, List.drop_left]
  | cons c x ih =>
    rw [List.cons_append, splitOnce]
    split_ifs
    · exact ⟨[], _, rfl, Nat.zero_le _⟩
    · obtain ⟨before, after, hsplit, hle⟩ := ih
      exact ⟨c :: before, after, by rw [hsplit, Option.map_some], Nat.succ_le_succ hle⟩

theorem not_isInfix_of_splitOnce (h : splitOnce needle text = none) : ¬needle <:+: text := by
  rintro ⟨x, rest, rfl⟩
  obtain ⟨before, after, hsplit, -⟩ := exists_splitOnce needle x rest
  rw [List.append_assoc, hsplit] at h
  cases h

/-- The delimiter does not start in the text before its first occurrence. -/
theorem not_isPrefix_of_splitOnce (h : splitOnce needle text = some (x, rest)) (hy : y <:+ x)
    (hne : y ≠ []) : ¬needle <+: y ++ (needle ++ rest) := by
  rintro ⟨tail, htail⟩
  obtain ⟨front, rfl⟩ := hy
  have htext : text = front ++ (needle ++ tail) := by
    rw [eq_append_of_splitOnce h, List.append_assoc, ← htail]
  obtain ⟨before, after, hsplit, hle⟩ := exists_splitOnce needle front tail
  rw [← htext, h] at hsplit
  cases hsplit
  rw [List.length_append] at hle
  have hpos := List.length_pos_iff.mpr hne
  omega

/-- A delimiter at the start of a growing text stands in it already, or the text is a part of it. -/
theorem isPrefix_append_cases (h : needle <+: y ++ more) :
    needle <+: y ∨ (y <+: needle ∧ y.length < needle.length) := by
  rcases Nat.lt_or_ge y.length needle.length with hlt | hge
  · exact .inr ⟨List.prefix_of_prefix_length_le (List.prefix_append _ _) h hlt.le, hlt⟩
  · exact .inl (List.prefix_of_prefix_length_le h (List.prefix_append _ _) hge)

/-! ## The end of a text that a delimiter may start with -/

/-- The length of the longest proper prefix of the delimiter that ends the text. -/
def longestSuffixPrefixLen (text needle : List Char) : ℕ :=
  ((List.range' 1 (min text.length (needle.length - 1))).reverse.find? fun k ↦
    (needle.take k).isSuffixOf text).getD 0

theorem longestSuffixPrefixLen_lt (text : List Char) (hne : needle ≠ []) :
    longestSuffixPrefixLen text needle < needle.length := by
  have hpos := List.length_pos_iff.mpr hne
  unfold longestSuffixPrefixLen
  cases hfind : List.find? _ _ with
  | none => exact hpos
  | some k =>
    have hmem := List.mem_of_find?_eq_some hfind
    rw [List.mem_reverse, List.mem_range'_1] at hmem
    rw [Option.getD_some]
    omega

theorem longestSuffixPrefixLen_suffix (text needle : List Char) :
    needle.take (longestSuffixPrefixLen text needle) <:+ text := by
  unfold longestSuffixPrefixLen
  cases hfind : List.find? _ _ with
  | none => exact List.nil_suffix
  | some k =>
    have hends := List.find?_some hfind
    exact List.isSuffixOf_iff_suffix.mp hends

/-- No longer end of the text is a proper prefix of the delimiter. -/
theorem length_le_longestSuffixPrefixLen (hy : y <:+ text) (hstart : y <+: needle)
    (hlt : y.length < needle.length) : y.length ≤ longestSuffixPrefixLen text needle := by
  by_contra hlonger
  push Not at hlonger
  have htake : needle.take y.length = y := List.prefix_iff_eq_take.mp hstart |>.symm
  have hrange : y.length ∈ (List.range' 1 (min text.length (needle.length - 1))).reverse := by
    have := hy.length_le
    rw [List.mem_reverse, List.mem_range'_1]
    omega
  unfold longestSuffixPrefixLen at hlonger
  cases hfind : (List.range' 1 (min text.length (needle.length - 1))).reverse.find?
      fun k ↦ (needle.take k).isSuffixOf text with
  | none =>
    have hnot := List.find?_eq_none.mp hfind _ hrange
    rw [htake] at hnot
    exact hnot (List.isSuffixOf_iff_suffix.mpr hy)
  | some k =>
    rw [hfind, Option.getD_some] at hlonger
    -- the positions are tried from the longest end on
    obtain ⟨-, before, after, hsplit, hbefore⟩ := List.find?_eq_some_iff_append.mp hfind
    have hsorted : ((List.range' 1 (min text.length (needle.length - 1))).reverse).Pairwise (· > ·) := by
      rw [List.pairwise_reverse]
      exact List.pairwise_lt_range'
    rw [hsplit] at hrange hsorted
    rcases List.mem_append.mp hrange with hmem | hmem
    · have hnot := hbefore _ hmem
      rw [htake] at hnot
      simp [List.isSuffixOf_iff_suffix.mpr hy] at hnot
    · rcases List.mem_cons.mp hmem with heq | hmem
      · omega
      · have hgt := (List.pairwise_cons.mp (List.pairwise_append.mp hsorted).2.1).1 _ hmem
        omega

/-- The delimiter does not start, in any text that goes on, before the end that is kept. -/
theorem not_isPrefix_of_kept (hnone : ¬needle <:+: x ++ rest)
    (hkept : longestSuffixPrefixLen (x ++ rest) needle ≤ rest.length) (hy : y <:+ x) (hne : y ≠ [])
    (more : List Char) : ¬needle <+: y ++ (rest ++ more) := by
  intro hstart
  have hsuffix : y ++ rest <:+ x ++ rest := by
    obtain ⟨front, rfl⟩ := hy
    exact ⟨front, by rw [List.append_assoc]⟩
  rw [← List.append_assoc] at hstart
  rcases isPrefix_append_cases hstart with hin | ⟨hpart, hlt⟩
  · exact hnone (hin.isInfix.trans hsuffix.isInfix)
  · have hle := length_le_longestSuffixPrefixLen hsuffix hpart hlt
    rw [List.length_append] at hle
    have hpos := List.length_pos_iff.mpr hne
    omega

end SpineCodex
