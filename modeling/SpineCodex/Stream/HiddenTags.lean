import SpineCodex.Lib.Delimiters
import SpineCodex.Stream.Chunks

/-!
# Hidden inline tags

Tags with literal delimiters are taken out of streamed text and their contents extracted. Tags do not
nest, and a tag that is open at the end of the stream is closed there. The parser keeps back the end of
the text that may become part of a delimiter. What it yields is compared with a scan that looks at one
position after the other of the whole text.
-/

namespace SpineCodex

variable {τ : Type}

structure ExtractedInlineTag (τ : Type) where
  tag : τ
  content : List Char
  deriving DecidableEq

/-- The literal delimiters of a tag, which the parser refuses to be empty. -/
structure InlineTagSpec (τ : Type) where
  tag : τ
  opening : List Char
  closing : List Char
  opening_ne : opening ≠ []
  closing_ne : closing ≠ []

/-- A tag whose closing delimiter is still to come. -/
structure ActiveTag (τ : Type) where
  tag : τ
  closing : List Char
  content : List Char

def InlineTagSpec.activate (spec : InlineTagSpec τ) : ActiveTag τ := ⟨spec.tag, spec.closing, []⟩

structure InlineHiddenTagParser (τ : Type) where
  pending : List Char := []
  active : Option (ActiveTag τ) := none

namespace InlineHiddenTagParser

variable (specs : List (InlineTagSpec τ))

/-! ## The parser -/

/-- An opening delimiter that occurs in the text: its position, its place in the list, and its tag. -/
structure FoundOpen (τ : Type) where
  pos : ℕ
  idx : ℕ
  spec : InlineTagSpec τ

/-- Earlier positions come first, then longer delimiters, then those listed earlier. -/
def FoundOpen.key (found : FoundOpen τ) : ℕ ×ₗ (ℕᵒᵈ ×ₗ ℕ) :=
  toLex (found.pos, toLex (OrderDual.toDual found.spec.opening.length, found.idx))

def openCandidates (pending : List Char) : List (FoundOpen τ) :=
  specs.zipIdx.filterMap fun (spec, idx) ↦
    (splitOnce spec.opening pending).map fun split ↦ ⟨split.1.length, idx, spec⟩

def findNextOpen (pending : List Char) : Option (FoundOpen τ) :=
  (openCandidates specs pending).argmin FoundOpen.key

def maxOpenPrefixSuffixLen (pending : List Char) : ℕ :=
  (specs.map fun spec ↦ longestSuffixPrefixLen pending spec.opening).foldr max 0

/-- The loop of a push: delimiters are taken off the pending text until none is left in it. -/
def drain : ℕ → InlineHiddenTagParser τ →
    InlineHiddenTagParser τ × StreamTextChunk (ExtractedInlineTag τ)
  | 0, state => (state, {})
  | fuel + 1, ⟨pending, some active⟩ =>
    match splitOnce active.closing pending with
    | some (content, rest) =>
      let later := drain fuel ⟨rest, none⟩
      (later.1, ⟨[], [⟨active.tag, active.content ++ content⟩]⟩ ++ later.2)
    | none =>
      let take := pending.length - longestSuffixPrefixLen pending active.closing
      (⟨pending.drop take, some { active with content := active.content ++ pending.take take }⟩, {})
  | fuel + 1, ⟨pending, none⟩ =>
    match findNextOpen specs pending with
    | some found =>
      let later := drain fuel
        ⟨pending.drop (found.pos + found.spec.opening.length), some found.spec.activate⟩
      (later.1, ⟨pending.take found.pos, []⟩ ++ later.2)
    | none =>
      let take := pending.length - maxOpenPrefixSuffixLen specs pending
      (⟨pending.drop take, none⟩, ⟨pending.take take, []⟩)

/-- Every turn of the loop but the last takes off a delimiter. -/
def pushStr (state : InlineHiddenTagParser τ) (chunk : List Char) :
    InlineHiddenTagParser τ × StreamTextChunk (ExtractedInlineTag τ) :=
  let pending := state.pending ++ chunk
  drain specs (pending.length + 1) ⟨pending, state.active⟩

def finish (state : InlineHiddenTagParser τ) :
    InlineHiddenTagParser τ × StreamTextChunk (ExtractedInlineTag τ) :=
  match state.active with
  | some active => ({}, ⟨[], [⟨active.tag, active.content ++ state.pending⟩]⟩)
  | none => ({}, ⟨state.pending, []⟩)

def textParser : StreamTextParser (InlineHiddenTagParser τ) (ExtractedInlineTag τ) where
  pushStr := pushStr specs
  finish := finish

/-! ## The scan of a whole text -/

/-- At each position outside a tag the first listed delimiter that starts there opens its tag, and at
the first position where its closing delimiter starts the tag ends. The number counts the characters
of a delimiter that are still to be passed over. -/
def scan : Option (ActiveTag τ) → ℕ → List Char → StreamTextChunk (ExtractedInlineTag τ)
  | none, _, [] => {}
  | some active, _, [] => ⟨[], [⟨active.tag, active.content⟩]⟩
  | active, skip + 1, _ :: text => scan active skip text
  | none, 0, c :: text =>
    match specs.find? fun spec ↦ spec.opening.isPrefixOf (c :: text) with
    | some spec => scan (some spec.activate) (spec.opening.length - 1) text
    | none => ⟨[c], []⟩ ++ scan none 0 text
  | some active, 0, c :: text =>
    if active.closing.isPrefixOf (c :: text) then
      ⟨[], [⟨active.tag, active.content⟩]⟩ ++ scan none (active.closing.length - 1) text
    else scan (some { active with content := active.content ++ [c] }) 0 text

variable {specs} {state : InlineHiddenTagParser τ} {active : ActiveTag τ} {spec : InlineTagSpec τ}
  {x y text rest pending : List Char}

theorem scan_skip (mode : Option (ActiveTag τ)) (x text : List Char) :
    scan specs mode x.length (x ++ text) = scan specs mode 0 text := by
  induction x with
  | nil => rfl
  | cons c x ih =>
    rw [← ih]
    cases mode <;> rfl

/-- Text in which no tag opens is visible. -/
theorem scan_visible (h : ∀ y, y <:+ x → y ≠ [] → ∀ spec ∈ specs, ¬spec.opening <+: y ++ text) :
    scan specs none 0 (x ++ text) = ⟨x, []⟩ ++ scan specs none 0 text := by
  induction x with
  | nil => exact (StreamTextChunk.nil_append _).symm
  | cons c x ih =>
    have hnone : (specs.find? fun spec ↦ spec.opening.isPrefixOf (c :: (x ++ text))) = none := by
      rw [List.find?_eq_none]
      intro spec hspec hstart
      exact h (c :: x) (List.suffix_refl _) (List.cons_ne_nil c x) spec hspec
        (List.isPrefixOf_iff_prefix.mp hstart)
    have hrest := ih fun y hy ↦ h y (hy.trans (List.suffix_cons c x))
    rw [List.cons_append, scan, hnone]
    dsimp only
    rw [hrest, ← StreamTextChunk.append_assoc]
    rfl

/-- Text in which the tag does not close belongs to its content. -/
theorem scan_content (h : ∀ y, y <:+ x → y ≠ [] → ¬active.closing <+: y ++ text) :
    scan specs (some active) 0 (x ++ text) =
      scan specs (some { active with content := active.content ++ x }) 0 text := by
  induction x generalizing active with
  | nil => rw [List.nil_append, List.append_nil]
  | cons c x ih =>
    have hnot : ¬active.closing.isPrefixOf (c :: (x ++ text)) = true := by
      rw [List.isPrefixOf_iff_prefix]
      exact h (c :: x) (List.suffix_refl _) (List.cons_ne_nil c x)
    have hrest := @ih { active with content := active.content ++ [c] } fun y hy ↦
      h y (hy.trans (List.suffix_cons c x))
    rw [List.cons_append, scan, if_neg hnot, hrest, List.append_assoc, List.singleton_append]

theorem scan_open (h : (specs.find? fun other ↦ other.opening.isPrefixOf (spec.opening ++ text)) =
    some spec) : scan specs none 0 (spec.opening ++ text) = scan specs (some spec.activate) 0 text := by
  obtain ⟨c, opening, hopen⟩ := List.exists_cons_of_ne_nil spec.opening_ne
  rw [hopen] at h ⊢
  rw [List.cons_append] at h ⊢
  rw [scan, h]
  dsimp only
  rw [hopen, List.length_cons, Nat.add_sub_cancel, scan_skip]

theorem scan_close (hne : active.closing ≠ []) :
    scan specs (some active) 0 (active.closing ++ text) =
      ⟨[], [⟨active.tag, active.content⟩]⟩ ++ scan specs none 0 text := by
  obtain ⟨c, closing, hclose⟩ := List.exists_cons_of_ne_nil hne
  have hstart : active.closing.isPrefixOf (c :: (closing ++ text)) = true := by
    rw [List.isPrefixOf_iff_prefix, hclose]
    exact List.prefix_append (c :: closing) text
  rw [hclose, List.cons_append, scan, if_pos hstart, hclose, List.length_cons, Nat.add_sub_cancel,
    scan_skip]

/-! ## Opening delimiters -/

/-- The text around a delimiter that was found in it. -/
theorem mem_openCandidates {found : FoundOpen τ} (h : found ∈ openCandidates specs pending) :
    specs[found.idx]? = some found.spec ∧
      ∃ x rest, pending = x ++ (found.spec.opening ++ rest) ∧ x.length = found.pos := by
  obtain ⟨⟨spec, idx⟩, hmem, hfound⟩ := List.mem_filterMap.mp h
  obtain ⟨⟨before, rest⟩, hsplit, rfl⟩ := Option.map_eq_some_iff.mp hfound
  exact ⟨List.mk_mem_zipIdx_iff_getElem?.mp hmem, before, rest, eq_append_of_splitOnce hsplit, rfl⟩

/-- A delimiter that stands in the text gives a candidate, there or before. -/
theorem exists_openCandidate {idx : ℕ} (hidx : specs[idx]? = some spec)
    (htext : pending = x ++ (spec.opening ++ rest)) :
    ∃ found ∈ openCandidates specs pending, found.pos ≤ x.length ∧ found.idx = idx ∧
      found.spec = spec := by
  obtain ⟨before, after, hsplit, hle⟩ := exists_splitOnce spec.opening x rest
  refine ⟨⟨before.length, idx, spec⟩, List.mem_filterMap.mpr ⟨(spec, idx), ?_, ?_⟩, hle, rfl, rfl⟩
  · exact List.mk_mem_zipIdx_iff_getElem?.mpr hidx
  · dsimp only
    rw [htext, hsplit, Option.map_some]

/-- No opening delimiter occurs inside another one. -/
def NoOpenInside (specs : List (InlineTagSpec τ)) : Prop :=
  ∀ spec ∈ specs, ∀ other ∈ specs, spec.opening <:+: other.opening → spec.opening = other.opening

section Found

variable {found : FoundOpen τ} (hopen : NoOpenInside specs) (h : findNextOpen specs pending = some found)
  (htext : pending = x ++ (found.spec.opening ++ rest)) (hpos : x.length = found.pos)

include h in
theorem key_le_of_findNextOpen {other : FoundOpen τ} (hother : other ∈ openCandidates specs pending) :
    found.key ≤ other.key := List.le_of_mem_argmin hother h

include h in
theorem mem_of_findNextOpen : found.spec ∈ specs :=
  List.mem_of_getElem? (mem_openCandidates (List.argmin_mem h)).1

include hopen h htext hpos

/-- No tag opens before the one that is found, however the text goes on: its delimiter would be found
itself or contain the other one. -/
theorem not_isPrefix_before_found (more : List Char) (hy : y <:+ x) (hne : y ≠ []) (hspec : spec ∈ specs) :
    ¬spec.opening <+: y ++ (found.spec.opening ++ (rest ++ more)) := by
  intro hstart
  obtain ⟨front, hfront⟩ := hy
  have hshorter : front.length < x.length := by
    have hlength := congrArg List.length hfront
    have := List.length_pos_iff.mpr hne
    rw [List.length_append] at hlength
    omega
  rw [← List.append_assoc, ← List.append_assoc] at hstart
  rcases isPrefix_append_cases hstart with ⟨tail, htail⟩ | ⟨hpart, hlt⟩
  · obtain ⟨idx, hget⟩ := List.getElem?_of_mem hspec
    have hstands : pending = front ++ (spec.opening ++ tail) := by
      rw [htext, htail, ← hfront, List.append_assoc, List.append_assoc]
    obtain ⟨other, hother, hle, -, -⟩ := exists_openCandidate hget hstands
    have hkey := key_le_of_findNextOpen h hother
    simp only [FoundOpen.key, Prod.Lex.toLex_le_toLex] at hkey
    omega
  · have hinside : found.spec.opening <:+: y ++ found.spec.opening ++ rest := ⟨y, rest, rfl⟩
    have hequal := hopen _ (mem_of_findNextOpen h) _ hspec (hinside.trans hpart.isInfix)
    rw [← hequal] at hlt
    simp only [List.length_append] at hlt
    omega

/-- Delimiters that start at the same position are equal, and the first listed one is found. -/
theorem find?_at_found (more : List Char) :
    (specs.find? fun spec ↦ spec.opening.isPrefixOf (found.spec.opening ++ (rest ++ more))) =
      some found.spec := by
  obtain ⟨hlt, hget⟩ := List.getElem?_eq_some_iff.mp (mem_openCandidates (List.argmin_mem h)).1
  rw [List.find?_eq_some_iff_getElem]
  refine ⟨List.isPrefixOf_iff_prefix.mpr (List.prefix_append _ _), found.idx, hlt, hget, ?_⟩
  intro j hj
  rw [Bool.not_eq_true', ← Bool.not_eq_true, List.isPrefixOf_iff_prefix]
  intro hstart
  have hmem : specs[j] ∈ specs := List.getElem_mem _
  have hequal : specs[j].opening = found.spec.opening := by
    rcases isPrefix_append_cases hstart with hin | ⟨hpart, -⟩
    · exact hopen _ hmem _ (mem_of_findNextOpen h) hin.isInfix
    · exact (hopen _ (mem_of_findNextOpen h) _ hmem hpart.isInfix).symm
  have hstands : pending = x ++ (specs[j].opening ++ rest) := by rw [hequal, htext]
  obtain ⟨other, hother, hle, hidx, hspec⟩ :=
    exists_openCandidate (List.getElem?_eq_getElem (lt_trans hj hlt)) hstands
  have hkey := key_le_of_findNextOpen h hother
  simp only [FoundOpen.key, Prod.Lex.toLex_le_toLex, hspec, hequal, hidx, lt_irrefl, true_and,
    false_or] at hkey
  omega

end Found

/-- The scan opens the tag that is found. -/
theorem scan_findNextOpen (hopen : NoOpenInside specs) {found : FoundOpen τ}
    (h : findNextOpen specs pending = some found) (more : List Char) :
    scan specs none 0 (pending ++ more) = ⟨pending.take found.pos, []⟩ ++
      scan specs (some found.spec.activate) 0
        (pending.drop (found.pos + found.spec.opening.length) ++ more) := by
  obtain ⟨-, x, rest, htext, hpos⟩ := mem_openCandidates (List.argmin_mem h)
  have htake : pending.take found.pos = x := by rw [htext, ← hpos, List.take_left]
  have hdrop : pending.drop (found.pos + found.spec.opening.length) = rest := by
    rw [htext, ← List.append_assoc, ← hpos, ← List.length_append, List.drop_left]
  calc scan specs none 0 (pending ++ more)
      = scan specs none 0 (x ++ (found.spec.opening ++ (rest ++ more))) := by
        rw [htext, List.append_assoc, List.append_assoc]
    _ = ⟨x, []⟩ ++ scan specs none 0 (found.spec.opening ++ (rest ++ more)) :=
        scan_visible fun y hy hne spec hspec ↦
          not_isPrefix_before_found hopen h htext hpos more hy hne hspec
    _ = _ := by rw [scan_open (find?_at_found hopen h htext hpos more), htake, hdrop]

/-! ## What is kept back -/

theorem not_isInfix_of_findNextOpen (h : findNextOpen specs pending = none) (hspec : spec ∈ specs) :
    ¬spec.opening <:+: pending := by
  rintro ⟨x, rest, htext⟩
  obtain ⟨idx, hget⟩ := List.getElem?_of_mem hspec
  rw [List.append_assoc] at htext
  obtain ⟨found, hfound, -⟩ := exists_openCandidate hget htext.symm
  rw [List.argmin_eq_none.mp h] at hfound
  cases hfound

/-- The kept length is that of the end which one of the delimiters may start with. -/
theorem maxOpenPrefixSuffixLen_spec (hne : specs ≠ []) (pending : List Char) :
    (∀ spec ∈ specs, longestSuffixPrefixLen pending spec.opening ≤ maxOpenPrefixSuffixLen specs pending) ∧
      ∃ spec ∈ specs, maxOpenPrefixSuffixLen specs pending = longestSuffixPrefixLen pending spec.opening := by
  unfold maxOpenPrefixSuffixLen
  induction specs with
  | nil => exact absurd rfl hne
  | cons spec specs ih =>
    rw [List.map_cons, List.foldr_cons]
    cases specs with
    | nil => exact ⟨by simp, spec, by simp, by simp⟩
    | cons second specs =>
      obtain ⟨hle, other, hother, heq⟩ := ih (List.cons_ne_nil second specs)
      refine ⟨List.forall_mem_cons.mpr ⟨le_max_left _ _, fun spec' hspec' ↦
        (hle spec' hspec').trans (le_max_right _ _)⟩, ?_⟩
      rcases le_total (((second :: specs).map fun spec ↦
          longestSuffixPrefixLen pending spec.opening).foldr max 0)
          (longestSuffixPrefixLen pending spec.opening) with hmax | hmax
      · exact ⟨spec, List.mem_cons_self, max_eq_left hmax⟩
      · exact ⟨other, List.mem_cons_of_mem _ hother, (max_eq_right hmax).trans heq⟩

def delimiters (specs : List (InlineTagSpec τ)) : List (List Char) :=
  specs.flatMap fun spec ↦ [spec.opening, spec.closing]

/-- A state between pushes. -/
structure Held (specs : List (InlineTagSpec τ)) (state : InlineHiddenTagParser τ) : Prop where
  known : ∀ active ∈ state.active, ∃ spec ∈ specs, active.closing = spec.closing
  unopened : state.active = none → ∀ spec ∈ specs, ¬spec.opening <:+: state.pending
  unclosed : ∀ active ∈ state.active, ¬active.closing <:+: state.pending
  part : ∃ delimiter ∈ delimiters specs, state.pending <+: delimiter ∧
    state.pending.length < delimiter.length

/-- The end of the text that is kept for a delimiter. -/
theorem drop_kept (pending : List Char) {delimiter : List Char} (hne : delimiter ≠ []) {keep : ℕ}
    (hkeep : keep = longestSuffixPrefixLen pending delimiter) :
    (pending.drop (pending.length - keep)).length = keep ∧
      pending.drop (pending.length - keep) <+: delimiter ∧ keep < delimiter.length := by
  have hlt := hkeep ▸ longestSuffixPrefixLen_lt pending hne
  have hsuffix := hkeep ▸ longestSuffixPrefixLen_suffix pending delimiter
  have hlength : (delimiter.take keep).length = keep := List.length_take_of_le hlt.le
  have hdrop : pending.drop (pending.length - keep) = delimiter.take keep := by
    have hdrop := List.suffix_iff_eq_drop.mp hsuffix
    rw [hlength] at hdrop
    exact hdrop.symm
  rw [hdrop]
  exact ⟨hlength, List.take_prefix _ _, hlt⟩

/-- The last turn of the loop outside a tag. -/
theorem held_of_unopened (hne : specs ≠ []) (h : findNextOpen specs pending = none) (fuel : ℕ) :
    Held specs (drain specs (fuel + 1) ⟨pending, none⟩).1 ∧ ∀ more,
      scan specs none 0 (pending ++ more) = (drain specs (fuel + 1) ⟨pending, none⟩).2 ++
        scan specs (drain specs (fuel + 1) ⟨pending, none⟩).1.active 0
          ((drain specs (fuel + 1) ⟨pending, none⟩).1.pending ++ more) := by
  obtain ⟨hmax, spec, hspec, hkeep⟩ := maxOpenPrefixSuffixLen_spec hne pending
  obtain ⟨hlength, hpart, hlt⟩ := drop_kept pending spec.opening_ne hkeep
  rw [drain, h]
  dsimp only
  generalize hrest : pending.drop (pending.length - maxOpenPrefixSuffixLen specs pending) = rest at *
  have htext : pending.take (pending.length - maxOpenPrefixSuffixLen specs pending) ++ rest = pending :=
    hrest ▸ List.take_append_drop _ _
  generalize pending.take (pending.length - maxOpenPrefixSuffixLen specs pending) = x at *
  constructor
  · refine ⟨by simp, fun _ other hother hin ↦ ?_, by simp, spec.opening, ?_, hpart, hlength ▸ hlt⟩
    · exact not_isInfix_of_findNextOpen h hother (hin.trans (htext ▸ (List.suffix_append x rest).isInfix))
    · exact List.mem_flatMap.mpr ⟨spec, hspec, List.mem_cons_self⟩
  · intro more
    conv_lhs => rw [← htext, List.append_assoc]
    refine scan_visible fun y hy hyne other hother ↦ not_isPrefix_of_kept ?_ ?_ hy hyne more
    · rw [htext]
      exact not_isInfix_of_findNextOpen h hother
    · rw [htext, hlength]
      exact hmax other hother

/-- The last turn of the loop inside a tag. -/
theorem held_of_unclosed {active : ActiveTag τ} (hspec : spec ∈ specs)
    (hclosing : active.closing = spec.closing) (h : splitOnce active.closing pending = none) (fuel : ℕ) :
    Held specs (drain specs (fuel + 1) ⟨pending, some active⟩).1 ∧ ∀ more,
      scan specs (some active) 0 (pending ++ more) = (drain specs (fuel + 1) ⟨pending, some active⟩).2 ++
        scan specs (drain specs (fuel + 1) ⟨pending, some active⟩).1.active 0
          ((drain specs (fuel + 1) ⟨pending, some active⟩).1.pending ++ more) := by
  have hne : active.closing ≠ [] := hclosing ▸ spec.closing_ne
  have hnone := not_isInfix_of_splitOnce h
  obtain ⟨hlength, hpart, hlt⟩ := drop_kept pending hne rfl
  rw [drain, h]
  dsimp only
  generalize hrest : pending.drop (pending.length - longestSuffixPrefixLen pending active.closing) =
    rest at *
  have htext : pending.take (pending.length - longestSuffixPrefixLen pending active.closing) ++ rest =
      pending := hrest ▸ List.take_append_drop _ _
  generalize pending.take (pending.length - longestSuffixPrefixLen pending active.closing) = x at *
  constructor
  · refine ⟨by simpa using ⟨spec, hspec, hclosing⟩, by simp, ?_, active.closing, ?_, hpart, hlength ▸ hlt⟩
    · intro other hother
      obtain rfl := Option.mem_some_iff.mp hother
      exact fun hin ↦ hnone (hin.trans (htext ▸ (List.suffix_append x rest).isInfix))
    · rw [hclosing]
      exact List.mem_flatMap.mpr ⟨spec, hspec, by simp⟩
  · intro more
    conv_lhs => rw [← htext, List.append_assoc]
    refine (scan_content fun y hy hyne ↦ not_isPrefix_of_kept ?_ ?_ hy hyne more).trans
      (StreamTextChunk.nil_append _).symm
    · rw [htext]
      exact hnone
    · rw [htext, hlength]

/-- The loop ends in a held state, and what it yields is what the scan yields for the text that it
took off. -/
theorem drain_spec (hne : specs ≠ []) (hopen : NoOpenInside specs) {fuel : ℕ}
    (state : InlineHiddenTagParser τ) (hfuel : state.pending.length < fuel)
    (hknown : ∀ active ∈ state.active, ∃ spec ∈ specs, active.closing = spec.closing) :
    Held specs (drain specs fuel state).1 ∧ ∀ more,
      scan specs state.active 0 (state.pending ++ more) = (drain specs fuel state).2 ++
        scan specs (drain specs fuel state).1.active 0 ((drain specs fuel state).1.pending ++ more) := by
  induction fuel generalizing state with
  | zero => exact absurd hfuel (Nat.not_lt_zero _)
  | succ fuel ih =>
    obtain ⟨pending, active⟩ := state
    dsimp only at hfuel ⊢
    cases active with
    | some active =>
      obtain ⟨spec, hspec, hclosing⟩ := hknown active rfl
      cases hsplit : splitOnce active.closing pending with
      | none => exact held_of_unclosed hspec hclosing hsplit fuel
      | some split =>
        obtain ⟨content, rest⟩ := split
        have htext := eq_append_of_splitOnce hsplit
        have hshorter : rest.length < fuel := by
          have hlength := congrArg List.length htext
          have := List.length_pos_iff.mpr (hclosing ▸ spec.closing_ne)
          simp only [List.length_append] at hlength
          omega
        obtain ⟨hheld, hscan⟩ := ih ⟨rest, none⟩ hshorter (by simp)
        rw [drain, hsplit]
        refine ⟨hheld, fun more ↦ ?_⟩
        have hbefore : ∀ y, y <:+ content → y ≠ [] → ¬active.closing <+:
            y ++ (active.closing ++ (rest ++ more)) := by
          intro y hy hyne hstart
          rw [← List.append_assoc active.closing, ← List.append_assoc y] at hstart
          rcases isPrefix_append_cases hstart with hin | ⟨-, hlt⟩
          · exact not_isPrefix_of_splitOnce hsplit hy hyne hin
          · simp only [List.length_append] at hlt
            omega
        have hclose : scan specs (some { active with content := active.content ++ content }) 0
            (active.closing ++ (rest ++ more)) =
              ⟨[], [⟨active.tag, active.content ++ content⟩]⟩ ++ scan specs none 0 (rest ++ more) :=
          scan_close (hclosing ▸ spec.closing_ne)
        dsimp only
        rw [htext, List.append_assoc, List.append_assoc, scan_content hbefore, hclose,
          StreamTextChunk.append_assoc]
        exact congrArg _ (hscan more)
    | none =>
      cases hfind : findNextOpen specs pending with
      | none => exact held_of_unopened hne hfind fuel
      | some found =>
        obtain ⟨-, x, rest, htext, hpos⟩ := mem_openCandidates (List.argmin_mem hfind)
        have hshorter : (pending.drop (found.pos + found.spec.opening.length)).length < fuel := by
          have hlength := congrArg List.length htext
          have := List.length_pos_iff.mpr found.spec.opening_ne
          simp only [List.length_append] at hlength
          rw [List.length_drop]
          omega
        obtain ⟨hheld, hscan⟩ := ih ⟨_, some found.spec.activate⟩ hshorter
          (by simpa using ⟨found.spec, mem_of_findNextOpen hfind, rfl⟩)
        rw [drain, hfind]
        refine ⟨hheld, fun more ↦ ?_⟩
        rw [scan_findNextOpen hopen hfind, hscan more, StreamTextChunk.append_assoc]

/-! ## Whole streams -/

/-- A held state stands for the scan of the text to come behind the pending one. -/
theorem textParser_means (hne : specs ≠ []) (hopen : NoOpenInside specs) :
    (textParser specs).Means (Held specs) fun state text ↦
      scan specs state.active 0 (state.pending ++ text) where
  valid_push {state} chunk hheld :=
    (drain_spec hne hopen ⟨state.pending ++ chunk, state.active⟩ (Nat.lt_succ_self _)
      hheld.known).1
  meaning_push {state} chunk text hheld := by
    rw [← List.append_assoc]
    exact (drain_spec hne hopen ⟨state.pending ++ chunk, state.active⟩ (Nat.lt_succ_self _)
      hheld.known).2 text
  meaning_end {state} hheld := by
    obtain ⟨pending, active⟩ := state
    cases active with
    | none =>
      dsimp only [textParser, finish]
      rw [scan_visible fun y hy _ spec hspec hstart ↦ hheld.unopened rfl spec hspec ?_]
      · exact StreamTextChunk.append_nil _
      · rw [List.append_nil] at hstart
        exact hstart.isInfix.trans hy.isInfix
    | some active =>
      dsimp only [textParser, finish]
      rw [scan_content fun y hy _ hstart ↦ hheld.unclosed active rfl ?_]
      · rfl
      · rw [List.append_nil] at hstart
        exact hstart.isInfix.trans hy.isInfix

/-- A parser that has been given nothing. -/
theorem held_start (hne : specs ≠ []) : Held specs {} := by
  obtain ⟨spec, rest, rfl⟩ := List.exists_cons_of_ne_nil hne
  refine ⟨by simp, fun _ other _ hin ↦ ?_, by simp, spec.opening, by simp [delimiters],
    List.nil_prefix, List.length_pos_iff.mpr spec.opening_ne⟩
  exact other.opening_ne (List.infix_nil.mp hin)

/-- The number of bytes of the longest delimiter. -/
def longestDelimiter (specs : List (InlineTagSpec τ)) : ℕ :=
  ((delimiters specs).map fun delimiter ↦ (asBytes delimiter).length).foldr max 0

theorem Held.length_lt (h : Held specs state) : (asBytes state.pending).length < longestDelimiter specs := by
  obtain ⟨delimiter, hmem, ⟨tail, rfl⟩, hlt⟩ := h.part
  have htail : tail ≠ [] := by
    rintro rfl
    simp at hlt
  have hbytes := List.length_pos_iff.mpr (asBytes_ne_nil htail)
  have hle : ∀ l : List ℕ, ∀ n ∈ l, n ≤ l.foldr max 0 := by
    intro l
    induction l with
    | nil => simp
    | cons m l ih =>
      exact List.forall_mem_cons.mpr ⟨le_max_left _ _, fun n hn ↦ (ih n hn).trans (le_max_right _ _)⟩
  have hmax := hle _ _ (List.mem_map_of_mem (f := fun delimiter ↦ (asBytes delimiter).length) hmem)
  rw [asBytes_append, List.length_append] at hmax
  exact lt_of_lt_of_le (Nat.lt_add_of_pos_right hbytes) hmax

theorem parseAll_scan (hne : specs ≠ []) (hopen : NoOpenInside specs) (chunks : List (List Char)) :
    (textParser specs).parseAll {} chunks = scan specs none 0 chunks.flatten :=
  (textParser_means hne hopen).parseAll_eq (held_start hne) chunks

/-- However the text is cut, the parser yields what the scan of the whole text yields, as a single push
does, and keeps back less than the longest delimiter. -/
theorem parseAll_eq_scan (hne : specs ≠ []) (hopen : NoOpenInside specs) (chunks : List (List Char)) :
    (textParser specs).parseAll {} chunks = scan specs none 0 chunks.flatten ∧
      (textParser specs).parseAll {} chunks = (textParser specs).parseAll {} [chunks.flatten] ∧
      (asBytes ((textParser specs).pushAll {} chunks).pending).length < longestDelimiter specs := by
  have hheld := (textParser_means hne hopen).valid_pushAll (held_start hne) chunks
  refine ⟨parseAll_scan hne hopen chunks, ?_, hheld.length_lt⟩
  rw [parseAll_scan hne hopen, parseAll_scan hne hopen, List.flatten_singleton]

/-- Two tags with plain delimiters. -/
def noteAndRef : List (InlineTagSpec ℕ) :=
  [⟨0, "<note>".toList, "</note>".toList, by decide, by decide⟩,
    ⟨1, "<ref>".toList, "</ref>".toList, by decide, by decide⟩]

theorem cut_tags_hidden :
    (noteAndRef ≠ [] ∧ NoOpenInside noteAndRef) ∧
      (textParser noteAndRef).parseAll {} ["a<no".toList, "te>b<ref></no".toList, "te>c<re".toList] =
        ⟨"ac<re".toList, [⟨0, "b<ref>".toList⟩]⟩ := by
  have hopen : NoOpenInside noteAndRef := by
    unfold NoOpenInside
    decide
  refine ⟨⟨by decide, hopen⟩, (parseAll_eq_scan (by decide) hopen _).1.trans ?_⟩
  decide +kernel

end InlineHiddenTagParser

end SpineCodex
