import Mathlib

/-!
# Patterns with wildcards, and the scan that retries at the last star

A pattern is a list of elements, each of which reads one item or, for a star, any run of items.
`Reads` is the meaning of a pattern. `matchesText` is the usual loop without recursion: it walks the
pattern and the text together, remembers the latest star only, and on a mismatch lets that star
absorb one more item. The loop is correct because what an earlier star could still absorb, the
latest one can absorb as well.
-/

namespace SpineCodex

/-- One element of a pattern. -/
inductive Wildcard (α : Type*) where
  /-- Any run of items, possibly empty. -/
  | star
  /-- One item that passes the test. -/
  | one (test : α → Bool)

namespace Wildcard

variable {α : Type*}

def isStar : Wildcard α → Bool
  | star => true
  | one _ => false

/-- The texts a pattern reads from end to end. -/
inductive Reads : List (Wildcard α) → List α → Prop where
  | nil : Reads [] []
  | one {test x pattern text} : test x = true → Reads pattern text →
      Reads (.one test :: pattern) (x :: text)
  | star {pattern text} (run : List α) : Reads pattern text →
      Reads (.star :: pattern) (run ++ text)

theorem reads_nil_iff {text : List α} : Reads [] text ↔ text = [] := by
  constructor
  · rintro ⟨⟩
    rfl
  · rintro rfl
    exact .nil

theorem reads_one_iff {test : α → Bool} {pattern : List (Wildcard α)} {x : α} {text : List α} :
    Reads (.one test :: pattern) (x :: text) ↔ test x = true ∧ Reads pattern text := by
  constructor
  · rintro ⟨⟩
    exact ⟨‹_›, ‹_›⟩
  · intro h
    exact .one h.1 h.2

theorem reads_star_iff {pattern : List (Wildcard α)} {text : List α} :
    Reads (.star :: pattern) text ↔ ∃ run rest, text = run ++ rest ∧ Reads pattern rest := by
  constructor
  · rintro (_ | _ | ⟨run, h⟩)
    exact ⟨run, _, rfl, h⟩
  · rintro ⟨run, rest, rfl, h⟩
    exact .star run h

theorem reads_star_cons_iff {pattern : List (Wildcard α)} {x : α} {text : List α} :
    Reads (.star :: pattern) (x :: text) ↔
      Reads pattern (x :: text) ∨ Reads (.star :: pattern) text := by
  rw [reads_star_iff, reads_star_iff]
  constructor
  · rintro ⟨run, rest, h, hr⟩
    cases run with
    | nil => exact .inl (h ▸ hr)
    | cons y run =>
      rw [List.cons_append, List.cons.injEq] at h
      exact .inr ⟨run, rest, h.2, hr⟩
  · rintro (h | ⟨run, rest, rfl, h⟩)
    · exact ⟨[], _, rfl, h⟩
    · exact ⟨x :: run, rest, rfl, h⟩

theorem reads_empty_iff {pattern : List (Wildcard α)} :
    Reads pattern [] ↔ pattern.all isStar = true := by
  induction pattern with
  | nil => simp [reads_nil_iff]
  | cons w pattern ih =>
    cases w with
    | star =>
      rw [reads_star_iff, List.all_cons, isStar, Bool.true_and, ← ih]
      constructor
      · rintro ⟨run, rest, h, hr⟩
        obtain ⟨-, rfl⟩ := List.append_eq_nil_iff.mp h.symm
        exact hr
      · intro h
        exact ⟨[], [], rfl, h⟩
    | one test =>
      constructor
      · rintro ⟨⟩
      · simp [isStar]

/-- A concatenation of patterns reads the concatenations of what they read. -/
theorem reads_append_iff {first second : List (Wildcard α)} {text : List α} :
    Reads (first ++ second) text ↔
      ∃ left right, text = left ++ right ∧ Reads first left ∧ Reads second right := by
  induction first generalizing text with
  | nil => simp [reads_nil_iff]
  | cons w first ih =>
    cases w with
    | star =>
      simp only [List.cons_append, reads_star_iff, ih]
      constructor
      · rintro ⟨run, -, rfl, left, right, rfl, hl, hr⟩
        exact ⟨run ++ left, right, by simp, ⟨run, left, rfl, hl⟩, hr⟩
      · rintro ⟨-, right, rfl, ⟨run, left, rfl, hl⟩, hr⟩
        exact ⟨run, left ++ right, by simp, left, right, rfl, hl, hr⟩
    | one test =>
      cases text with
      | nil =>
        constructor
        · rintro ⟨⟩
        · rintro ⟨left, right, h, hl, -⟩
          obtain ⟨rfl, -⟩ := List.append_eq_nil_iff.mp h.symm
          cases hl
      | cons x text =>
        rw [List.cons_append, reads_one_iff, ih]
        constructor
        · rintro ⟨ht, left, right, rfl, hl, hr⟩
          exact ⟨x :: left, right, rfl, .one ht hl, hr⟩
        · rintro ⟨left, right, h, hl, hr⟩
          cases hl with
          | one ht hl =>
            rw [List.cons_append, List.cons.injEq] at h
            obtain ⟨rfl, rfl⟩ := h
            exact ⟨ht, _, right, rfl, hl, hr⟩

/-- Without stars, a pattern reads texts of its own length. -/
theorem Reads.length_of_starless {pattern : List (Wildcard α)} {text : List α}
    (h : Reads pattern text) (starless : ∀ w ∈ pattern, w.isStar = false) :
    text.length = pattern.length := by
  induction h with
  | nil => rfl
  | one _ _ ih => simp [ih fun w hw => starless w (List.mem_cons_of_mem _ hw)]
  | star run _ _ => exact absurd (starless .star (by simp)) (by simp [isStar])

/-- The latest star absorbs one more item; it never stands behind the end of the text. -/
def resumed (run : List (Wildcard α) → List α → Bool) : Option (List (Wildcard α) × List α) → Bool
  | some (resume, _ :: consumed) => run resume consumed
  | _ => false

/-- The loop: what is left of the pattern and of the text, and for the latest star what follows it
in the pattern together with the text from which it was last resumed. -/
def scan : ℕ → List (Wildcard α) → List α → Option (List (Wildcard α) × List α) → Bool
  | 0, _, _, _ => false
  | _ + 1, pattern, [], _ => pattern.all isStar
  | fuel + 1, pattern, x :: text, last =>
    let retry resume consumed := scan fuel resume consumed (some (resume, consumed))
    match pattern with
    | .star :: pattern => scan fuel pattern (x :: text) (some (pattern, x :: text))
    | .one test :: pattern => if test x then scan fuel pattern text last else resumed retry last
    | [] => resumed retry last

/-- Enough rounds for the loop: one for each element between two retries, and one retry for each
item of the text. -/
def rounds (pattern : List (Wildcard α)) (text : List α) : ℕ :=
  pattern.length + (pattern.length + 1) * (text.length + 1) + 1

/-- Whether the pattern reads the whole text, found by the loop. -/
def matchesText (pattern : List (Wildcard α)) (text : List α) : Bool :=
  scan (rounds pattern text) pattern text none

/-- What the remembered star can still lead to after a mismatch. -/
def Resumes : Option (List (Wildcard α) × List α) → Prop
  | some (resume, _ :: consumed) => Reads (.star :: resume) consumed
  | _ => False

/-- The elements passed since the latest star have read, one by one, the items passed since the
text from which it was resumed. -/
def Since (pattern : List (Wildcard α)) (text : List α) :
    Option (List (Wildcard α) × List α) → Prop
  | none => True
  | some (resume, consumed) => ∃ passed used, resume = passed ++ pattern ∧ consumed = used ++ text ∧
      (∀ w ∈ passed, w.isStar = false) ∧ passed.length = used.length

/-- The retries left, for the measure of the loop. -/
def retries (text : List α) : Option (List (Wildcard α) × List α) → ℕ
  | none => text.length + 1
  | some (_, consumed) => consumed.length

theorem Since.restart (pattern : List (Wildcard α)) (text : List α) :
    Since pattern text (some (pattern, text)) :=
  ⟨[], [], rfl, rfl, nofun, rfl⟩

theorem Since.next {test : α → Bool} {pattern : List (Wildcard α)} {x : α} {text : List α}
    {last : Option (List (Wildcard α) × List α)}
    (h : Since (.one test :: pattern) (x :: text) last) : Since pattern text last := by
  match last, h with
  | none, _ => trivial
  | some (resume, consumed), ⟨passed, used, hr, hc, hs, hl⟩ =>
    refine ⟨passed ++ [.one test], used ++ [x], by simp [hr], by simp [hc], ?_, by simp [hl]⟩
    intro w hw
    rcases List.mem_append.mp hw with hw | hw
    · exact hs w hw
    · rw [List.mem_singleton.mp hw, isStar]

theorem Since.retries_le {pattern : List (Wildcard α)} {text : List α}
    {last : Option (List (Wildcard α) × List α)} (h : Since pattern text last) :
    text.length ≤ retries text last := by
  match last, h with
  | none, _ => exact Nat.le_succ _
  | some (resume, consumed), ⟨passed, used, _, hc, _, _⟩ => simp [retries, hc]

/-- At the end of the text no retry can help: the elements since the star need all of it. -/
theorem Since.not_resumes_at_end {pattern : List (Wildcard α)}
    {last : Option (List (Wildcard α) × List α)} (h : Since pattern [] last) : ¬ Resumes last := by
  match last, h with
  | none, _ => exact id
  | some (resume, []), _ => exact id
  | some (resume, y :: consumed), ⟨passed, used, hr, hc, hs, hl⟩ =>
    intro hres
    obtain ⟨run, rest, rfl, hrest⟩ := reads_star_iff.mp hres
    rw [hr] at hrest
    obtain ⟨left, right, rfl, hleft, -⟩ := reads_append_iff.mp hrest
    have hlen := hleft.length_of_starless hs
    have hused := congrArg List.length hc
    simp only [List.length_cons, List.length_append, List.length_nil] at hused
    omega

/-- At a new star the older one can be forgotten: whatever it would absorb in a retry, the new star
absorbs from here. -/
theorem Since.forget {pattern : List (Wildcard α)} {text : List α}
    {last : Option (List (Wildcard α) × List α)} (h : Since (.star :: pattern) text last)
    (hres : Resumes last) : Reads (.star :: pattern) text := by
  match last, h with
  | none, _ => exact hres.elim
  | some (resume, []), _ => exact hres.elim
  | some (resume, y :: consumed), ⟨passed, used, hr, hc, hs, hl⟩ =>
    obtain ⟨run, rest, hrun, hrest⟩ := reads_star_iff.mp hres
    rw [hr] at hrest
    obtain ⟨left, right, rfl, hleft, hright⟩ := reads_append_iff.mp hrest
    have hlen := hleft.length_of_starless hs
    -- both `text` and `right` end the resumed text, and `right` is not the longer one
    have hsplit : used ++ text = (y :: run ++ left) ++ right := by simp [← hc, hrun]
    have hle : used.length ≤ (y :: run ++ left).length := by simp; omega
    obtain ⟨more, -, rfl⟩ : ∃ more, y :: run ++ left = used ++ more ∧ text = more ++ right := by
      rcases List.append_eq_append_iff.mp hsplit with ⟨more, h₁, h₂⟩ | ⟨more, h₁, h₂⟩
      · exact ⟨more, h₁, h₂⟩
      · have : more = [] := by
          have := congrArg List.length h₁
          simp only [List.length_append, List.length_cons] at this hle
          exact List.eq_nil_of_length_eq_zero (by omega)
        subst this
        exact ⟨[], by simpa using h₁.symm, by simpa using h₂.symm⟩
    obtain ⟨run', rest', rfl, h'⟩ := reads_star_iff.mp hright
    exact reads_star_iff.mpr ⟨more ++ run', rest', by simp, h'⟩

/-- With enough rounds the loop answers whether what is left is read, here or after a retry. -/
theorem scan_iff (bound : ℕ) {fuel : ℕ} {pattern : List (Wildcard α)} {text : List α}
    {last : Option (List (Wildcard α) × List α)} (since : Since pattern text last)
    (short : pattern.length ≤ bound)
    (shortLast : ∀ resume consumed, last = some (resume, consumed) → resume.length ≤ bound)
    (enough : pattern.length + (bound + 1) * retries text last < fuel) :
    scan fuel pattern text last = true ↔ Reads pattern text ∨ Resumes last := by
  induction fuel generalizing pattern text last with
  | zero => omega
  | succ fuel ih =>
    cases text with
    | nil => simp only [scan, ← reads_empty_iff, since.not_resumes_at_end, or_false]
    | cons x text =>
      -- a mismatch: only the remembered star can help
      have hretry : ¬ Reads pattern (x :: text) →
          (resumed (fun resume consumed => scan fuel resume consumed (some (resume, consumed))) last =
            true ↔ Reads pattern (x :: text) ∨ Resumes last) := by
        intro hno
        match last, since, shortLast, enough with
        | none, _, _, _ => simp [hno, resumed, Resumes]
        | some (resume, []), ⟨_, _, _, hc, _, _⟩, _, _ => simp at hc
        | some (resume, y :: consumed), _, hshort, henough =>
          have hr : resume.length ≤ bound := hshort resume _ rfl
          have hfuel : resume.length + (bound + 1) * consumed.length < fuel := by
            simp only [retries, List.length_cons, Nat.mul_succ] at henough
            omega
          have hscan := ih (.restart resume consumed) hr
            (fun resume' consumed' h => by
              simp only [Option.some.injEq, Prod.mk.injEq] at h
              exact h.1 ▸ hr) hfuel
          simp only [hno, false_or, resumed, Resumes]
          rw [hscan]
          cases consumed with
          | nil => simp [Resumes, reads_empty_iff, isStar]
          | cons z consumed => rw [reads_star_cons_iff, Resumes]
      cases pattern with
      | nil =>
        simp only [scan]
        exact hretry (by simp [reads_nil_iff])
      | cons w pattern =>
        rw [List.length_cons] at short enough
        have hleft := since.retries_le
        cases w with
        | star =>
          have hfuel : pattern.length + (bound + 1) * retries (x :: text) (some (pattern, x :: text))
              < fuel := by
            have : (bound + 1) * (x :: text).length ≤ (bound + 1) * retries (x :: text) last :=
              Nat.mul_le_mul_left _ hleft
            simp only [retries]
            omega
          simp only [scan]
          rw [ih (.restart pattern (x :: text)) (by omega)
            (fun resume consumed h => by
              simp only [Option.some.injEq, Prod.mk.injEq] at h
              rw [← h.1]
              omega) hfuel]
          rw [Resumes, ← reads_star_cons_iff]
          exact ⟨.inl, fun h => h.elim id since.forget⟩
        | one test =>
          simp only [scan]
          by_cases ht : test x = true
          · have hfuel : pattern.length + (bound + 1) * retries text last < fuel := by
              have : retries text last ≤ retries (x :: text) last := by
                cases last <;> simp [retries]
              have := Nat.mul_le_mul_left (bound + 1) this
              omega
            rw [if_pos ht, ih since.next (by omega) shortLast hfuel, reads_one_iff]
            simp [ht]
          · rw [if_neg ht]
            exact hretry (by simp [reads_one_iff, ht])

/-- The loop decides whether the pattern reads the text. -/
theorem matchesText_iff {pattern : List (Wildcard α)} {text : List α} :
    matchesText pattern text = true ↔ Reads pattern text := by
  have since : Since pattern text none := trivial
  have enough : pattern.length + (pattern.length + 1) * retries text none < rounds pattern text :=
    Nat.lt_succ_self _
  have none_left : ¬ Resumes (none : Option (List (Wildcard α) × List α)) := id
  rw [matchesText, scan_iff pattern.length since le_rfl (fun _ _ h => nomatch h) enough,
    or_iff_left none_left]

end Wildcard

end SpineCodex
