import SpineCodex.Patch.Lines

/-!
# What an update changes

The replacements of a located chunk are compared with the edits that the lines of the chunk
name.  They agree when the old lines were found as they are; when they were found without
their empty last line, they agree unless that line or an empty last new line stood for
something.
-/

namespace SpineCodex

/-! ## Splitting at the context lines -/

theorem splitReplacements_cons (found : Located) (oldStart newStart oldContext newContext : ℕ)
    (rest : List (ℕ × ℕ)) :
    splitReplacements found oldStart newStart ((oldContext, newContext) :: rest) =
      if found.pattern.length ≤ oldContext ∨ found.newSlice.length ≤ newContext then
        lastReplacement found oldStart newStart
      else
        (if oldStart ≠ oldContext ∨ newStart ≠ newContext then
          [(found.start + oldStart, oldContext - oldStart,
            (found.newSlice.take newContext).drop newStart)] else []) ++
        splitReplacements found (oldContext + 1) (newContext + 1) rest := rfl

/-- A context line that one side lacks ends the search for context lines. -/
theorem splitReplacements_append (found : Located) (oldStart newStart : ℕ)
    (first : List (ℕ × ℕ)) {oldContext newContext : ℕ}
    (h : found.pattern.length ≤ oldContext ∨ found.newSlice.length ≤ newContext)
    (rest : List (ℕ × ℕ)) :
    splitReplacements found oldStart newStart (first ++ (oldContext, newContext) :: rest) =
      splitReplacements found oldStart newStart first := by
  induction first generalizing oldStart newStart with
  | nil =>
    rw [List.nil_append, splitReplacements_cons, if_pos h]
    rfl
  | cons context first ih =>
    rw [List.cons_append, splitReplacements_cons, splitReplacements_cons, ih]

theorem lastReplacement_within (found : Located) {oldStart : ℕ} (newStart : ℕ)
    (hlength : oldStart ≤ found.pattern.length) :
    Within (found.start + oldStart) (found.start + found.pattern.length)
      (lastReplacement found oldStart newStart) := by
  unfold lastReplacement
  split
  · exact .singleton (Nat.le_refl _) (by dsimp only; omega)
  · exact .nil _ _

/-- The replacements of a chunk stay in its region, in order. -/
theorem splitReplacements_within (found : Located) (lines : List PatchLine)
    {oldStart newStart o n : ℕ} (hle : oldStart ≤ o) (hlength : oldStart ≤ found.pattern.length) :
    Within (found.start + oldStart) (found.start + found.pattern.length)
      (splitReplacements found oldStart newStart (contextIndices o n lines)) := by
  induction lines generalizing oldStart newStart o n with
  | nil => exact lastReplacement_within found newStart hlength
  | cons line rest ih =>
    cases line with
    | removed text => exact ih (Nat.le_succ_of_le hle) hlength
    | added text => exact ih hle hlength
    | context text =>
      rw [contextIndices, splitReplacements_cons]
      split
      · exact lastReplacement_within found newStart hlength
      next hinside =>
        have hbound : o < found.pattern.length := by omega
        have hgap : Within (found.start + oldStart) (found.start + o)
            (if oldStart ≠ o ∨ newStart ≠ n then [(found.start + oldStart, o - oldStart,
              (found.newSlice.take n).drop newStart)] else []) := by
          split
          · exact .singleton (Nat.le_refl _) (by dsimp only; omega)
          · exact .nil _ _
        exact hgap.append (ih (Nat.le_refl (o + 1)) hbound) (by omega) (by omega) (by omega)

/-- The replacements of a chunk whose lines match both sides are the edits that the lines
name; `o` old and `n` new lines were read, of which the last were not replaced yet. -/
theorem splitReplacements_named (found : Located) (lines : List PatchLine)
    {oldStart newStart o n : ℕ} (hold : oldStart ≤ o) (hnew : newStart ≤ n)
    (hpattern : found.pattern.length = o + (oldTexts lines).length)
    (hlength : n ≤ found.newSlice.length) (hslice : found.newSlice.drop n = newTexts lines) :
    spliceEdits (splitReplacements found oldStart newStart (contextIndices o n lines)) =
      (⟨List.range' (found.start + oldStart) (o - oldStart),
        ((found.newSlice.take n).drop newStart).map (found.start + oldStart, ·)⟩ : Edits String) ++
        namedEdits (found.start + oldStart) (found.start + o) lines := by
  induction lines generalizing oldStart newStart o n with
  | nil =>
    obtain rfl : o = found.pattern.length := hpattern.symm
    obtain rfl : n = found.newSlice.length := by
      have := List.drop_eq_nil_iff.mp hslice
      omega
    rw [contextIndices, splitReplacements, lastReplacement, namedEdits, Edits.append_nil,
      List.take_length]
    split
    · rw [spliceEdits_singleton]
      rfl
    next hsame =>
      obtain ⟨rfl, rfl⟩ : oldStart = found.pattern.length ∧ newStart = found.newSlice.length := by
        omega
      rw [Nat.sub_self, List.drop_length]
      rfl
  | cons line rest ih =>
    cases line with
    | removed text =>
      rw [contextIndices, ih (Nat.le_succ_of_le hold) hnew (by simp [hpattern]; omega) hlength hslice,
        namedEdits, ← Edits.append_assoc]
      congr 1
      have hrange : o + 1 - oldStart = o - oldStart + 1 := by omega
      have hcursor : found.start + o = found.start + oldStart + (o - oldStart) := by omega
      change Edits.mk _ _ = Edits.mk _ _
      rw [hrange, hcursor, List.range'_concat, Nat.one_mul, List.append_nil]
    | added text =>
      have hdrop : found.newSlice.drop (n + 1) = newTexts rest := by
        rw [← List.drop_drop, hslice]
        rfl
      have hget : found.newSlice[n]? = some text := by
        rw [← Nat.add_zero n, ← List.getElem?_drop, hslice]
        rfl
      rw [contextIndices, ih hold (Nat.le_succ_of_le hnew) hpattern
        (List.getElem?_eq_some_iff.mp hget).1 hdrop, namedEdits, ← Edits.append_assoc]
      congr 1
      change Edits.mk _ _ = Edits.mk _ _
      rw [List.take_add_one, hget, List.drop_append_of_le_length (by simp; omega), List.map_append,
        List.append_nil]
      rfl
    | context text =>
      have hdrop : found.newSlice.drop (n + 1) = newTexts rest := by
        rw [← List.drop_drop, hslice]
        rfl
      have hget : found.newSlice[n]? = some text := by
        rw [← Nat.add_zero n, ← List.getElem?_drop, hslice]
        rfl
      have hlt := (List.getElem?_eq_some_iff.mp hget).1
      rw [oldTexts_context, List.length_cons] at hpattern
      rw [contextIndices, splitReplacements_cons, if_neg (by omega), spliceEdits_append,
        ih (Nat.le_refl (o + 1)) (Nat.le_refl (n + 1)) (by omega) hlt hdrop, namedEdits]
      have hnone : (found.newSlice.take (n + 1)).drop (n + 1) = [] :=
        List.drop_eq_nil_of_le (List.length_take_le _ _)
      rw [hnone, Nat.sub_self]
      change _ ++ (⟨[], []⟩ ++ namedEdits (found.start + o + 1) (found.start + o + 1) rest) = _
      rw [Edits.nil_append]
      congr 1
      split
      · rw [spliceEdits_singleton]
        rfl
      next hsame =>
        obtain ⟨rfl, rfl⟩ : oldStart = o ∧ newStart = n := by omega
        rw [Nat.sub_self, List.drop_eq_nil_of_le (by simp)]
        rfl

/-! ## Counting -/

theorem lastReplacement_balance (found : Located) (oldStart newStart : ℕ) :
    (spliceEdits (lastReplacement found oldStart newStart)).inserted.length +
        (found.pattern.length - oldStart) =
      (spliceEdits (lastReplacement found oldStart newStart)).deleted.length +
        (found.newSlice.length - newStart) := by
  unfold lastReplacement
  split
  · rw [spliceEdits_singleton, Splice.edits, List.length_map, List.length_range', List.length_drop]
    dsimp only
    omega
  · change 0 + _ = 0 + _
    omega

/-- The replacements of a chunk turn as many lines as the pattern has into as many as the new
side has. -/
theorem splitReplacements_balance (found : Located) (lines : List PatchLine)
    {oldStart newStart o n : ℕ} (hold : oldStart ≤ o) (hnew : newStart ≤ n)
    (hpattern : oldStart ≤ found.pattern.length) (hslice : newStart ≤ found.newSlice.length) :
    (spliceEdits (splitReplacements found oldStart newStart (contextIndices o n lines))).inserted.length +
        (found.pattern.length - oldStart) =
      (spliceEdits (splitReplacements found oldStart newStart
        (contextIndices o n lines))).deleted.length + (found.newSlice.length - newStart) := by
  induction lines generalizing oldStart newStart o n with
  | nil => exact lastReplacement_balance found oldStart newStart
  | cons line rest ih =>
    cases line with
    | removed text => exact ih (Nat.le_succ_of_le hold) hnew hpattern hslice
    | added text => exact ih hold (Nat.le_succ_of_le hnew) hpattern hslice
    | context text =>
      rw [contextIndices, splitReplacements_cons]
      split
      · exact lastReplacement_balance found oldStart newStart
      next hinside =>
        have hrest := ih (Nat.le_refl (o + 1)) (Nat.le_refl (n + 1))
          (show o + 1 ≤ found.pattern.length by omega) (show n + 1 ≤ found.newSlice.length by omega)
        rw [spliceEdits_append, Edits.inserted_append, Edits.deleted_append, List.length_append,
          List.length_append]
        split
        · rw [spliceEdits_singleton, Splice.edits, List.length_map, List.length_range',
            List.length_drop, List.length_take]
          dsimp only
          omega
        · change 0 + _ + _ = 0 + _ + _
          omega

theorem namedEdits_balance (anchor cursor : ℕ) (lines : List PatchLine) :
    (namedEdits anchor cursor lines).inserted.length + (oldTexts lines).length =
      (namedEdits anchor cursor lines).deleted.length + (newTexts lines).length := by
  induction lines generalizing anchor cursor with
  | nil => rfl
  | cons line rest ih =>
    cases line with
    | context text =>
      have := ih (cursor + 1) (cursor + 1)
      simp only [namedEdits, oldTexts_context, newTexts_context, List.length_cons]
      omega
    | removed text =>
      have := ih anchor (cursor + 1)
      simp only [namedEdits, oldTexts_removed, newTexts_removed, Edits.inserted_append,
        Edits.deleted_append, List.length_append, List.length_cons, List.length_nil]
      omega
    | added text =>
      have := ih anchor cursor
      simp only [namedEdits, oldTexts_cons_added, newTexts_cons_added, Edits.inserted_append,
        Edits.deleted_append, List.length_append, List.length_cons, List.length_nil]
      omega

/-! ## Added lines at the end -/

theorem namedEdits_added (anchor cursor : ℕ) (texts : List String) :
    namedEdits anchor cursor (texts.map PatchLine.added) = ⟨[], texts.map (anchor, ·)⟩ := by
  induction texts with
  | nil => rfl
  | cons text rest ih =>
    rw [List.map_cons, namedEdits, ih]
    rfl

/-- The added lines at the end of a chunk follow the last line that the others keep. -/
theorem exists_namedEdits_append (anchor cursor : ℕ) (lines : List PatchLine) :
    ∃ last, ∀ texts : List String, namedEdits anchor cursor (lines ++ texts.map PatchLine.added) =
      namedEdits anchor cursor lines ++ ⟨[], texts.map (last, ·)⟩ := by
  induction lines generalizing anchor cursor with
  | nil => exact ⟨anchor, fun texts ↦ namedEdits_added anchor cursor texts⟩
  | cons line rest ih =>
    cases line with
    | context text => exact ih (cursor + 1) (cursor + 1)
    | removed text =>
      obtain ⟨last, hlast⟩ := ih anchor (cursor + 1)
      refine ⟨last, fun texts ↦ ?_⟩
      rw [List.cons_append, namedEdits, namedEdits, hlast, Edits.append_assoc]
    | added text =>
      obtain ⟨last, hlast⟩ := ih anchor cursor
      refine ⟨last, fun texts ↦ ?_⟩
      rw [List.cons_append, namedEdits, namedEdits, hlast, Edits.append_assoc]

theorem namedEdits_added_inj {anchor cursor : ℕ} {lines : List PatchLine} {texts texts' : List String} :
    namedEdits anchor cursor (lines ++ texts.map PatchLine.added) =
        namedEdits anchor cursor (lines ++ texts'.map PatchLine.added) ↔ texts = texts' := by
  obtain ⟨last, hlast⟩ := exists_namedEdits_append anchor cursor lines
  constructor
  · intro h
    rw [hlast, hlast] at h
    have hinserted := congrArg Edits.inserted h
    rw [Edits.inserted_append, Edits.inserted_append] at hinserted
    have hmap := List.append_cancel_left hinserted
    exact List.map_injective_iff.mpr (fun _ _ heq ↦ (Prod.mk.inj heq).2) hmap
  · rintro rfl
    rfl

/-! ## The last old line -/

/-- The lines without the last one that stands for a line of the file. -/
def withoutLastOld (lines : List PatchLine) : List PatchLine :=
  (lines.reverse.eraseP fun line ↦ line.old?.isSome).reverse

theorem withoutLastOld_append {lines : List PatchLine} {last : PatchLine} (texts : List String)
    (h : last.old?.isSome) :
    withoutLastOld (lines ++ last :: texts.map PatchLine.added) =
      lines ++ texts.map PatchLine.added := by
  have hadded : ∀ line ∈ (texts.map PatchLine.added).reverse, ¬line.old?.isSome = true := by
    intro line hline
    obtain ⟨text, -, rfl⟩ := List.mem_map.mp (List.mem_reverse.mp hline)
    simp [PatchLine.old?]
  rw [withoutLastOld, List.reverse_append, List.reverse_cons, List.append_assoc,
    List.eraseP_append_right _ hadded, List.singleton_append, List.eraseP_cons_of_pos (p := fun line : PatchLine ↦ line.old?.isSome) h]
  simp

theorem exists_lastOld {lines : List PatchLine} {text : String}
    (h : (oldTexts lines).getLast? = some text) :
    ∃ (first : List PatchLine) (last : PatchLine) (texts : List String),
      lines = first ++ last :: texts.map PatchLine.added ∧ last.old? = some text := by
  induction lines using List.reverseRecOn with
  | nil => cases h
  | append_singleton rest line ih =>
    rw [oldTexts_append] at h
    cases line with
    | added added =>
      rw [oldTexts_cons_added, oldTexts_nil, List.append_nil] at h
      obtain ⟨first, last, texts, rfl, hlast⟩ := ih h
      exact ⟨first, last, texts ++ [added], by simp, hlast⟩
    | context context =>
      refine ⟨rest, _, [], rfl, ?_⟩
      rw [oldTexts_context, oldTexts_nil, List.getLast?_concat] at h
      exact h
    | removed removed =>
      refine ⟨rest, _, [], rfl, ?_⟩
      rw [oldTexts_removed, oldTexts_nil, List.getLast?_concat] at h
      exact h

end SpineCodex
