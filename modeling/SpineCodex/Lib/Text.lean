import Mathlib

/-!
# Texts as sequences of characters

Trimming Unicode white space, ASCII case and splitting at a separator.
-/

namespace SpineCodex

/-- The characters with the Unicode property `White_Space`. -/
def whiteSpace (c : Char) : Bool :=
  let n := c.toNat
  (0x09 ≤ n && n ≤ 0x0d) || n == 0x20 || n == 0x85 || n == 0xa0 || n == 0x1680 ||
    (0x2000 ≤ n && n ≤ 0x200a) || n == 0x2028 || n == 0x2029 || n == 0x202f || n == 0x205f ||
    n == 0x3000

/-- The text without the white space at its two ends. -/
def trim (text : String) : String :=
  .ofList ((text.toList.dropWhile whiteSpace).reverse.dropWhile whiteSpace).reverse

/-- The text without the white space at its end. -/
def trimEnd (text : String) : String :=
  .ofList (text.toList.reverse.dropWhile whiteSpace).reverse

/-- The characters without the white space at both ends. -/
def trimList (text : List Char) : List Char :=
  ((text.dropWhile whiteSpace).reverse.dropWhile whiteSpace).reverse

/-- A text without white space is its own trimming. -/
theorem trimList_eq_self {text : List Char} (h : ∀ c ∈ text, whiteSpace c = false) :
    trimList text = text := by
  have hdrop : ∀ l : List Char, (∀ c ∈ l, whiteSpace c = false) → l.dropWhile whiteSpace = l := by
    intro l hl
    cases l with
    | nil => rfl
    | cons c l => rw [List.dropWhile_cons_of_neg (by simp [hl c])]
  rw [trimList, hdrop text h, hdrop text.reverse (by simpa using h), List.reverse_reverse]

/-! ## ASCII case -/

/-- The text with its ASCII capitals lowered. -/
def lower (text : List Char) : List Char := text.map Char.toLower

theorem toNat_toLower (c : Char) :
    c.toLower.toNat = if 65 ≤ c.toNat ∧ c.toNat ≤ 90 then c.toNat + 32 else c.toNat := by
  unfold Char.toLower
  have hval : c.val.toNat = c.toNat := rfl
  split_ifs with h h' h'
  · have hshift : UInt32.toNat ('a'.val - 'A'.val) = 32 := rfl
    simp only [Char.toNat, UInt32.toNat_add]
    omega
  · exact absurd (by simpa [UInt32.le_iff_toNat_le] using h) h'
  · exact absurd (by simpa [UInt32.le_iff_toNat_le] using h') h
  · rfl

theorem toNat_inj {c d : Char} (h : c.toNat = d.toNat) : c = d :=
  Char.ext (UInt32.toNat_inj.mp h)

/-- Lowering neither makes nor removes a character that is no ASCII letter. -/
theorem toLower_eq_iff {c d : Char} (hd : d.toNat < 65 ∨ 122 < d.toNat ∨
    (90 < d.toNat ∧ d.toNat < 97)) : c.toLower = d ↔ c = d := by
  have hc := toNat_toLower c
  constructor
  · rintro rfl
    apply toNat_inj
    split_ifs at hc with h
    · omega
    · exact hc.symm
  · rintro rfl
    apply toNat_inj
    split_ifs at hc with h
    · omega
    · exact hc

theorem lower_append (first second : List Char) :
    lower (first ++ second) = lower first ++ lower second := List.map_append

/-! ## Splitting -/

/-- The text before and after the first occurrence of a separator. -/
def splitOnce (separator : List Char) : List Char → Option (List Char × List Char)
  | [] => if separator = [] then some ([], []) else none
  | c :: text =>
    if separator.isPrefixOf (c :: text) then some ([], (c :: text).drop separator.length)
    else (splitOnce separator text).map fun split => (c :: split.1, split.2)

theorem splitOnce_char {d : Char} {before after : List Char} (h : d ∉ before) :
    splitOnce [d] (before ++ d :: after) = some (before, after) := by
  induction before with
  | nil => simp [splitOnce]
  | cons c before ih =>
    rw [List.mem_cons, not_or] at h
    simp [splitOnce, h.1, ih h.2]

theorem splitOnce_eq_none {d : Char} {separator text : List Char} (h : d ∉ text) :
    splitOnce (d :: separator) text = none := by
  induction text with
  | nil => simp [splitOnce]
  | cons c text ih =>
    rw [List.mem_cons, not_or] at h
    simp [splitOnce, h.1, ih h.2]

/-! ## Bytes -/

/-- The UTF-8 encoding. -/
def asBytes (text : List Char) : List UInt8 := text.flatMap String.utf8EncodeChar

@[simp]
theorem asBytes_nil : asBytes [] = [] := rfl

theorem asBytes_append (first second : List Char) :
    asBytes (first ++ second) = asBytes first ++ asBytes second := List.flatMap_append

/-- An ASCII character is one byte. -/
theorem asBytes_cons_ascii {c : Char} (h : c.toNat ≤ 127) (text : List Char) :
    asBytes (c :: text) = UInt8.ofNat c.toNat :: asBytes text := by
  have hencode : String.utf8EncodeChar c = [UInt8.ofNat c.toNat] := if_pos h
  rw [asBytes, List.flatMap_cons, hencode]
  rfl

theorem asBytes_ne_nil {text : List Char} (h : text ≠ []) : asBytes text ≠ [] := by
  obtain ⟨c, text, rfl⟩ := List.exists_cons_of_ne_nil h
  simp [asBytes, String.utf8EncodeChar_ne_nil]

/-- Equality of bytes, ASCII case apart. -/
def eqIgnoreAsciiCase (a b : UInt8) : Bool :=
  let lowered (c : UInt8) := if 65 ≤ c ∧ c ≤ 90 then c + 32 else c
  lowered a == lowered b

/-- Equality of byte texts, ASCII case apart. -/
def sameIgnoreAsciiCase (first second : List UInt8) : Bool :=
  first.length == second.length && (first.zip second).all fun (a, b) => eqIgnoreAsciiCase a b

/-- What follows `start` in a text that begins with it. -/
def stripStart? (start text : String) : Option String :=
  (start.toList.isPrefixOf? text.toList).map .ofList

/-- Text that is empty after trimming. -/
def Blank (text : String) : Prop := trim text = ""

instance (text : String) : Decidable (Blank text) := inferInstanceAs (Decidable (_ = _))

theorem blank_iff {text : String} : Blank text ↔ ∀ c ∈ text.toList, whiteSpace c = true := by
  have hofList : Blank text ↔
      ((text.toList.dropWhile whiteSpace).reverse.dropWhile whiteSpace).reverse = [] := by
    unfold Blank trim
    exact ⟨fun h ↦ String.ofList_injective h, fun h ↦ by rw [h]⟩
  rw [hofList, List.reverse_eq_nil_iff, List.dropWhile_eq_nil_iff]
  constructor
  · intro hall
    rw [← List.dropWhile_eq_nil_iff]
    cases hrest : text.toList.dropWhile whiteSpace with
    | nil => rfl
    | cons first rest =>
      have hfirst := hall first (by simp [hrest])
      have hnot := List.head?_dropWhile_not whiteSpace text.toList
      rw [hrest] at hnot
      simp [hfirst] at hnot
  · intro hall c hmem
    exact hall c ((List.dropWhile_sublist whiteSpace).subset (List.mem_reverse.mp hmem))

/-- A literal that starts with a visible character. -/
theorem not_blank_literal {text : String} {c : Char} {cs : List Char}
    (h : text = String.ofList (c :: cs)) (hvisible : whiteSpace c = false) : ¬Blank text := by
  rw [blank_iff, h, String.toList_ofList]
  intro hall
  exact absurd (hall c List.mem_cons_self) (by simp [hvisible])

theorem not_blank_append {first : String} (h : ¬Blank first) (rest : String) :
    ¬Blank (first ++ rest) := by
  rw [blank_iff, String.toList_append]
  intro hall
  exact h (blank_iff.mpr fun c hmem ↦ hall c (List.mem_append_left _ hmem))

end SpineCodex
