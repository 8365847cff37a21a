import Mathlib

/-!
# Compact JSON text and its length

The text that a compact JSON writer produces for a value, and its length in bytes
computed without building the text.
-/

namespace SpineCodex

inductive Json where
  | null
  | bool (value : Bool)
  | number (value : ℕ)
  | string (value : String)
  | array (items : List Json)
  | object (fields : List (String × Json))

namespace Json

def hexDigit (n : ℕ) : Char := Nat.digitChar n

/-- The text of one character inside a quoted string. -/
def escapeChar (c : Char) : String :=
  if c = '"' then "\\\""
  else if c = '\\' then "\\\\"
  else if c.val = 0x08 then "\\b"
  else if c.val = 0x09 then "\\t"
  else if c.val = 0x0a then "\\n"
  else if c.val = 0x0c then "\\f"
  else if c.val = 0x0d then "\\r"
  else if c.val < 0x20 then
    "\\u00" ++ String.singleton (hexDigit (c.val.toNat / 16)) ++
      String.singleton (hexDigit (c.val.toNat % 16))
  else String.singleton c

/-- The number of bytes of one character inside a quoted string. -/
def escapedSize (c : Char) : ℕ :=
  if c = '"' ∨ c = '\\' ∨ c.val = 0x08 ∨ c.val = 0x09 ∨ c.val = 0x0a ∨ c.val = 0x0c ∨
      c.val = 0x0d then 2
  else if c.val < 0x20 then 6
  else c.utf8Size

def escape : List Char → String
  | [] => ""
  | c :: rest => escapeChar c ++ escape rest

def quote (s : String) : String := "\"" ++ escape s.toList ++ "\""

/-- The size of a string with its quotes. -/
def quotedSize (s : String) : ℕ := 2 + (s.toList.map escapedSize).sum

def commaSeparated : List String → String
  | [] => ""
  | [item] => item
  | item :: rest => item ++ "," ++ commaSeparated rest

mutual

/-- The compact text of a value. -/
def encode : Json → String
  | null => "null"
  | bool value => if value then "true" else "false"
  | number value => toString value
  | string value => quote value
  | array items => "[" ++ commaSeparated (encodeItems items) ++ "]"
  | object fields => "\x7b" ++ commaSeparated (encodeFields fields) ++ "\x7d"

def encodeItems : List Json → List String
  | [] => []
  | item :: rest => encode item :: encodeItems rest

def encodeFields : List (String × Json) → List String
  | [] => []
  | (key, value) :: rest => (quote key ++ ":" ++ encode value) :: encodeFields rest

end

mutual

/-- The length of the compact text in bytes. -/
def byteSize : Json → ℕ
  | null => 4
  | bool value => if value then 4 else 5
  | number value => (toString value).utf8ByteSize
  | string value => quotedSize value
  | array items => 2 + itemsSize items + (items.length - 1)
  | object fields => 2 + fieldsSize fields + (fields.length - 1)

def itemsSize : List Json → ℕ
  | [] => 0
  | item :: rest => byteSize item + itemsSize rest

def fieldsSize : List (String × Json) → ℕ
  | [] => 0
  | (key, value) :: rest => quotedSize key + 1 + byteSize value + fieldsSize rest

end

/-- The size of a literal between its quotes, computed from its characters. -/
theorem escapedSize_of_ofList {s : String} {cs : List Char} {n : ℕ} (h : s = String.ofList cs)
    (hn : (cs.map escapedSize).sum = n) : (s.toList.map escapedSize).sum = n := by
  rw [h, String.toList_ofList, hn]

theorem escapedSize_append {s t : String} {m n : ℕ} (hs : (s.toList.map escapedSize).sum = m)
    (ht : (t.toList.map escapedSize).sum = n) :
    ((s ++ t).toList.map escapedSize).sum = m + n := by
  rw [String.toList_append, List.map_append, List.sum_append, hs, ht]

/-! ## The computed length is the length of the text -/

theorem hexDigit_utf8Size {n : ℕ} (h : n < 16) : (hexDigit n).utf8Size = 1 := by
  interval_cases n <;> rfl

theorem escapeChar_utf8ByteSize (c : Char) : (escapeChar c).utf8ByteSize = escapedSize c := by
  unfold escapeChar escapedSize
  by_cases hshort : c = '"' ∨ c = '\\' ∨ c.val = 0x08 ∨ c.val = 0x09 ∨ c.val = 0x0a ∨
      c.val = 0x0c ∨ c.val = 0x0d
  · rw [if_pos hshort]
    split_ifs <;> first | rfl | simp_all
  · rw [if_neg hshort]
    simp only [not_or] at hshort
    obtain ⟨h₁, h₂, h₃, h₄, h₅, h₆, h₇⟩ := hshort
    rw [if_neg h₁, if_neg h₂, if_neg h₃, if_neg h₄, if_neg h₅, if_neg h₆, if_neg h₇]
    split_ifs with hcontrol
    · -- two hexadecimal digits
      have hlow : c.val.toNat < 32 := UInt32.lt_iff_toNat_lt.mp hcontrol
      simp only [String.utf8ByteSize_append, String.utf8ByteSize_singleton,
        hexDigit_utf8Size (show c.val.toNat / 16 < 16 by omega),
        hexDigit_utf8Size (show c.val.toNat % 16 < 16 by omega)]
      rfl
    · exact String.utf8ByteSize_singleton

theorem escape_utf8ByteSize (cs : List Char) :
    (escape cs).utf8ByteSize = (cs.map escapedSize).sum := by
  induction cs with
  | nil => rfl
  | cons c cs ih => simp [escape, escapeChar_utf8ByteSize, ih]

theorem quote_utf8ByteSize (s : String) : (quote s).utf8ByteSize = quotedSize s := by
  have hquote : "\"".utf8ByteSize = 1 := rfl
  simp only [quote, String.utf8ByteSize_append, escape_utf8ByteSize, quotedSize, hquote]
  omega

theorem commaSeparated_utf8ByteSize (items : List String) :
    (commaSeparated items).utf8ByteSize =
      (items.map String.utf8ByteSize).sum + (items.length - 1) := by
  have hcomma : ",".utf8ByteSize = 1 := rfl
  induction items with
  | nil => rfl
  | cons item rest ih =>
    cases rest with
    | nil => simp [commaSeparated]
    | cons next rest =>
      simp only [commaSeparated, String.utf8ByteSize_append, ih, hcomma, List.map_cons,
        List.sum_cons, List.length_cons]
      omega

mutual

theorem encode_utf8ByteSize (value : Json) : (encode value).utf8ByteSize = byteSize value := by
  cases value with
  | null => rfl
  | bool value => cases value <;> rfl
  | number value => rfl
  | string value => exact quote_utf8ByteSize value
  | array items =>
    have hopen : "[".utf8ByteSize = 1 := rfl
    have hclose : "]".utf8ByteSize = 1 := rfl
    obtain ⟨hsum, hlength⟩ := encodeItems_sizes items
    simp only [encode, byteSize, String.utf8ByteSize_append, commaSeparated_utf8ByteSize, hsum,
      hlength, hopen, hclose]
    omega
  | object fields =>
    have hopen : "\x7b".utf8ByteSize = 1 := rfl
    have hclose : "\x7d".utf8ByteSize = 1 := rfl
    obtain ⟨hsum, hlength⟩ := encodeFields_sizes fields
    simp only [encode, byteSize, String.utf8ByteSize_append, commaSeparated_utf8ByteSize, hsum,
      hlength, hopen, hclose]
    omega

theorem encodeItems_sizes (items : List Json) :
    ((encodeItems items).map String.utf8ByteSize).sum = itemsSize items ∧
      (encodeItems items).length = items.length := by
  cases items with
  | nil => exact ⟨rfl, rfl⟩
  | cons item rest =>
    have hitem := encode_utf8ByteSize item
    obtain ⟨hsum, hlength⟩ := encodeItems_sizes rest
    simp [encodeItems, itemsSize, hitem, hsum, hlength]

theorem encodeFields_sizes (fields : List (String × Json)) :
    ((encodeFields fields).map String.utf8ByteSize).sum = fieldsSize fields ∧
      (encodeFields fields).length = fields.length := by
  have hcolon : ":".utf8ByteSize = 1 := rfl
  cases fields with
  | nil => exact ⟨rfl, rfl⟩
  | cons field rest =>
    obtain ⟨key, value⟩ := field
    have hvalue := encode_utf8ByteSize value
    obtain ⟨hsum, hlength⟩ := encodeFields_sizes rest
    simp [encodeFields, fieldsSize, hvalue, hsum, hlength, quote_utf8ByteSize, hcolon]

end

/-! ## Bounds -/

theorem utf8ByteSize_eq_sum (s : String) : s.utf8ByteSize = (s.toList.map Char.utf8Size).sum := by
  have hlen : ∀ cs : List Char, String.utf8Len cs = (cs.map Char.utf8Size).sum := by
    intro cs
    induction cs with
    | nil => rfl
    | cons c cs ih => rw [String.utf8Len_cons, ih, List.map_cons, List.sum_cons, Nat.add_comm]
  rw [← hlen, ← String.utf8ByteSize_ofList, String.ofList_toList]

/-- A string whose characters are all written as they are. -/
theorem quotedSize_of_plain {s : String} (h : ∀ c ∈ s.toList, escapedSize c = c.utf8Size) :
    quotedSize s = 2 + s.utf8ByteSize := by
  rw [quotedSize, utf8ByteSize_eq_sum, List.map_congr_left h]

end Json

end SpineCodex
