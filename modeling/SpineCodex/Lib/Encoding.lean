import SpineCodex.Lib.Text

/-!
# Texts as bytes

The UTF-8 encoding of a text determines the text, and lowering the ASCII capitals of a text lowers the
same bytes of its encoding.
-/

namespace SpineCodex

/-! ## Encoding -/

/-- No encoding of a character starts with that of another one. -/
theorem eq_of_utf8EncodeChar_append {c d : Char} {x y : List UInt8}
    (h : String.utf8EncodeChar c ++ x = String.utf8EncodeChar d ++ y) : c = d := by
  have hdecode : ∀ (c : Char) (x : List UInt8),
      (String.utf8EncodeChar c ++ x).toByteArray.utf8DecodeChar? 0 = some c := by
    intro c x
    have hfirst : (String.utf8EncodeChar c).toByteArray.utf8DecodeChar? 0 = some c := by
      rw [← List.utf8Encode_singleton]
      exact List.utf8DecodeChar?_utf8Encode_singleton
    rw [List.toByteArray_append]
    exact ByteArray.utf8DecodeChar?_append_eq_some hfirst _
  have hsome := hdecode c x
  rw [h, hdecode d y] at hsome
  exact (Option.some.inj hsome).symm

theorem asBytes_cons (c : Char) (text : List Char) :
    asBytes (c :: text) = String.utf8EncodeChar c ++ asBytes text := List.flatMap_cons

/-- The text of a valid prefix is a prefix of the text. -/
theorem isPrefix_of_asBytes {text other : List Char} (h : asBytes text <+: asBytes other) :
    text <+: other := by
  induction text generalizing other with
  | nil => exact List.nil_prefix
  | cons c text ih =>
    obtain ⟨rest, hrest⟩ := h
    cases other with
    | nil =>
      rw [asBytes_nil, List.append_eq_nil_iff] at hrest
      exact absurd hrest.1 (asBytes_ne_nil (List.cons_ne_nil c text))
    | cons d other =>
      rw [asBytes_cons, asBytes_cons, List.append_assoc] at hrest
      obtain rfl := eq_of_utf8EncodeChar_append hrest
      exact List.cons_prefix_cons.mpr ⟨rfl, ih ⟨rest, List.append_cancel_left hrest⟩⟩

theorem asBytes_injective : Function.Injective asBytes := by
  intro text other h
  apply (isPrefix_of_asBytes (h ▸ List.prefix_refl _)).eq_of_length_le
  exact (isPrefix_of_asBytes (h ▸ List.prefix_refl (asBytes text))).length_le

/-- An ASCII byte in the encoding of a text is that of a character of the text. -/
theorem mem_asBytes_of_ascii {c : Char} (hc : c.toNat < 128) {text : List Char}
    (h : UInt8.ofNat c.toNat ∈ asBytes text) : c ∈ text := by
  obtain ⟨d, hd, hbyte⟩ := List.mem_flatMap.mp h
  have hcode : d.toNat = c.toNat := by
    have hval : d.val.toNat = d.toNat := rfl
    unfold String.utf8EncodeChar at hbyte
    dsimp only at hbyte
    rw [hval] at hbyte
    -- the bytes of longer encodings are at least 128
    split_ifs at hbyte <;>
      simp only [List.mem_cons, List.not_mem_nil, or_false, ← UInt8.toNat_inj,
        UInt8.toNat_ofNat'] at hbyte <;> omega
  rw [← toNat_inj hcode]
  exact hd

/-! ## ASCII case of bytes -/

/-- An ASCII capital lowered. -/
def lowerByte (c : UInt8) : UInt8 := if 65 ≤ c ∧ c ≤ 90 then c + 32 else c

theorem sameIgnoreAsciiCase_iff {first second : List UInt8} :
    sameIgnoreAsciiCase first second = true ↔ first.map lowerByte = second.map lowerByte := by
  induction first generalizing second with
  | nil => cases second <;> simp [sameIgnoreAsciiCase]
  | cons a first ih =>
    cases second with
    | nil => simp [sameIgnoreAsciiCase]
    | cons b second =>
      have hrest := @ih second
      have hbyte : eqIgnoreAsciiCase a b = true ↔ lowerByte a = lowerByte b := beq_iff_eq
      simp only [sameIgnoreAsciiCase, Bool.and_eq_true, beq_iff_eq] at hrest
      simp only [sameIgnoreAsciiCase, List.length_cons, List.zip_cons_cons, List.all_cons,
        Bool.and_eq_true, beq_iff_eq, Nat.add_right_cancel_iff, List.map_cons, List.cons.injEq,
        ← hrest, hbyte]
      tauto

theorem toNat_lowerByte (c : UInt8) :
    (lowerByte c).toNat = if 65 ≤ c.toNat ∧ c.toNat ≤ 90 then c.toNat + 32 else c.toNat := by
  have hrange : (65 ≤ c ∧ c ≤ 90) ↔ (65 ≤ c.toNat ∧ c.toNat ≤ 90) := Iff.rfl
  simp only [lowerByte, hrange]
  split_ifs with h
  · rw [UInt8.toNat_add]
    change (c.toNat + 32) % 256 = _
    omega
  · rfl

theorem lowerByte_lowerByte (c : UInt8) : lowerByte (lowerByte c) = lowerByte c := by
  apply UInt8.toNat_inj.mp
  rw [toNat_lowerByte, toNat_lowerByte]
  split_ifs <;> omega

/-- Lowering neither makes nor removes a byte before the capitals. -/
theorem lowerByte_eq_iff {c d : UInt8} (hd : d < 65) : lowerByte c = d ↔ c = d := by
  have hlt : d.toNat < 65 := hd
  rw [← UInt8.toNat_inj, ← UInt8.toNat_inj, toNat_lowerByte]
  split_ifs <;> omega

theorem lowerByte_ofNat {n : ℕ} (hn : n < 128) :
    lowerByte (UInt8.ofNat n) = UInt8.ofNat (if 65 ≤ n ∧ n ≤ 90 then n + 32 else n) := by
  apply UInt8.toNat_inj.mp
  rw [toNat_lowerByte, UInt8.toNat_ofNat', UInt8.toNat_ofNat']
  split_ifs <;> omega

theorem lowerByte_ofNat_of_le {n : ℕ} (h : 128 ≤ n) (hn : n < 256) :
    lowerByte (UInt8.ofNat n) = UInt8.ofNat n := by
  apply UInt8.toNat_inj.mp
  rw [toNat_lowerByte, UInt8.toNat_ofNat', Nat.mod_eq_of_lt hn, if_neg (by omega)]

/-- Only the encodings of ASCII capitals have bytes that are lowered. -/
theorem utf8EncodeChar_toLower (c : Char) :
    String.utf8EncodeChar c.toLower = (String.utf8EncodeChar c).map lowerByte := by
  have hlower : c.toLower.val.toNat =
      if 65 ≤ c.val.toNat ∧ c.val.toNat ≤ 90 then c.val.toNat + 32 else c.val.toNat := toNat_toLower c
  unfold String.utf8EncodeChar
  dsimp only
  rw [hlower]
  generalize c.val.toNat = n
  by_cases hn : n ≤ 127
  · have hcode : (if 65 ≤ n ∧ n ≤ 90 then n + 32 else n) ≤ 127 := by split_ifs <;> omega
    rw [if_pos hcode, if_pos hn, List.map_singleton, lowerByte_ofNat (by omega)]
  · rw [if_neg (show ¬ (65 ≤ n ∧ n ≤ 90) by omega), if_neg hn]
    split_ifs <;> simp (disch := omega) only [List.map_cons, List.map_nil, lowerByte_ofNat_of_le]

theorem asBytes_lower (text : List Char) : asBytes (lower text) = (asBytes text).map lowerByte := by
  induction text with
  | nil => rfl
  | cons c text ih =>
    calc
      asBytes (lower (c :: text)) = String.utf8EncodeChar c.toLower ++ asBytes (lower text) :=
        asBytes_cons _ _
      _ = (String.utf8EncodeChar c).map lowerByte ++ (asBytes text).map lowerByte := by
        rw [utf8EncodeChar_toLower, ih]
      _ = (asBytes (c :: text)).map lowerByte := by rw [asBytes_cons, List.map_append]

theorem lower_eq_of_sameIgnoreAsciiCase {text other : List Char}
    (h : sameIgnoreAsciiCase (asBytes text) (asBytes other) = true) : lower text = lower other := by
  apply asBytes_injective
  rw [asBytes_lower, asBytes_lower]
  exact sameIgnoreAsciiCase_iff.mp h

end SpineCodex
