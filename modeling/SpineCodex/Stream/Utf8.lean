import SpineCodex.Lib.Encoding
import SpineCodex.Stream.Chunks

/-!
# Streams of bytes decoded as they arrive

A parser of streamed text is fed with bytes. What is not yet a whole code point is kept for the next
chunk, and a chunk that makes the bytes invalid is refused. The decoder of the standard library is a
parameter, with what its documentation says of it.
-/

namespace SpineCodex

/-! ## Code points in UTF-8 -/

/-- A proper prefix of the encoding of one code point. -/
def Incomplete (bytes : List UInt8) : Prop :=
  ∃ c : Char, bytes <+: String.utf8EncodeChar c ∧ bytes ≠ String.utf8EncodeChar c

theorem incomplete_nil : Incomplete [] :=
  ⟨'a', List.nil_prefix, String.utf8EncodeChar_ne_nil.symm⟩

/-- No code point ends within an incomplete one. -/
theorem Incomplete.eq_nil {bytes : List UInt8} (h : Incomplete bytes) {text : List Char}
    (htext : asBytes text <+: bytes) : text = [] := by
  obtain ⟨d, hbytes, hne⟩ := h
  cases text with
  | nil => rfl
  | cons c text =>
    rw [asBytes_cons] at htext
    have hfirst : String.utf8EncodeChar c <+: bytes := (List.prefix_append _ _).trans htext
    obtain ⟨rest, hrest⟩ := hfirst.trans hbytes
    rw [← List.append_nil (String.utf8EncodeChar d)] at hrest
    obtain rfl := eq_of_utf8EncodeChar_append hrest
    exact absurd (hbytes.eq_of_length_le hfirst.length_le) hne

/-- The text is that of the longest prefix of the bytes that is valid UTF-8. -/
structure LongestValidPart (bytes : List UInt8) (text : List Char) : Prop where
  valid : asBytes text <+: bytes
  longest : ∀ other, asBytes other <+: bytes → (asBytes other).length ≤ (asBytes text).length

theorem longestValidPart_of_incomplete {bytes rest : List UInt8} {text : List Char}
    (h : bytes = asBytes text ++ rest) (hrest : Incomplete rest) : LongestValidPart bytes text := by
  have hvalid : asBytes text <+: bytes := ⟨rest, h.symm⟩
  refine ⟨hvalid, fun other hother ↦ ?_⟩
  by_contra hlonger
  push Not at hlonger
  obtain ⟨more, rfl⟩ := isPrefix_of_asBytes (List.prefix_of_prefix_length_le hvalid hother hlonger.le)
  rw [h, asBytes_append, List.prefix_append_right_inj] at hother
  rw [hrest.eq_nil hother, List.append_nil] at hlonger
  exact lt_irrefl _ hlonger

/-! ## The decoder of the standard library -/

structure Utf8Error where
  validUpTo : ℕ
  errorLen : Option ℕ

/-- `std::str::from_utf8`: an error says how far the bytes are valid, and has no length where they
only end too early. -/
structure Utf8Decoder where
  fromUtf8 : List UInt8 → Except Utf8Error (List Char)
  ok_iff {bytes : List UInt8} {text : List Char} : fromUtf8 bytes = .ok text ↔ bytes = asBytes text
  valid_take {bytes : List UInt8} {err : Utf8Error} :
    fromUtf8 bytes = .error err → ∃ text, bytes.take err.validUpTo = asBytes text
  errorLen_iff {bytes : List UInt8} {err : Utf8Error} :
    fromUtf8 bytes = .error err → (err.errorLen = none ↔ Incomplete (bytes.drop err.validUpTo))

open Classical in
/-- The decoder that the documentation describes. -/
noncomputable def stdUtf8 : Utf8Decoder where
  fromUtf8 bytes :=
    if h : ∃ text, bytes = asBytes text then .ok h.choose
    else
      let validUpTo := Nat.findGreatest (fun n ↦ ∃ text, bytes.take n = asBytes text) bytes.length
      .error ⟨validUpTo, if Incomplete (bytes.drop validUpTo) then none else some 1⟩
  ok_iff {bytes text} := by
    split_ifs with h
    · rw [Except.ok.injEq]
      constructor
      · rintro rfl
        exact h.choose_spec
      · intro htext
        exact asBytes_injective (h.choose_spec.symm.trans htext)
    · exact iff_of_false id fun htext ↦ h ⟨text, htext⟩
  valid_take {bytes err} h := by
    split_ifs at h
    obtain rfl := Except.error.inj h
    let valid (n : ℕ) : Prop := ∃ text, bytes.take n = asBytes text
    have hzero : valid 0 := ⟨[], by simp⟩
    exact Nat.findGreatest_spec (P := valid) (Nat.zero_le _) hzero
  errorLen_iff {bytes err} h := by
    split_ifs at h
    obtain rfl := Except.error.inj h
    dsimp only
    split_ifs with hincomplete <;> simp [hincomplete]

/-! ## The parser -/

inductive Utf8StreamParserError where
  | invalidUtf8 (validUpTo errorLen : ℕ)
  | incompleteUtf8AtEof

structure Utf8StreamParser (σ : Type) where
  inner : σ
  pendingUtf8 : List UInt8

namespace Utf8StreamParser

variable {σ ε : Type} (decoder : Utf8Decoder) (text : StreamTextParser σ ε)

def new (inner : σ) : Utf8StreamParser σ := ⟨inner, []⟩

def pushBytes (parser : Utf8StreamParser σ) (chunk : List UInt8) :
    Utf8StreamParser σ × Except Utf8StreamParserError (StreamTextChunk ε) :=
  let oldLen := parser.pendingUtf8.length
  let pending := parser.pendingUtf8 ++ chunk
  match decoder.fromUtf8 pending with
  | .ok decoded => (⟨(text.pushStr parser.inner decoded).1, []⟩, .ok (text.pushStr parser.inner decoded).2)
  | .error err =>
    match err.errorLen with
    | some errorLen =>
      (⟨parser.inner, pending.take oldLen⟩, .error (.invalidUtf8 err.validUpTo errorLen))
    | none =>
      if err.validUpTo = 0 then (⟨parser.inner, pending⟩, .ok {})
      else match decoder.fromUtf8 (pending.take err.validUpTo) with
        | .ok decoded => (⟨(text.pushStr parser.inner decoded).1, pending.drop err.validUpTo⟩,
            .ok (text.pushStr parser.inner decoded).2)
        | .error prefixErr => (⟨parser.inner, pending.take oldLen⟩,
            .error (.invalidUtf8 prefixErr.validUpTo (prefixErr.errorLen.getD 0)))

def finish (parser : Utf8StreamParser σ) :
    Utf8StreamParser σ × Except Utf8StreamParserError (StreamTextChunk ε) :=
  match decoder.fromUtf8 parser.pendingUtf8 with
  | .error err => (parser, .error (err.errorLen.elim .incompleteUtf8AtEof (.invalidUtf8 err.validUpTo)))
  | .ok decoded =>
    let (inner, out) :=
      if parser.pendingUtf8 = [] then (parser.inner, {}) else text.pushStr parser.inner decoded
    let (inner, tail) := text.finish inner
    (⟨inner, []⟩, .ok ⟨out.visibleText ++ tail.visibleText, out.extracted ++ tail.extracted⟩)

/-- What a push does: it is refused and changes nothing, or it hands over some text and keeps an
incomplete rest. -/
theorem pushBytes_cases (parser : Utf8StreamParser σ) (chunk : List UInt8) :
    (parser.pushBytes decoder text chunk).1 = parser ∧
        (parser.pushBytes decoder text chunk).2.isOk = false ∨
      (parser.pushBytes decoder text chunk).2.isOk = true ∧ ∃ decoded rest,
        parser.pendingUtf8 ++ chunk = asBytes decoded ++ rest ∧ Incomplete rest ∧
        ((parser.pushBytes decoder text chunk).1 = ⟨(text.pushStr parser.inner decoded).1, rest⟩ ∨
          decoded = [] ∧ (parser.pushBytes decoder text chunk).1 = ⟨parser.inner, rest⟩) := by
  unfold pushBytes
  dsimp only
  cases hdecode : decoder.fromUtf8 (parser.pendingUtf8 ++ chunk) with
  | ok decoded =>
    refine .inr ⟨rfl, decoded, [], ?_, incomplete_nil, .inl rfl⟩
    rw [List.append_nil]
    exact decoder.ok_iff.mp hdecode
  | error err =>
    obtain ⟨validUpTo, errorLen⟩ := err
    cases errorLen with
    | some errorLen =>
      dsimp only
      rw [List.take_left]
      exact .inl ⟨rfl, rfl⟩
    | none =>
      have hrest := (decoder.errorLen_iff hdecode).mp rfl
      obtain ⟨decoded, hvalid⟩ := decoder.valid_take hdecode
      have hsplit := (List.take_append_drop validUpTo (parser.pendingUtf8 ++ chunk)).symm
      dsimp only at hrest hvalid ⊢
      rw [hvalid] at hsplit
      split_ifs with hzero
      · rw [hzero, List.drop_zero] at hrest
        exact .inr ⟨rfl, [], _, rfl, hrest, .inr ⟨rfl, rfl⟩⟩
      · rw [decoder.ok_iff.mpr hvalid]
        exact .inr ⟨rfl, decoded, _, hsplit, hrest, .inl rfl⟩

/-! ## Sequences of chunks -/

/-- The chunks pushed one after another, each with its answer. -/
def feed (parser : Utf8StreamParser σ) : List (List UInt8) →
    Utf8StreamParser σ × List (List UInt8 × Except Utf8StreamParserError (StreamTextChunk ε))
  | [] => (parser, [])
  | chunk :: chunks =>
    let pushed := parser.pushBytes decoder text chunk
    let later := pushed.1.feed chunks
    (later.1, (chunk, pushed.2) :: later.2)

/-- The chunks that were not refused. -/
def accepted (answers : List (List UInt8 × Except Utf8StreamParserError (StreamTextChunk ε))) :
    List (List UInt8) :=
  (answers.filter (·.2.isOk)).map Prod.fst

/-- The inner state after some texts have been pushed. -/
def handOver (inner : σ) (texts : List (List Char)) : σ :=
  texts.foldl (fun state piece ↦ (text.pushStr state piece).1) inner

variable {decoder text}

/-- What was handed over and what is pending make up the accepted bytes. -/
structure Decoded (text : StreamTextParser σ ε) (inner : σ) (bytes : List UInt8) (texts : List (List Char))
    (parser : Utf8StreamParser σ) : Prop where
  bytes_eq : bytes = asBytes texts.flatten ++ parser.pendingUtf8
  incomplete : Incomplete parser.pendingUtf8
  inner_eq : parser.inner = handOver text inner texts

theorem Decoded.push {inner : σ} {bytes : List UInt8} {texts : List (List Char)}
    {parser : Utf8StreamParser σ} (h : Decoded text inner bytes texts parser) {chunk : List UInt8}
    (hok : (parser.pushBytes decoder text chunk).2.isOk = true) :
    ∃ texts', Decoded text inner (bytes ++ chunk) texts' (parser.pushBytes decoder text chunk).1 := by
  rcases pushBytes_cases decoder text parser chunk with ⟨-, hfail⟩ | ⟨-, decoded, rest, hbytes, hrest, hstate⟩
  · rw [hok] at hfail
    cases hfail
  · have hall : bytes ++ chunk = asBytes (texts.flatten ++ decoded) ++ rest := by
      calc bytes ++ chunk = asBytes texts.flatten ++ (parser.pendingUtf8 ++ chunk) := by
            rw [h.bytes_eq, List.append_assoc]
        _ = asBytes (texts.flatten ++ decoded) ++ rest := by
            rw [hbytes, asBytes_append, List.append_assoc]
    rcases hstate with hstate | ⟨rfl, hstate⟩
    · refine ⟨texts ++ [decoded], ?_, ?_, ?_⟩ <;> rw [hstate]
      · rw [hall, List.flatten_append, List.flatten_singleton]
      · exact hrest
      · rw [handOver, List.foldl_append]
        exact congrArg (fun state ↦ (text.pushStr state decoded).1) h.inner_eq
    · rw [List.append_nil] at hall
      rw [hstate]
      exact ⟨texts, hall, hrest, h.inner_eq⟩

variable (decoder) in
theorem Decoded.feed {inner : σ} {bytes : List UInt8} {texts : List (List Char)}
    {parser : Utf8StreamParser σ} (h : Decoded text inner bytes texts parser)
    (chunks : List (List UInt8)) :
    ∃ texts', Decoded text inner (bytes ++ (accepted (parser.feed decoder text chunks).2).flatten) texts'
      (parser.feed decoder text chunks).1 := by
  induction chunks generalizing bytes texts parser with
  | nil => exact ⟨texts, by simpa [accepted, Utf8StreamParser.feed] using h⟩
  | cons chunk chunks ih =>
    by_cases hok : (parser.pushBytes decoder text chunk).2.isOk = true
    · obtain ⟨texts', h'⟩ := h.push hok
      have hrest := ih h'
      rw [List.append_assoc] at hrest
      simpa [accepted, Utf8StreamParser.feed, List.filter_cons, hok] using hrest
    · -- a refused chunk leaves the parser as it was
      have hsame : (parser.pushBytes decoder text chunk).1 = parser := by
        rcases pushBytes_cases decoder text parser chunk with ⟨hsame, -⟩ | ⟨hyes, -⟩
        · exact hsame
        · exact absurd hyes hok
      have hrest := ih h
      simpa [accepted, Utf8StreamParser.feed, List.filter_cons, hok, hsame] using hrest

/-- The accepted chunks alone lead to the same parser with the same answers. -/
theorem feed_accepted (parser : Utf8StreamParser σ) (chunks : List (List UInt8)) :
    parser.feed decoder text (accepted (parser.feed decoder text chunks).2) =
      ((parser.feed decoder text chunks).1,
        (parser.feed decoder text chunks).2.filter (·.2.isOk)) := by
  induction chunks generalizing parser with
  | nil => rfl
  | cons chunk chunks ih =>
    rcases pushBytes_cases decoder text parser chunk with ⟨hsame, hfail⟩ | ⟨hok, -⟩
    · simpa [accepted, feed, hsame, hfail] using ih parser
    · have hrest := ih (parser.pushBytes decoder text chunk).1
      simp only [accepted, feed, List.filter_cons, hok, if_true, List.map_cons] at hrest ⊢
      rw [hrest]

/-- Whatever chunks are fed, the inner parser has been given the longest valid part of the accepted
bytes, a proper prefix of one code point is kept back, and a refused chunk leaves no trace. -/
theorem feed_decodes (decoder : Utf8Decoder) (text : StreamTextParser σ ε) (inner : σ)
    (chunks : List (List UInt8)) :
    (∃ texts, ((new inner).feed decoder text chunks).1.inner = handOver text inner texts ∧
      LongestValidPart (accepted ((new inner).feed decoder text chunks).2).flatten texts.flatten ∧
      (accepted ((new inner).feed decoder text chunks).2).flatten =
        asBytes texts.flatten ++ ((new inner).feed decoder text chunks).1.pendingUtf8) ∧
    Incomplete ((new inner).feed decoder text chunks).1.pendingUtf8 ∧
    (∀ chunk, (((new inner).feed decoder text chunks).1.pushBytes decoder text chunk).2.isOk = false →
      (((new inner).feed decoder text chunks).1.pushBytes decoder text chunk).1 =
        ((new inner).feed decoder text chunks).1) ∧
    (new inner).feed decoder text (accepted ((new inner).feed decoder text chunks).2) =
      (((new inner).feed decoder text chunks).1,
        ((new inner).feed decoder text chunks).2.filter (·.2.isOk)) := by
  have hstart : Decoded text inner [] [] (new inner) := ⟨rfl, incomplete_nil, rfl⟩
  obtain ⟨texts, hdecoded⟩ := Decoded.feed decoder hstart chunks
  rw [List.nil_append] at hdecoded
  refine ⟨⟨texts, hdecoded.inner_eq,
    longestValidPart_of_incomplete hdecoded.bytes_eq hdecoded.incomplete, hdecoded.bytes_eq⟩,
    hdecoded.incomplete, fun chunk hfail ↦ ?_, feed_accepted (new inner) chunks⟩
  rcases pushBytes_cases decoder text _ chunk with ⟨hsame, -⟩ | ⟨hok, -⟩
  · exact hsame
  · rw [hok] at hfail
    cases hfail

/-- A parser that shows every text it is given. -/
def echo : StreamTextParser Unit Empty where
  pushStr _ piece := ((), ⟨piece, []⟩)
  finish _ := ((), {})

/-- Both bytes of a letter, with a refused one between them. -/
theorem split_letter_kept_back :
    Incomplete ((new ()).feed stdUtf8 echo [[0xc3], [0x28], [0xa9]]).1.pendingUtf8 :=
  (feed_decodes stdUtf8 echo () [[0xc3], [0x28], [0xa9]]).2.1

variable (decoder) in
/-- The decoder reports an incomplete code point as one that ends too early. -/
theorem fromUtf8_incomplete {bytes : List UInt8} (h : Incomplete bytes) (hne : bytes ≠ []) :
    ∃ err, decoder.fromUtf8 bytes = .error err ∧ err.errorLen = none := by
  cases hdecode : decoder.fromUtf8 bytes with
  | ok decoded =>
    have hbytes := decoder.ok_iff.mp hdecode
    obtain rfl : decoded = [] := h.eq_nil (hbytes ▸ List.prefix_rfl)
    exact absurd hbytes hne
  | error err =>
    obtain ⟨decoded, hvalid⟩ := decoder.valid_take hdecode
    obtain rfl := h.eq_nil (hvalid ▸ List.take_prefix _ _)
    have hzero := (List.take_eq_nil_iff.mp hvalid).resolve_right hne
    exact ⟨err, rfl, (decoder.errorLen_iff hdecode).mpr (by rwa [hzero])⟩

/-- At the end of the stream the inner parser is finished if it was given all accepted bytes; else
they end within a code point, and the parser is left as it was. -/
theorem finish_after_feed (decoder : Utf8Decoder) (text : StreamTextParser σ ε) (inner : σ)
    (chunks : List (List UInt8)) :
    let fed := (new inner).feed decoder text chunks
    ∃ texts rest, (accepted fed.2).flatten = asBytes texts.flatten ++ rest ∧ Incomplete rest ∧
      fed.1.finish decoder text =
        if rest = [] then (text.finish (handOver text inner texts)).map (⟨·, []⟩) .ok
        else (fed.1, .error .incompleteUtf8AtEof) := by
  intro fed
  obtain ⟨texts, hbytes, hrest, hinner⟩ := Decoded.feed decoder
    (⟨rfl, incomplete_nil, rfl⟩ : Decoded text inner [] [] (new inner)) chunks
  refine ⟨texts, _, hbytes, hrest, ?_⟩
  split_ifs with hpending
  · have hempty : decoder.fromUtf8 [] = .ok [] := decoder.ok_iff.mpr rfl
    simp [finish, fed, hpending, hempty, ← hinner, Prod.map]
  · obtain ⟨err, hdecode, hlen⟩ := fromUtf8_incomplete decoder hrest hpending
    simp [finish, fed, hdecode, hlen]

end Utf8StreamParser

end SpineCodex
