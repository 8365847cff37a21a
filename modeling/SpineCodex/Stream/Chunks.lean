import Mathlib

/-!
# Parsers of streamed text

Text arrives in chunks. A parser keeps a state between them and yields visible text and extracted
payloads for each chunk and at the end of the stream. If a state stands for a meaning of the text that
is still to come, and every push splits off its share of that meaning, the cut into chunks does not
show.
-/

namespace SpineCodex

/-- What one pushed chunk, or the end of the stream, yields. -/
structure StreamTextChunk (ε : Type) where
  visibleText : List Char := []
  extracted : List ε := []
  deriving DecidableEq

namespace StreamTextChunk

variable {ε : Type}

instance : Append (StreamTextChunk ε) where
  append first second :=
    ⟨first.visibleText ++ second.visibleText, first.extracted ++ second.extracted⟩

theorem mk_append_mk (text more : List Char) (found others : List ε) :
    (⟨text, found⟩ : StreamTextChunk ε) ++ ⟨more, others⟩ = ⟨text ++ more, found ++ others⟩ := rfl

@[simp] theorem nil_append (chunk : StreamTextChunk ε) : ⟨[], []⟩ ++ chunk = chunk := rfl

@[simp] theorem append_nil (chunk : StreamTextChunk ε) : chunk ++ ⟨[], []⟩ = chunk := by
  obtain ⟨text, found⟩ := chunk
  rw [mk_append_mk, List.append_nil, List.append_nil]

theorem append_assoc (first second third : StreamTextChunk ε) :
    first ++ second ++ third = first ++ (second ++ third) := by
  change StreamTextChunk.mk _ _ = StreamTextChunk.mk _ _
  congr 1
  · exact List.append_assoc ..
  · exact List.append_assoc ..

end StreamTextChunk

/-- A parser of streamed text, on its states. -/
structure StreamTextParser (σ ε : Type) where
  pushStr : σ → List Char → σ × StreamTextChunk ε
  finish : σ → σ × StreamTextChunk ε

namespace StreamTextParser

variable {σ ε : Type} (parser : StreamTextParser σ ε)

/-- The state after some chunks. -/
def pushAll (state : σ) (chunks : List (List Char)) : σ :=
  chunks.foldl (fun state chunk ↦ (parser.pushStr state chunk).1) state

/-- All that the chunks and the end of the stream yield. -/
def parseAll (state : σ) : List (List Char) → StreamTextChunk ε
  | [] => (parser.finish state).2
  | chunk :: chunks =>
    (parser.pushStr state chunk).2 ++ parseAll (parser.pushStr state chunk).1 chunks

variable {parser} {valid : σ → Prop} {meaning : σ → List Char → StreamTextChunk ε}

/-- Each push splits off its share of the meaning of the text to come. -/
structure Means (parser : StreamTextParser σ ε) (valid : σ → Prop)
    (meaning : σ → List Char → StreamTextChunk ε) : Prop where
  valid_push {state : σ} (chunk : List Char) : valid state → valid (parser.pushStr state chunk).1
  meaning_push {state : σ} (chunk text : List Char) : valid state →
    meaning state (chunk ++ text) =
      (parser.pushStr state chunk).2 ++ meaning (parser.pushStr state chunk).1 text
  meaning_end {state : σ} : valid state → meaning state [] = (parser.finish state).2

theorem Means.valid_pushAll (h : parser.Means valid meaning) {state : σ} (hstate : valid state)
    (chunks : List (List Char)) : valid (parser.pushAll state chunks) := by
  induction chunks generalizing state with
  | nil => exact hstate
  | cons chunk chunks ih => exact ih (h.valid_push chunk hstate)

/-- Whatever the cut into chunks, the parser yields the meaning of the whole text. -/
theorem Means.parseAll_eq (h : parser.Means valid meaning) {state : σ} (hstate : valid state)
    (chunks : List (List Char)) : parser.parseAll state chunks = meaning state chunks.flatten := by
  induction chunks generalizing state with
  | nil => exact (h.meaning_end hstate).symm
  | cons chunk chunks ih =>
    rw [parseAll, ih (h.valid_push chunk hstate), List.flatten_cons, h.meaning_push _ _ hstate]

end StreamTextParser

end SpineCodex
