import SpineCodex.Lib.LastItems

/-!
# Output capture with a bounded head and tail

The output of a running process is kept in a buffer that holds the first half of its capacity as
a stable head and the rest as a sliding tail, and counts the bytes dropped in between.  Buffers
are appended to one another with several shortcuts: an empty head takes over the later one, a full
later tail replaces everything kept so far, an empty tail takes over a partial one.

`capture` says what a buffer should hold for a given output.  Both ways of appending commute with
it, so a buffer depends on the output alone and not on how the output was cut and grouped.
-/

namespace SpineCodex

open LastItems

/-- A capped buffer, with half of its capacity for the head and the rest for the tail. -/
structure HeadTailBuffer (maxBytes : ℕ) where
  head : List UInt8
  tail : List UInt8
  omittedBytes : ℕ
deriving DecidableEq

namespace HeadTailBuffer

variable {maxBytes : ℕ}

def headBudget (maxBytes : ℕ) : ℕ :=
  maxBytes / 2

def tailBudget (maxBytes : ℕ) : ℕ :=
  maxBytes - headBudget maxBytes

/-- Addition of machine words, the largest of which is `usizeMax`. -/
def saturatingAdd (usizeMax a b : ℕ) : ℕ :=
  min (a + b) usizeMax

/-- The buffer before any output. -/
def default (maxBytes : ℕ) : HeadTailBuffer maxBytes :=
  ⟨[], [], 0⟩

def retainedBytes (self : HeadTailBuffer maxBytes) : ℕ :=
  self.head.length + self.tail.length

/-- Fill the head and return the bytes that did not fit. -/
def fillHead (self : HeadTailBuffer maxBytes) (chunk : List UInt8) :
    HeadTailBuffer maxBytes × List UInt8 :=
  let remainingHead := headBudget maxBytes - self.head.length
  -- A shorter chunk has no such split and fits as a whole.
  let (chunkHead, chunkTail) :=
    if remainingHead ≤ chunk.length then (chunk.take remainingHead, chunk.drop remainingHead)
    else (chunk, [])
  ({ self with head := self.head ++ chunkHead }, chunkTail)

/-- Append bytes that do not belong in the head, keeping the newest ones. -/
def pushTail (usizeMax : ℕ) (self : HeadTailBuffer maxBytes) (chunk : List UInt8) :
    HeadTailBuffer maxBytes :=
  let remainingTail := tailBudget maxBytes - self.tail.length
  let excessTail := chunk.length - remainingTail
  let omittedBytes := saturatingAdd usizeMax self.omittedBytes excessTail
  if excessTail < self.tail.length then
    { self with tail := self.tail.drop excessTail ++ chunk, omittedBytes := omittedBytes }
  else
    { self with tail := chunk.drop (excessTail - self.tail.length), omittedBytes := omittedBytes }

def pushChunk (usizeMax : ℕ) (self : HeadTailBuffer maxBytes) (chunk : List UInt8) :
    HeadTailBuffer maxBytes :=
  let (self, chunk) := self.fillHead chunk
  self.pushTail usizeMax chunk

/-- Append the tail of a later buffer, before which the bytes `overflow` of its head did not fit.
The tail is a ring whose storage wraps around after `wrap` bytes, so it is copied in two slices. -/
def pushLaterTail (usizeMax : ℕ) (self : HeadTailBuffer maxBytes) (overflow : List UInt8)
    (wrap : ℕ) (tail : List UInt8) : HeadTailBuffer maxBytes :=
  -- A full later tail displaces both the old tail and the unused bytes of the later head.
  if tail.length = tailBudget maxBytes then
    { self with
      tail := tail
      omittedBytes := saturatingAdd usizeMax
        (saturatingAdd usizeMax self.omittedBytes self.tail.length) overflow.length }
  else
    let self := self.pushTail usizeMax overflow
    if self.tail.isEmpty then { self with tail := tail }
    else (self.pushTail usizeMax (tail.take wrap)).pushTail usizeMax (tail.drop wrap)

/-- Append a later buffer of the same capacity. -/
def pushBuffer (usizeMax : ℕ) (self : HeadTailBuffer maxBytes) (wrap : ℕ)
    (buffer : HeadTailBuffer maxBytes) : HeadTailBuffer maxBytes :=
  let self :=
    { self with omittedBytes := saturatingAdd usizeMax self.omittedBytes buffer.omittedBytes }
  let (self, overflow) :=
    if self.head.isEmpty then ({ self with head := buffer.head }, []) else self.fillHead buffer.head
  self.pushLaterTail usizeMax overflow wrap buffer.tail

/-! ### What a buffer should hold -/

/-- A buffer with the given head, behind which the bytes `rest` came. -/
def withRest (usizeMax : ℕ) (head rest : List UInt8) : HeadTailBuffer maxBytes where
  head := head
  tail := rest.rtake (tailBudget maxBytes)
  omittedBytes := min (rest.length - tailBudget maxBytes) usizeMax

/-- What is kept of an output: its first bytes, the last of those that follow, and the number of
bytes in between. -/
def capture (usizeMax : ℕ) (output : List UInt8) : HeadTailBuffer maxBytes :=
  withRest usizeMax (output.take (headBudget maxBytes)) (output.drop (headBudget maxBytes))

section

variable {usizeMax : ℕ} (self : HeadTailBuffer maxBytes) (head rest chunk output : List UInt8)

theorem fillHead_eq :
    self.fillHead chunk =
      ({ self with head := self.head ++ chunk.take (headBudget maxBytes - self.head.length) },
        chunk.drop (headBudget maxBytes - self.head.length)) := by
  unfold fillHead
  by_cases hfits : headBudget maxBytes - self.head.length ≤ chunk.length
  · simp only [if_pos hfits]
  · have hle : chunk.length ≤ headBudget maxBytes - self.head.length := by omega
    simp only [if_neg hfits, List.take_of_length_le hle, List.drop_eq_nil_of_le hle]

/-- Discarding old bytes first and then new ones keeps the newest bytes of all. -/
theorem pushTail_eq (h : self.tail.length ≤ tailBudget maxBytes) :
    self.pushTail usizeMax chunk =
      { self with
        tail := (self.tail ++ chunk).rtake (tailBudget maxBytes)
        omittedBytes := saturatingAdd usizeMax self.omittedBytes
          (self.tail.length + chunk.length - tailBudget maxBytes) } := by
  have hexcess : chunk.length - (tailBudget maxBytes - self.tail.length) =
      self.tail.length + chunk.length - tailBudget maxBytes := by omega
  unfold pushTail
  dsimp only
  rw [hexcess, List.rtake, List.length_append, List.drop_append]
  by_cases hold : self.tail.length + chunk.length - tailBudget maxBytes < self.tail.length
  · rw [if_pos hold, Nat.sub_eq_zero_of_le hold.le, List.drop_zero]
  · rw [if_neg hold, List.drop_eq_nil_of_le (Nat.le_of_not_lt hold), List.nil_append]

theorem pushTail_withRest :
    (withRest usizeMax head rest : HeadTailBuffer maxBytes).pushTail usizeMax chunk =
      withRest usizeMax head (rest ++ chunk) := by
  have hlength := length_rtake rest (tailBudget maxBytes)
  rw [pushTail_eq _ _ (by simp only [withRest]; omega)]
  simp only [withRest, rtake_append_rtake, mk.injEq, true_and, List.length_append, saturatingAdd]
  omega

/-- Filling the head moves the boundary between the head and what follows to its place. -/
theorem fillHead_capture (n : ℕ) (more : List UInt8) :
    ({ head := output.take (headBudget maxBytes), tail := rest, omittedBytes := n } :
        HeadTailBuffer maxBytes).fillHead more =
      ({ head := (output ++ more).take (headBudget maxBytes), tail := rest, omittedBytes := n },
        more.drop (headBudget maxBytes - output.length)) := by
  have hremaining : headBudget maxBytes - (output.take (headBudget maxBytes)).length =
      headBudget maxBytes - output.length := by
    rw [List.length_take]
    omega
  rw [fillHead_eq, hremaining, List.take_append]

theorem pushChunk_capture :
    (capture usizeMax output : HeadTailBuffer maxBytes).pushChunk usizeMax chunk =
      capture usizeMax (output ++ chunk) := by
  unfold pushChunk capture
  conv_lhs => rw [withRest, fillHead_capture]
  change (withRest usizeMax _ _).pushTail usizeMax _ = _
  rw [pushTail_withRest, List.drop_append]

/-- What lies behind the head of two outputs, when the later one comes as its own head and
what lies behind that. -/
theorem drop_append_of_captured (later : List UInt8) (budget : ℕ) :
    (output ++ later).drop budget =
      output.drop budget ++ (later.take budget).drop (budget - output.length) ++
        later.drop budget := by
  have hsplit : later.drop (budget - output.length) =
      (later.take budget).drop (budget - output.length) ++ later.drop budget := by
    calc
      _ = (later.take budget ++ later.drop budget).drop (budget - output.length) := by
        rw [List.take_append_drop]
      _ = (later.take budget).drop (budget - output.length) ++
          (later.drop budget).drop (budget - output.length - (later.take budget).length) :=
        List.drop_append
      _ = _ := by
        rw [List.drop_drop, List.length_take]
        congr 1
        by_cases hshort : later.length ≤ budget
        · rw [List.drop_eq_nil_of_le (by omega), List.drop_eq_nil_of_le hshort]
        · congr 1
          omega
  rw [List.drop_append, hsplit, List.append_assoc]

/-- An empty head can take over the later one: that is what filling it would do. -/
theorem takeHead_eq_fillHead (tail : List UInt8) (n : ℕ) {more : List UInt8}
    (hmore : more.length ≤ headBudget maxBytes) :
    (if head.isEmpty then ((⟨more, tail, n⟩ : HeadTailBuffer maxBytes), [])
      else (⟨head, tail, n⟩ : HeadTailBuffer maxBytes).fillHead more) =
      (⟨head, tail, n⟩ : HeadTailBuffer maxBytes).fillHead more := by
  by_cases hempty : head.isEmpty
  · have hhead : head = [] := List.isEmpty_iff.mp hempty
    rw [if_pos hempty, fillHead_eq, hhead, List.length_nil, Nat.sub_zero, List.nil_append,
      List.take_of_length_le hmore, List.drop_eq_nil_of_le hmore]
  · rw [if_neg hempty]

/-- A later tail is appended as if its bytes had come one after another.  The bytes dropped
behind the later head are counted before. -/
theorem pushLaterTail_eq (overflow : List UInt8) (wrap : ℕ) (later : List UInt8) :
    pushLaterTail usizeMax
        (⟨head, rest.rtake (tailBudget maxBytes), saturatingAdd usizeMax
          (min (rest.length - tailBudget maxBytes) usizeMax)
          (min (later.length - tailBudget maxBytes) usizeMax)⟩ : HeadTailBuffer maxBytes)
        overflow wrap (later.rtake (tailBudget maxBytes)) =
      withRest usizeMax head (rest ++ overflow ++ later) := by
  have hlater := length_rtake later (tailBudget maxBytes)
  have hrest := length_rtake rest (tailBudget maxBytes)
  unfold pushLaterTail
  by_cases hfull : (later.rtake (tailBudget maxBytes)).length = tailBudget maxBytes
  · rw [if_pos hfull, withRest, rtake_append_of_le (by omega)]
    simp only [mk.injEq, true_and, List.length_append, saturatingAdd]
    omega
  · have hshort : later.length < tailBudget maxBytes := by omega
    have hnone : saturatingAdd usizeMax (min (rest.length - tailBudget maxBytes) usizeMax)
        (min (later.length - tailBudget maxBytes) usizeMax) =
          min (rest.length - tailBudget maxBytes) usizeMax := by
      rw [Nat.sub_eq_zero_of_le hshort.le]
      unfold saturatingAdd
      omega
    have hpushed : pushTail usizeMax (⟨head, rest.rtake (tailBudget maxBytes),
        min (rest.length - tailBudget maxBytes) usizeMax⟩ : HeadTailBuffer maxBytes) overflow =
          withRest usizeMax head (rest ++ overflow) :=
      pushTail_withRest head rest overflow
    dsimp only
    rw [if_neg hfull, hnone, rtake_of_length_le hshort.le, hpushed]
    by_cases hempty : (withRest usizeMax head (rest ++ overflow) :
        HeadTailBuffer maxBytes).tail.isEmpty
    · -- The budget is not zero, so an empty tail means that nothing followed the head.
      have hnothing : rest ++ overflow = [] := by
        have hlength := length_rtake (rest ++ overflow) (tailBudget maxBytes)
        rw [show (rest ++ overflow).rtake (tailBudget maxBytes) = [] from
          List.isEmpty_iff.mp hempty, List.length_nil] at hlength
        exact List.eq_nil_of_length_eq_zero (by omega)
      rw [if_pos hempty, hnothing, List.nil_append]
      simp only [withRest, List.length_nil, Nat.zero_sub, rtake_of_length_le hshort.le,
        Nat.sub_eq_zero_of_le hshort.le]
    · rw [if_neg hempty, pushTail_withRest, pushTail_withRest, List.append_assoc _ (later.take wrap),
        List.take_append_drop]

theorem pushBuffer_capture (wrap : ℕ) (later : List UInt8) :
    (capture usizeMax output : HeadTailBuffer maxBytes).pushBuffer usizeMax wrap
        (capture usizeMax later) =
      capture usizeMax (output ++ later) := by
  have hhead : (later.take (headBudget maxBytes)).length ≤ headBudget maxBytes := by
    rw [List.length_take]
    omega
  have htake : (output ++ later.take (headBudget maxBytes)).take (headBudget maxBytes) =
      (output ++ later).take (headBudget maxBytes) := by
    rw [List.take_append, List.take_append, List.take_take, Nat.min_eq_left (Nat.sub_le _ _)]
  unfold pushBuffer capture
  dsimp only [withRest]
  rw [takeHead_eq_fillHead _ _ _ hhead, fillHead_capture, htake]
  dsimp only
  rw [pushLaterTail_eq, ← drop_append_of_captured]
  rfl

end

/-! ### Expressions -/

/-- How a buffer was built: from chunks of output, and from buffers that were themselves built
this way. -/
inductive Expression where
  | default
  | pushChunk (buffer : Expression) (chunk : List UInt8)
  | pushBuffer (buffer : Expression) (wrap : ℕ) (later : Expression)

namespace Expression

/-- The buffer an expression builds. -/
def run (usizeMax maxBytes : ℕ) : Expression → HeadTailBuffer maxBytes
  | default => HeadTailBuffer.default maxBytes
  | pushChunk buffer chunk => (buffer.run usizeMax maxBytes).pushChunk usizeMax chunk
  | pushBuffer buffer wrap later =>
    (buffer.run usizeMax maxBytes).pushBuffer usizeMax wrap (later.run usizeMax maxBytes)

/-- The output that went into an expression. -/
def output : Expression → List UInt8
  | default => []
  | pushChunk buffer chunk => buffer.output ++ chunk
  | pushBuffer buffer _ later => buffer.output ++ later.output

theorem run_eq_capture (usizeMax maxBytes : ℕ) (e : Expression) :
    e.run usizeMax maxBytes = capture usizeMax e.output := by
  induction e with
  | default => simp [run, output, HeadTailBuffer.default, capture, withRest]
  | pushChunk buffer chunk ih => rw [run, output, ih, pushChunk_capture]
  | pushBuffer buffer wrap later ih ihLater => rw [run, output, ih, ihLater, pushBuffer_capture]

/-- A buffer holds the first bytes of its output and the last of those that follow, counts the
others, and is the same however the output was cut and grouped. -/
theorem run_spec (usizeMax maxBytes : ℕ) (e : Expression) :
    (e.run usizeMax maxBytes).head = e.output.take (headBudget maxBytes) ∧
      (e.run usizeMax maxBytes).tail =
        (e.output.drop (headBudget maxBytes)).rtake (tailBudget maxBytes) ∧
      (e.output.length ≤ usizeMax →
        (e.run usizeMax maxBytes).omittedBytes + (e.run usizeMax maxBytes).retainedBytes =
          e.output.length) ∧
      ∀ e' : Expression, e'.output = e.output →
        e'.run usizeMax maxBytes = e.run usizeMax maxBytes := by
  refine ⟨?_, ?_, ?_, ?_⟩
  · rw [run_eq_capture]
    rfl
  · rw [run_eq_capture]
    rfl
  · intro hlength
    rw [run_eq_capture]
    simp only [capture, withRest, retainedBytes, length_rtake, List.length_take, List.length_drop]
    omega
  · intro e' houtput
    rw [run_eq_capture, run_eq_capture, houtput]

/-- A capacity of five bytes: two for the head, three for the tail. -/
example :
    ((Expression.default.pushChunk [1, 2, 3]).pushBuffer 1
      (Expression.default.pushChunk [4, 5, 6, 7])).run 255 5 = ⟨[1, 2], [5, 6, 7], 2⟩ := by
  decide

end Expression

end HeadTailBuffer

end SpineCodex
