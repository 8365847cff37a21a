import SpineCodex.Lib.Records

/-!
# The reverse scanner

The records of a file are read from its end, in chunks.  The bytes of the record that is being
read are collected backwards; a record that grows longer than the limit is thrown away and its
remaining bytes are passed over.
-/

namespace SpineCodex

def readChunkSize : ℕ := 64 * 1024

def newlineByte : UInt8 := 10

/-- `u8::is_ascii_whitespace`. -/
def isAsciiWhitespace (byte : UInt8) : Bool :=
  byte = 9 ∨ byte = 10 ∨ byte = 12 ∨ byte = 13 ∨ byte = 32

/-- `ScanOutcome`, with the error of the decoder. -/
inductive ScanOutcome (E T : Type) where
  | parsed (value : T)
  | rejected (error : E)
  deriving Repr, DecidableEq

/-- The scanner over a file with the bytes `content`.  Of the buffer only the part that was read
last is kept. -/
structure ReverseJsonlScanner where
  content : List UInt8
  nextChunkEnd : ℕ
  chunkPosition : ℕ
  chunk : List UInt8
  recordReversed : List UInt8
  maxRecordBytes : Option ℕ
  discardingOversizedRecord : Bool
  deriving Repr, DecidableEq

namespace ReverseJsonlScanner

/-- `new_at`. -/
def newAt (content : List UInt8) (endByteOffset : ℕ) : Except String ReverseJsonlScanner :=
  if content.length < endByteOffset then .error "reverse JSONL scan end is past the file"
  else .ok ⟨content, endByteOffset, 0, [], [], none, false⟩

/-- `new`. -/
def new (content : List UInt8) : Except String ReverseJsonlScanner :=
  newAt content content.length

/-- `with_max_record_bytes`. -/
def withMaxRecordBytes (s : ReverseJsonlScanner) (maxRecordBytes : ℕ) : ReverseJsonlScanner :=
  { s with maxRecordBytes := some maxRecordBytes }

/-- A scanner with an optional limit. -/
def limited (s : ReverseJsonlScanner) (limit : Option ℕ) : ReverseJsonlScanner :=
  limit.elim s s.withMaxRecordBytes

/-- The next chunk is read when the last one is used up. -/
def readChunk (s : ReverseJsonlScanner) : ReverseJsonlScanner :=
  if s.chunkPosition = 0 then
    let readSize := min s.nextChunkEnd readChunkSize
    let start := s.nextChunkEnd - readSize
    { s with
      nextChunkEnd := start
      chunk := (s.content.drop start).take readSize
      chunkPosition := readSize }
  else s

/-- A record of this many bytes is passed over. -/
def Oversized (maxRecordBytes : Option ℕ) (bytes : ℕ) : Prop := ∃ max ∈ maxRecordBytes, max < bytes

instance (maxRecordBytes : Option ℕ) (bytes : ℕ) : Decidable (Oversized maxRecordBytes bytes) :=
  inferInstanceAs (Decidable (∃ _ ∈ _, _))

/-- The bytes in front of the collected ones. -/
def extendRecord (s : ReverseJsonlScanner) (fragment : List UInt8) : ReverseJsonlScanner :=
  if s.discardingOversizedRecord then s
  else if Oversized s.maxRecordBytes (s.recordReversed.length + fragment.length) then
    { s with recordReversed := [], discardingOversizedRecord := true }
  else { s with recordReversed := s.recordReversed ++ fragment.reverse }

section Scanning

variable {E T : Type} (fromSlice : List UInt8 → Except E T)

/-- The outcome of a record. -/
def decode (record : List UInt8) : ScanOutcome E T :=
  match fromSlice record with
  | .ok value => .parsed value
  | .error error => .rejected error

/-- `finish_record`. -/
def finishRecord (s : ReverseJsonlScanner) : Option (ScanOutcome E T) × ReverseJsonlScanner :=
  let record := s.recordReversed.reverse
  (if record.all isAsciiWhitespace then none else some (decode fromSlice record),
    { s with recordReversed := [] })

/-- The end of a record: nothing is returned of one that was thrown away. -/
def endRecord (s : ReverseJsonlScanner) : Option (ScanOutcome E T) × ReverseJsonlScanner :=
  if s.discardingOversizedRecord then (none, { s with discardingOversizedRecord := false })
  else s.finishRecord fromSlice

/-- The part of an iteration that looks at the chunk: a result is returned, or the loop goes on. -/
def scanChunk (s : ReverseJsonlScanner) :
    Option (Option (ScanOutcome E T)) × ReverseJsonlScanner :=
  let chunk := s.chunk.take s.chunkPosition
  match Records.lastIndexOf newlineByte chunk with
  | some newlinePosition =>
      let s := { s.extendRecord (chunk.drop (newlinePosition + 1)) with
        chunkPosition := newlinePosition }
      ((s.endRecord fromSlice).1.map some, (s.endRecord fromSlice).2)
  | none => (none, { s.extendRecord chunk with chunkPosition := 0 })

/-- One iteration of the loop of `scan_next`. -/
def scanStep (s : ReverseJsonlScanner) :
    Option (Option (ScanOutcome E T)) × ReverseJsonlScanner :=
  if s.chunkPosition = 0 ∧ s.nextChunkEnd = 0 then
    (some (s.endRecord fromSlice).1, (s.endRecord fromSlice).2)
  else s.readChunk.scanChunk fromSlice

/-- The bytes that are still to be read. -/
def remaining (s : ReverseJsonlScanner) : ℕ := s.nextChunkEnd + s.chunkPosition

theorem remaining_readChunk (s : ReverseJsonlScanner) : s.readChunk.remaining = s.remaining := by
  unfold readChunk
  split_ifs with hposition
  · simp only [remaining, hposition]
    omega
  · rfl

@[simp]
theorem nextChunkEnd_extendRecord (s : ReverseJsonlScanner) (fragment : List UInt8) :
    (s.extendRecord fragment).nextChunkEnd = s.nextChunkEnd := by
  unfold extendRecord
  split_ifs <;> rfl

theorem remaining_endRecord (s : ReverseJsonlScanner) :
    (s.endRecord fromSlice).2.remaining = s.remaining := by
  unfold endRecord
  split_ifs <;> rfl

/-- The loop goes on only after bytes were read. -/
theorem remaining_lt_of_scanChunk {s s' : ReverseJsonlScanner} (hposition : 0 < s.chunkPosition)
    (h : s.scanChunk fromSlice = (none, s')) : s'.remaining < s.remaining := by
  unfold scanChunk at h
  dsimp only at h
  cases hlast : Records.lastIndexOf newlineByte (s.chunk.take s.chunkPosition) with
  | none =>
    rw [hlast] at h
    obtain rfl := (Prod.mk.inj h).2
    simpa [remaining] using hposition
  | some newlinePosition =>
    obtain ⟨front, fragment, hchunk, -, rfl⟩ := Records.exists_of_lastIndexOf hlast
    have hlength := congrArg List.length hchunk
    have hfront : front.length < s.chunkPosition := by
      simp only [List.length_take, List.length_append, List.length_cons] at hlength
      omega
    rw [hlast] at h
    obtain rfl := (Prod.mk.inj h).2
    rw [remaining_endRecord]
    simpa [remaining] using hfront

theorem remaining_lt_of_scanStep {s s' : ReverseJsonlScanner}
    (h : s.scanStep fromSlice = (none, s')) : s'.remaining < s.remaining := by
  unfold scanStep at h
  by_cases hend : s.chunkPosition = 0 ∧ s.nextChunkEnd = 0
  · rw [if_pos hend] at h
    cases (Prod.mk.inj h).1
  rw [if_neg hend] at h
  have hposition : 0 < s.readChunk.chunkPosition := by
    unfold readChunk
    split_ifs with hzero
    · have hnext : s.nextChunkEnd ≠ 0 := fun hnext ↦ hend ⟨hzero, hnext⟩
      simp only [readChunkSize]
      omega
    · omega
  rw [← remaining_readChunk s]
  exact remaining_lt_of_scanChunk fromSlice hposition h

/-- `scan_next`. -/
def scanNext (s : ReverseJsonlScanner) : Option (ScanOutcome E T) × ReverseJsonlScanner :=
  match _hstep : s.scanStep fromSlice with
  | (some outcome, s') => (outcome, s')
  | (none, s') => s'.scanNext
termination_by s.remaining
decreasing_by exact remaining_lt_of_scanStep fromSlice _hstep

/-- The scanner after some calls. -/
def afterCalls (s : ReverseJsonlScanner) : ℕ → ReverseJsonlScanner
  | 0 => s
  | calls + 1 => ((s.afterCalls calls).scanNext fromSlice).2

end Scanning

/-! ## The records of the file -/

/-- A record that is returned. -/
def IsReturned (limit : Option ℕ) (record : List UInt8) : Prop :=
  ¬Oversized limit record.length ∧ ¬record.all isAsciiWhitespace

instance (limit : Option ℕ) (record : List UInt8) : Decidable (IsReturned limit record) :=
  inferInstanceAs (Decidable (_ ∧ _))

/-- The records of a text that are returned, in the order of the text. -/
def returnedRecords (limit : Option ℕ) (text : List UInt8) : List (List UInt8) :=
  (text.splitOn newlineByte).filter fun record ↦ IsReturned limit record

section Outcomes

variable {E T : Type} (fromSlice : List UInt8 → Except E T)

/-- Their outcomes, from the end of the text. -/
def outcomes (limit : Option ℕ) (text : List UInt8) : List (ScanOutcome E T) :=
  (returnedRecords limit text).reverse.map (decode fromSlice)

/-- The outcome of one record. -/
def outcome? (limit : Option ℕ) (record : List UInt8) : Option (ScanOutcome E T) :=
  if IsReturned limit record then some (decode fromSlice record) else none

theorem outcomes_append_last (limit : Option ℕ) (front : List UInt8) {record : List UInt8}
    (h : newlineByte ∉ record) :
    outcomes fromSlice limit (front ++ newlineByte :: record) =
      (outcome? fromSlice limit record).toList ++ outcomes fromSlice limit front := by
  rw [outcomes, returnedRecords, Records.splitOn_append_last front h, List.filter_append,
    List.filter_singleton]
  by_cases hreturned : IsReturned limit record
  · simp [outcome?, outcomes, returnedRecords, hreturned]
  · simp [outcome?, outcomes, returnedRecords, hreturned]

theorem outcomes_single (limit : Option ℕ) {record : List UInt8} (h : newlineByte ∉ record) :
    outcomes fromSlice limit record = (outcome? fromSlice limit record).toList := by
  rw [outcomes, returnedRecords, List.splitOn_eq_singleton h, List.filter_singleton]
  by_cases hreturned : IsReturned limit record
  · simp [outcome?, hreturned]
  · simp [outcome?, hreturned]

end Outcomes

/-! ## What a call has read -/

/-- What the scanner has not read yet. -/
def unread (s : ReverseJsonlScanner) : List UInt8 :=
  s.content.take s.nextChunkEnd ++ s.chunk.take s.chunkPosition

/-- `pending` are the bytes of the current record that were read, kept or thrown away. -/
structure Reads (s : ReverseJsonlScanner) (pending : List UInt8) : Prop where
  plain : newlineByte ∉ pending
  kept : s.discardingOversizedRecord = false →
    s.recordReversed = pending.reverse ∧ ¬Oversized s.maxRecordBytes pending.length
  thrown : s.discardingOversizedRecord = true →
    s.recordReversed = [] ∧ Oversized s.maxRecordBytes pending.length

theorem unread_readChunk (s : ReverseJsonlScanner) : s.readChunk.unread = s.unread := by
  unfold readChunk
  split_ifs with hposition
  · set readSize := min s.nextChunkEnd readChunkSize
    have hsize : s.nextChunkEnd - readSize + readSize = s.nextChunkEnd := by omega
    calc _ = s.content.take (s.nextChunkEnd - readSize) ++
          (s.content.drop (s.nextChunkEnd - readSize)).take readSize := by simp [unread]
      _ = s.content.take (s.nextChunkEnd - readSize + readSize) := List.take_add.symm
      _ = s.unread := by simp [unread, hposition, hsize]
  · rfl

theorem Reads.readChunk {s : ReverseJsonlScanner} {pending : List UInt8} (h : s.Reads pending) :
    s.readChunk.Reads pending := by
  unfold ReverseJsonlScanner.readChunk
  split_ifs
  · exact ⟨h.plain, h.kept, h.thrown⟩
  · exact h

/-- More bytes of the same record. -/
theorem Reads.extendRecord {s : ReverseJsonlScanner} {pending fragment : List UInt8}
    (h : s.Reads pending) (hfragment : newlineByte ∉ fragment) :
    (s.extendRecord fragment).Reads (fragment ++ pending) := by
  have hplain : newlineByte ∉ fragment ++ pending := by simp [hfragment, h.plain]
  unfold ReverseJsonlScanner.extendRecord
  cases hdiscarding : s.discardingOversizedRecord with
  | true =>
    obtain ⟨hrecord, max, hmax, hlong⟩ := h.thrown hdiscarding
    refine ⟨hplain, ?_, ?_⟩
    · simp [hdiscarding]
    · intro _
      refine ⟨hrecord, max, hmax, ?_⟩
      rw [List.length_append]
      omega
  | false =>
    obtain ⟨hrecord, -⟩ := h.kept hdiscarding
    have hlength : s.recordReversed.length + fragment.length = (fragment ++ pending).length := by
      rw [hrecord, List.length_reverse, List.length_append, Nat.add_comm]
    rw [if_neg Bool.false_ne_true, hlength]
    split_ifs with hlong
    · exact ⟨hplain, by simp, fun _ ↦ ⟨rfl, hlong⟩⟩
    · exact ⟨hplain, fun _ ↦ ⟨by simp [hrecord], hlong⟩, by simp⟩

@[simp]
theorem maxRecordBytes_extendRecord (s : ReverseJsonlScanner) (fragment : List UInt8) :
    (s.extendRecord fragment).maxRecordBytes = s.maxRecordBytes := by
  unfold ReverseJsonlScanner.extendRecord
  split_ifs <;> rfl

@[simp]
theorem content_extendRecord (s : ReverseJsonlScanner) (fragment : List UInt8) :
    (s.extendRecord fragment).content = s.content := by
  unfold ReverseJsonlScanner.extendRecord
  split_ifs <;> rfl

@[simp]
theorem chunk_extendRecord (s : ReverseJsonlScanner) (fragment : List UInt8) :
    (s.extendRecord fragment).chunk = s.chunk := by
  unfold ReverseJsonlScanner.extendRecord
  split_ifs <;> rfl

theorem maxRecordBytes_readChunk (s : ReverseJsonlScanner) :
    s.readChunk.maxRecordBytes = s.maxRecordBytes := by
  unfold ReverseJsonlScanner.readChunk
  split_ifs <;> rfl

section Calls

variable {E T : Type} (fromSlice : List UInt8 → Except E T)

/-- The outcomes that the scanner has still to return. -/
def toCome (s : ReverseJsonlScanner) (pending : List UInt8) : List (ScanOutcome E T) :=
  outcomes fromSlice s.maxRecordBytes (s.unread ++ pending)

variable {s s' : ReverseJsonlScanner} {pending : List UInt8}

/-- The record ends, and the next one starts without bytes. -/
theorem Reads.endRecord {record : List UInt8} (h : s.Reads record) :
    (s.endRecord fromSlice).1 = outcome? fromSlice s.maxRecordBytes record ∧
      (s.endRecord fromSlice).2.Reads [] ∧
      (s.endRecord fromSlice).2.toCome fromSlice [] =
        outcomes fromSlice s.maxRecordBytes s.unread := by
  have hempty : ¬Oversized s.maxRecordBytes 0 := by
    rintro ⟨max, -, hlt⟩
    exact Nat.not_lt_zero max hlt
  unfold ReverseJsonlScanner.endRecord
  cases hdiscarding : s.discardingOversizedRecord with
  | true =>
    obtain ⟨hrecord, hlong⟩ := h.thrown hdiscarding
    rw [if_pos rfl]
    refine ⟨?_, ⟨by simp, fun _ ↦ ⟨hrecord, hempty⟩, by simp⟩, ?_⟩
    · simp [outcome?, IsReturned, hlong]
    · simp [toCome, unread]
  | false =>
    obtain ⟨hrecord, hshort⟩ := h.kept hdiscarding
    rw [if_neg Bool.false_ne_true]
    refine ⟨?_, ⟨by simp, fun _ ↦ ⟨rfl, hempty⟩, by simp [finishRecord, hdiscarding]⟩, ?_⟩
    · rw [finishRecord, hrecord, List.reverse_reverse]
      by_cases hblank : record.all isAsciiWhitespace
      · simp [outcome?, IsReturned, hblank]
      · simp [outcome?, IsReturned, hblank, hshort]
    · simp [toCome, unread, finishRecord]

/-- A step that returns has returned the next outcome. -/
def Returned (s : ReverseJsonlScanner) (pending : List UInt8) (outcome : Option (ScanOutcome E T))
    (s' : ReverseJsonlScanner) : Prop :=
  s'.Reads [] ∧ outcome = (s.toCome fromSlice pending).head? ∧
    s'.toCome fromSlice [] = (s.toCome fromSlice pending).tail

theorem Reads.scanChunk (h : s.Reads pending) :
    (∀ outcome s', s.scanChunk fromSlice = (some outcome, s') →
      Returned fromSlice s pending outcome s') ∧
    ∀ s', s.scanChunk fromSlice = (none, s') →
      ∃ pending', s'.Reads pending' ∧ s'.toCome fromSlice pending' = s.toCome fromSlice pending := by
  unfold ReverseJsonlScanner.scanChunk
  dsimp only
  cases hlast : Records.lastIndexOf newlineByte (s.chunk.take s.chunkPosition) with
  | none =>
    have hchunk := Records.lastIndexOf_eq_none_iff.mp hlast
    refine ⟨by simp, ?_⟩
    intro s' hs'
    obtain rfl := (Prod.mk.inj hs').2
    have hreads := h.extendRecord hchunk
    refine ⟨_, ⟨hreads.plain, hreads.kept, hreads.thrown⟩, ?_⟩
    simp [toCome, unread]
  | some newlinePosition =>
    obtain ⟨front, fragment, hchunk, hfragment, rfl⟩ := Records.exists_of_lastIndexOf hlast
    have hdrop : (s.chunk.take s.chunkPosition).drop (front.length + 1) = fragment := by
      rw [hchunk]
      simp
    have hfront : s.chunk.take front.length = front := by
      have hlength := congrArg List.length hchunk
      have hle : front.length ≤ s.chunkPosition := by
        simp only [List.length_take, List.length_append, List.length_cons] at hlength
        omega
      calc s.chunk.take front.length = (s.chunk.take s.chunkPosition).take front.length := by
            rw [List.take_take, Nat.min_eq_left hle]
        _ = front := by
            rw [hchunk]
            simp
    dsimp only
    rw [hdrop]
    have hreads := h.extendRecord hfragment
    set s₁ := { s.extendRecord fragment with chunkPosition := front.length } with hs₁
    have hreads₁ : s₁.Reads (fragment ++ pending) := ⟨hreads.plain, hreads.kept, hreads.thrown⟩
    have hunread : s₁.unread = s.content.take s.nextChunkEnd ++ front := by
      simp [hs₁, unread, hfront]
    have htoCome : s.toCome fromSlice pending =
        (outcome? fromSlice s.maxRecordBytes (fragment ++ pending)).toList ++
          outcomes fromSlice s.maxRecordBytes s₁.unread := by
      rw [hunread, ← outcomes_append_last fromSlice _ _ hreads.plain]
      simp [toCome, unread, hchunk]
    obtain ⟨houtcome, hnext, hrest⟩ := hreads₁.endRecord fromSlice
    have hmax : s₁.maxRecordBytes = s.maxRecordBytes := maxRecordBytes_extendRecord s fragment
    rw [hmax] at houtcome hrest
    rw [houtcome]
    cases hrecord : outcome? fromSlice s.maxRecordBytes (fragment ++ pending) with
    | none =>
      refine ⟨by simp, ?_⟩
      intro s' hs'
      obtain rfl := (Prod.mk.inj hs').2
      exact ⟨[], hnext, by rw [hrest, htoCome, hrecord]; rfl⟩
    | some returned =>
      refine ⟨?_, by simp⟩
      intro outcome s' hs'
      obtain ⟨houter, rfl⟩ := Prod.mk.inj hs'
      obtain rfl := Option.some.inj houter
      refine ⟨hnext, ?_, ?_⟩
      · rw [htoCome, hrecord]
        rfl
      · rw [hrest, htoCome, hrecord]
        rfl

theorem toCome_readChunk (s : ReverseJsonlScanner) (pending : List UInt8) :
    s.readChunk.toCome fromSlice pending = s.toCome fromSlice pending := by
  rw [toCome, toCome, unread_readChunk, maxRecordBytes_readChunk]

theorem Reads.scanStep (h : s.Reads pending) :
    (∀ outcome s', s.scanStep fromSlice = (some outcome, s') →
      Returned fromSlice s pending outcome s') ∧
    ∀ s', s.scanStep fromSlice = (none, s') →
      ∃ pending', s'.Reads pending' ∧ s'.toCome fromSlice pending' = s.toCome fromSlice pending := by
  unfold ReverseJsonlScanner.scanStep
  by_cases hend : s.chunkPosition = 0 ∧ s.nextChunkEnd = 0
  · rw [if_pos hend]
    refine ⟨?_, by simp⟩
    intro outcome s' hs'
    obtain ⟨houter, rfl⟩ := Prod.mk.inj hs'
    obtain rfl := Option.some.inj houter
    -- all bytes are read, so that the pending record is the first one of the file
    have hunread : s.unread = [] := by simp [unread, hend.1, hend.2]
    have hfirst : s.toCome fromSlice pending = (outcome? fromSlice s.maxRecordBytes pending).toList := by
      rw [toCome, hunread, List.nil_append, outcomes_single fromSlice _ h.plain]
    have hnone : outcomes fromSlice s.maxRecordBytes [] = [] := by
      rw [outcomes_single fromSlice _ List.not_mem_nil]
      simp [outcome?, IsReturned]
    obtain ⟨houtcome, hnext, hrest⟩ := h.endRecord fromSlice
    refine ⟨hnext, ?_, ?_⟩
    · rw [houtcome, hfirst]
      cases outcome? fromSlice s.maxRecordBytes pending <;> rfl
    · rw [hrest, hunread, hnone, hfirst]
      cases outcome? fromSlice s.maxRecordBytes pending <;> rfl
  · rw [if_neg hend]
    have hchunk := h.readChunk.scanChunk fromSlice
    unfold Returned at hchunk ⊢
    rw [toCome_readChunk] at hchunk
    exact hchunk

/-- A call returns the next outcome. -/
theorem Reads.scanNext (h : s.Reads pending) :
    Returned fromSlice s pending (s.scanNext fromSlice).1 (s.scanNext fromSlice).2 := by
  induction hremaining : s.remaining using Nat.strong_induction_on generalizing s pending with
  | _ remaining ih =>
    obtain ⟨hreturns, hcontinues⟩ := h.scanStep fromSlice
    rw [ReverseJsonlScanner.scanNext]
    split
    next outcome s' hstep => exact hreturns outcome s' hstep
    next s' hstep =>
      obtain ⟨pending', hreads, htoCome⟩ := hcontinues s' hstep
      have hlt := remaining_lt_of_scanStep fromSlice hstep
      have hreturned := ih s'.remaining (hremaining ▸ hlt) hreads rfl
      unfold Returned at hreturned ⊢
      rw [htoCome] at hreturned
      exact hreturned

/-- Each call takes one outcome. -/
theorem Reads.afterCalls (h : s.Reads []) (calls : ℕ) :
    (s.afterCalls fromSlice calls).Reads [] ∧
      (s.afterCalls fromSlice calls).toCome fromSlice [] = (s.toCome fromSlice []).drop calls := by
  induction calls with
  | zero => exact ⟨h, rfl⟩
  | succ calls ih =>
    obtain ⟨hreads, htoCome⟩ := ih
    obtain ⟨hnext, -, htail⟩ := hreads.scanNext fromSlice
    refine ⟨hnext, ?_⟩
    calc _ = ((s.afterCalls fromSlice calls).toCome fromSlice []).tail := htail
      _ = (s.toCome fromSlice []).drop (calls + 1) := by rw [htoCome, List.tail_drop]

/-- Call number `call` returns the outcome of the record with this number from the end, among
those of the first `endByteOffset` bytes that are not blank and not too long; when there are no
more, every call returns nothing. -/
theorem scanNext_eq_record {content : List UInt8} {endByteOffset : ℕ}
    (h : newAt content endByteOffset = .ok s) (limit : Option ℕ) (call : ℕ) :
    (((s.limited limit).afterCalls fromSlice call).scanNext fromSlice).1 =
      ((returnedRecords limit (content.take endByteOffset)).reverse.map (decode fromSlice))[call]? := by
  have hnew : s.limited limit = ⟨content, endByteOffset, 0, [], [], limit, false⟩ := by
    unfold newAt at h
    split_ifs at h
    obtain rfl := Except.ok.inj h
    cases limit <;> rfl
  have hreads : (s.limited limit).Reads [] := by
    rw [hnew]
    exact ⟨List.not_mem_nil, fun _ ↦ ⟨rfl, by simp [Oversized]⟩, by simp⟩
  have htoCome : (s.limited limit).toCome fromSlice [] =
      (returnedRecords limit (content.take endByteOffset)).reverse.map (decode fromSlice) := by
    rw [hnew]
    simp [toCome, unread, outcomes]
  obtain ⟨hafter, hdrop⟩ := hreads.afterCalls fromSlice call
  obtain ⟨-, hhead, -⟩ := hafter.scanNext fromSlice
  rw [hhead, hdrop, htoCome, List.head?_drop]

end Calls

/-- A decoder that accepts every record. -/
def keepBytes (record : List UInt8) : Except String (List UInt8) := .ok record

/-- Three records, of which the second is too long, and the start of a fourth: the second call
returns the first record. -/
theorem second_call_returns_first_record : ∃ s,
    newAt [65, 10, 66, 66, 66, 10, 67, 13, 10, 68] 9 = .ok s ∧
      (((s.limited (some 2)).afterCalls keepBytes 1).scanNext keepBytes).1 = some (.parsed [65]) := by
  have hnew : newAt [65, 10, 66, 66, 66, 10, 67, 13, 10, 68] 9 =
      .ok ⟨[65, 10, 66, 66, 66, 10, 67, 13, 10, 68], 9, 0, [], [], none, false⟩ := rfl
  refine ⟨_, hnew, ?_⟩
  rw [scanNext_eq_record keepBytes hnew]
  decide

end ReverseJsonlScanner

end SpineCodex
