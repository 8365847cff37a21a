import SpineCodex.Lib.Text

/-!
# Tags that stand alone on a line

A block of lines is tagged by an opening and a closing line. A line of streamed text is kept back as
long as it may still become such a line; once that is ruled out its text is passed on as it arrives.
What the parser yields is compared with a reading of the whole text line by line.
-/

namespace SpineCodex

variable {τ : Type} [DecidableEq τ]

structure TagSpec (τ : Type) where
  opening : List Char
  closing : List Char
  tag : τ

inductive TaggedLineSegment (τ : Type) where
  | normal (text : List Char)
  | tagStart (tag : τ)
  | tagDelta (tag : τ) (text : List Char)
  | tagEnd (tag : τ)
  deriving DecidableEq

structure TaggedLineParser (τ : Type) where
  activeTag : Option τ := none
  detectTag : Bool := true
  lineBuffer : List Char := []

/-! ## The parser -/

/-- Empty text is dropped, and text behind text of the same kind is joined to it. -/
def pushSegment (segments : List (TaggedLineSegment τ)) :
    TaggedLineSegment τ → List (TaggedLineSegment τ)
  | .normal delta =>
    if delta = [] then segments
    else match segments.getLast? with
      | some (.normal existing) => segments.dropLast ++ [.normal (existing ++ delta)]
      | _ => segments ++ [.normal delta]
  | .tagDelta tag delta =>
    if delta = [] then segments
    else match segments.getLast? with
      | some (.tagDelta existingTag existing) =>
        if existingTag = tag then segments.dropLast ++ [.tagDelta tag (existing ++ delta)]
        else segments ++ [.tagDelta tag delta]
      | _ => segments ++ [.tagDelta tag delta]
  | .tagStart tag => segments ++ [.tagStart tag]
  | .tagEnd tag => segments ++ [.tagEnd tag]

namespace TaggedLineParser

variable (specs : List (TagSpec τ))

def pushText (activeTag : Option τ) (text : List Char) (segments : List (TaggedLineSegment τ)) :
    List (TaggedLineSegment τ) :=
  match activeTag with
  | some tag => pushSegment segments (.tagDelta tag text)
  | none => pushSegment segments (.normal text)

def trimEndList (text : List Char) : List Char := (text.reverse.dropWhile whiteSpace).reverse

def isTagPrefix (slug : List Char) : Bool :=
  specs.any fun spec ↦
    (trimEndList slug).isPrefixOf spec.opening || (trimEndList slug).isPrefixOf spec.closing

def matchOpen (slug : List Char) : Option τ := (specs.find? (·.opening = slug)).map (·.tag)

def matchClose (slug : List Char) : Option τ := (specs.find? (·.closing = slug)).map (·.tag)

def stripNewline (line : List Char) : List Char :=
  if line.getLast? = some '\n' then line.dropLast else line

/-- The end of a line that may be a tag: the segments, and the tag that is active behind it. -/
def closeLine (activeTag : Option τ) (line : List Char) (segments : List (TaggedLineSegment τ)) :
    Option τ × List (TaggedLineSegment τ) :=
  let slug := trimEndList ((stripNewline line).dropWhile whiteSpace)
  match matchOpen specs slug, matchClose specs slug, activeTag with
  | some tag, _, none => (some tag, pushSegment segments (.tagStart tag))
  | _, some tag, some active =>
    if active = tag then (none, pushSegment segments (.tagEnd tag))
    else (activeTag, pushText activeTag line segments)
  | _, _, _ => (activeTag, pushText activeTag line segments)

/-- One character: the parser, the run of text that is not passed on yet, and the segments. -/
def parseChar (state : TaggedLineParser τ × List Char × List (TaggedLineSegment τ)) (ch : Char) :
    TaggedLineParser τ × List Char × List (TaggedLineSegment τ) :=
  let (parser, run, segments) := state
  if parser.detectTag then
    let segments := if run = [] then segments else pushText parser.activeTag run segments
    let buffered := parser.lineBuffer ++ [ch]
    if ch = '\n' then
      let (activeTag, segments) := closeLine specs parser.activeTag buffered segments
      (⟨activeTag, true, []⟩, [], segments)
    else
      let slug := buffered.dropWhile whiteSpace
      if slug = [] ∨ isTagPrefix specs slug = true then
        ({ parser with lineBuffer := buffered }, [], segments)
      else (⟨parser.activeTag, false, []⟩, [], pushText parser.activeTag buffered segments)
  else
    let run := run ++ [ch]
    if ch = '\n' then
      ({ parser with detectTag := true }, [], pushText parser.activeTag run segments)
    else (parser, run, segments)

def parse (parser : TaggedLineParser τ) (delta : List Char) :
    TaggedLineParser τ × List (TaggedLineSegment τ) :=
  let (parser, run, segments) := delta.foldl (parseChar specs) (parser, [], [])
  (parser, if run = [] then segments else pushText parser.activeTag run segments)

def finish (parser : TaggedLineParser τ) : TaggedLineParser τ × List (TaggedLineSegment τ) :=
  let (activeTag, segments) :=
    if parser.lineBuffer = [] then (parser.activeTag, [])
    else closeLine specs parser.activeTag parser.lineBuffer []
  ({}, activeTag.elim segments fun tag ↦ pushSegment segments (.tagEnd tag))

end TaggedLineParser

/-! ## Characters and marks -/

/-- A character outside or inside a block, or the start or the end of one. -/
inductive LineAtom (τ : Type) where
  | char (tag : Option τ) (c : Char)
  | start (tag : τ)
  | stop (tag : τ)
  deriving DecidableEq

def TaggedLineSegment.atoms : TaggedLineSegment τ → List (LineAtom τ)
  | normal text => text.map (.char none)
  | tagStart tag => [.start tag]
  | tagDelta tag text => text.map (.char (some tag))
  | tagEnd tag => [.stop tag]

/-- The characters and marks that segments stand for, however their text is joined. -/
def atomsOf (segments : List (TaggedLineSegment τ)) : List (LineAtom τ) :=
  segments.flatMap TaggedLineSegment.atoms

omit [DecidableEq τ] in
theorem atomsOf_append (first second : List (TaggedLineSegment τ)) :
    atomsOf (first ++ second) = atomsOf first ++ atomsOf second := List.flatMap_append

omit [DecidableEq τ] in
theorem atomsOf_singleton (segment : TaggedLineSegment τ) : atomsOf [segment] = segment.atoms :=
  List.flatMap_singleton ..

omit [DecidableEq τ] in
/-- Joining text to the last segment. -/
theorem atomsOf_joined {segments : List (TaggedLineSegment τ)} {last joined : TaggedLineSegment τ}
    (hlast : segments.getLast? = some last) {more : List (LineAtom τ)}
    (hjoined : joined.atoms = last.atoms ++ more) :
    atomsOf (segments.dropLast ++ [joined]) = atomsOf segments ++ more := by
  obtain ⟨front, rfl⟩ := List.getLast?_eq_some_iff.mp hlast
  rw [List.dropLast_concat, atomsOf_append, atomsOf_append, atomsOf_singleton, atomsOf_singleton,
    hjoined, List.append_assoc]

theorem atomsOf_pushSegment (segments : List (TaggedLineSegment τ)) (segment : TaggedLineSegment τ) :
    atomsOf (pushSegment segments segment) = atomsOf segments ++ segment.atoms := by
  have happend : ∀ segment, atomsOf (segments ++ [segment]) = atomsOf segments ++ segment.atoms := by
    intro segment
    rw [atomsOf_append, atomsOf_singleton]
  cases segment with
  | tagStart tag => exact happend _
  | tagEnd tag => exact happend _
  | normal delta =>
    rw [pushSegment]
    split_ifs with hempty
    · rw [hempty]
      exact (List.append_nil _).symm
    · split
      · rename_i existing hlast
        exact atomsOf_joined hlast List.map_append
      · exact happend _
  | tagDelta tag delta =>
    rw [pushSegment]
    split_ifs with hempty
    · rw [hempty]
      exact (List.append_nil _).symm
    · split
      · rename_i existingTag existing hlast
        split_ifs with htag
        · subst htag
          exact atomsOf_joined hlast List.map_append
        · exact happend _
      · exact happend _

namespace TaggedLineParser

variable {specs : List (TagSpec τ)}

omit [DecidableEq τ] in
theorem matchOpen_singleton (spec : TagSpec τ) (slug : List Char) :
    matchOpen [spec] slug = if slug = spec.opening then some spec.tag else none := by
  by_cases hslug : slug = spec.opening
  · simp only [matchOpen, List.find?_singleton, hslug, decide_true, if_true, Option.map_some]
  · simp only [matchOpen, List.find?_singleton, if_neg hslug, decide_eq_true_eq, if_neg (Ne.symm hslug),
      Option.map_none]

omit [DecidableEq τ] in
theorem matchClose_singleton (spec : TagSpec τ) (slug : List Char) :
    matchClose [spec] slug = if slug = spec.closing then some spec.tag else none := by
  by_cases hslug : slug = spec.closing
  · simp only [matchClose, List.find?_singleton, hslug, decide_true, if_true, Option.map_some]
  · simp only [matchClose, List.find?_singleton, if_neg hslug, decide_eq_true_eq, if_neg (Ne.symm hslug),
      Option.map_none]

theorem atomsOf_pushText (activeTag : Option τ) (text : List Char)
    (segments : List (TaggedLineSegment τ)) :
    atomsOf (pushText activeTag text segments) = atomsOf segments ++ text.map (.char activeTag) := by
  cases activeTag with
  | none => exact atomsOf_pushSegment segments (.normal text)
  | some tag => exact atomsOf_pushSegment segments (.tagDelta tag text)

/-- Text that is passed on only if there is some. -/
theorem atomsOf_flush (activeTag : Option τ) (run : List Char) (segments : List (TaggedLineSegment τ)) :
    atomsOf (if run = [] then segments else pushText activeTag run segments) =
      atomsOf segments ++ run.map (.char activeTag) := by
  split_ifs with hrun
  · rw [hrun, List.map_nil, List.append_nil]
  · exact atomsOf_pushText activeTag run segments

/-! ## The reading by lines -/

/-- The lines of a text, each with the line feed that ends it. -/
def textLines : List Char → List (List Char)
  | [] => []
  | c :: text =>
    if c = '\n' then [c] :: textLines text
    else match textLines text with
      | [] => [[c]]
      | line :: lines => (c :: line) :: lines

variable (specs) in
/-- A line by its trimmed text: a tag that opens or closes a block, or text. -/
def readLine (active : Option τ) (line : List Char) : Option τ × List (LineAtom τ) :=
  match matchOpen specs (trimList line), matchClose specs (trimList line), active with
  | some tag, _, none => (some tag, [.start tag])
  | _, some tag, some current =>
    if current = tag then (none, [.stop tag]) else (active, line.map (.char active))
  | _, _, _ => (active, line.map (.char active))

variable (specs) in
/-- Lines one after another; a block that is open at the end is closed. -/
def readLines : Option τ → List (List Char) → List (LineAtom τ)
  | active, [] => active.toList.map .stop
  | active, line :: lines =>
    (readLine specs active line).2 ++ readLines (readLine specs active line).1 lines

theorem textLines_append_newline {line : List Char} (h : '\n' ∉ line) (text : List Char) :
    textLines (line ++ '\n' :: text) = (line ++ ['\n']) :: textLines text := by
  induction line with
  | nil => rw [List.nil_append, textLines, if_pos rfl, List.nil_append]
  | cons c line ih =>
    rw [List.mem_cons, not_or] at h
    rw [List.cons_append, textLines, if_neg (Ne.symm h.1), ih h.2]
    rfl

/-- A line goes on with the first line of the text behind it. -/
theorem textLines_append {line : List Char} (h : '\n' ∉ line) (hne : line ≠ []) (text : List Char) :
    textLines (line ++ text) = (line ++ (textLines text).headD []) :: (textLines text).tail := by
  induction line with
  | nil => exact absurd rfl hne
  | cons c line ih =>
    rw [List.mem_cons, not_or] at h
    rw [List.cons_append, textLines, if_neg (Ne.symm h.1)]
    cases line with
    | nil =>
      rw [List.nil_append]
      cases textLines text <;> rfl
    | cons d line =>
      rw [ih h.2 (List.cons_ne_nil d line)]
      rfl

/-! ## Trimming -/

theorem dropWhile_append_of_ne_nil {p : Char → Bool} {first : List Char} (h : first.dropWhile p ≠ [])
    (second : List Char) : (first ++ second).dropWhile p = first.dropWhile p ++ second := by
  rw [List.dropWhile_append, if_neg]
  rwa [List.isEmpty_iff]

/-- White space at the end goes, whatever stands before it. -/
theorem trimEndList_append {spaces : List Char} (h : ∀ c ∈ spaces, whiteSpace c = true)
    (text : List Char) : trimEndList (text ++ spaces) = trimEndList text := by
  have hdrop : spaces.reverse.dropWhile whiteSpace = [] := by
    rw [List.dropWhile_eq_nil_iff]
    exact fun c hc ↦ h c (List.mem_reverse.mp hc)
  rw [trimEndList, List.reverse_append, List.dropWhile_append, hdrop, List.isEmpty_nil, if_pos rfl,
    trimEndList]

/-- A text is what is left of it and white space. -/
theorem exists_spaces (text : List Char) :
    ∃ spaces, text = trimEndList text ++ spaces ∧ ∀ c ∈ spaces, whiteSpace c = true := by
  refine ⟨(text.reverse.takeWhile whiteSpace).reverse, ?_, ?_⟩
  · rw [trimEndList, ← List.reverse_append, List.takeWhile_append_dropWhile, List.reverse_reverse]
  · intro c hc
    exact List.mem_takeWhile_imp (List.mem_reverse.mp hc)

theorem trimEndList_isPrefix (text : List Char) : trimEndList text <+: text := by
  obtain ⟨spaces, htext, -⟩ := exists_spaces text
  exact ⟨spaces, htext.symm⟩

/-- The trimmed line does not depend on the line feed behind it. -/
theorem trim_stripNewline (line : List Char) :
    trimEndList ((stripNewline line).dropWhile whiteSpace) = trimList line := by
  unfold stripNewline
  split_ifs with hlast
  · obtain ⟨front, rfl⟩ := List.getLast?_eq_some_iff.mp hlast
    have hnewline : ∀ c ∈ ['\n'], whiteSpace c = true := by
      intro c hc
      rw [List.mem_singleton.mp hc]
      rfl
    rw [List.dropLast_concat]
    change _ = trimEndList ((front ++ ['\n']).dropWhile whiteSpace)
    by_cases hfront : front.dropWhile whiteSpace = []
    · rw [List.dropWhile_append, hfront, List.isEmpty_nil, if_pos rfl]
      rfl
    · rw [dropWhile_append_of_ne_nil hfront, trimEndList_append hnewline]
  · rfl

/-- What a line starts with, trimmed, starts the trimmed line. -/
theorem trimEndList_isPrefix_of_trim {first second : List Char} (hne : first.dropWhile whiteSpace ≠ []) :
    trimEndList (first.dropWhile whiteSpace) <+: trimList (first ++ second) := by
  change _ <+: trimEndList ((first ++ second).dropWhile whiteSpace)
  rw [dropWhile_append_of_ne_nil hne]
  generalize first.dropWhile whiteSpace = slug
  obtain ⟨spaces, hline, hspaces⟩ := exists_spaces (slug ++ second)
  generalize trimEndList (slug ++ second) = word at hline
  rcases List.append_eq_append_iff.mp hline with ⟨more, rfl, -⟩ | ⟨part, rfl, hpart⟩
  · exact (trimEndList_isPrefix slug).trans (List.prefix_append _ _)
  · -- the start ends in the white space behind the trimmed line
    rw [trimEndList_append fun c hc ↦ hspaces c (hpart ▸ List.mem_append_left _ hc)]
    exact trimEndList_isPrefix word

/-- A line that starts with what no tag starts with is text. -/
theorem readLine_of_not_isTagPrefix {first : List Char} (hne : first.dropWhile whiteSpace ≠ [])
    (h : isTagPrefix specs (first.dropWhile whiteSpace) = false) (active : Option τ)
    (second : List Char) :
    readLine specs active (first ++ second) = (active, (first ++ second).map (.char active)) := by
  have hpart := @trimEndList_isPrefix_of_trim first second hne
  have hother : ∀ spec ∈ specs, spec.opening ≠ trimList (first ++ second) ∧
      spec.closing ≠ trimList (first ++ second) := by
    intro spec hspec
    have hspec := List.any_eq_false.mp h spec hspec
    rw [Bool.or_eq_true, not_or, List.isPrefixOf_iff_prefix, List.isPrefixOf_iff_prefix] at hspec
    exact ⟨fun hequal ↦ hspec.1 (hequal ▸ hpart), fun hequal ↦ hspec.2 (hequal ▸ hpart)⟩
  have hopen : matchOpen specs (trimList (first ++ second)) = none := by
    rw [matchOpen, Option.map_eq_none_iff, List.find?_eq_none]
    exact fun spec hspec ↦ by simpa using (hother spec hspec).1
  have hclose : matchClose specs (trimList (first ++ second)) = none := by
    rw [matchClose, Option.map_eq_none_iff, List.find?_eq_none]
    exact fun spec hspec ↦ by simpa using (hother spec hspec).2
  simp only [readLine, hopen, hclose]

/-! ## Streams of lines -/

/-- The parser reads the end of a line as the reading by lines does. -/
theorem closeLine_eq (active : Option τ) (line : List Char) (segments : List (TaggedLineSegment τ)) :
    (closeLine specs active line segments).1 = (readLine specs active line).1 ∧
      atomsOf (closeLine specs active line segments).2 =
        atomsOf segments ++ (readLine specs active line).2 := by
  unfold closeLine readLine
  dsimp only
  rw [trim_stripNewline]
  generalize matchOpen specs (trimList line) = opened
  generalize matchClose specs (trimList line) = closed
  cases active with
  | none =>
    cases opened with
    | none =>
      cases closed with
      | none => exact ⟨rfl, atomsOf_pushText none line segments⟩
      | some tag => exact ⟨rfl, atomsOf_pushText none line segments⟩
    | some tag => exact ⟨rfl, atomsOf_pushSegment segments (.tagStart tag)⟩
  | some current =>
    cases closed with
    | none => cases opened <;> exact ⟨rfl, atomsOf_pushText (some current) line segments⟩
    | some tag =>
      cases opened <;> dsimp only <;> split_ifs <;>
        first
        | exact ⟨rfl, atomsOf_pushSegment segments (.tagEnd tag)⟩
        | exact ⟨rfl, atomsOf_pushText (some current) line segments⟩

variable (specs) in
/-- What the parser has still to yield when the text goes on. -/
def meaning (parser : TaggedLineParser τ) (text : List Char) : List (LineAtom τ) :=
  if parser.detectTag then readLines specs parser.activeTag (textLines (parser.lineBuffer ++ text))
  else ((textLines text).headD []).map (.char parser.activeTag) ++
    readLines specs parser.activeTag (textLines text).tail

/-- A parser between two characters. -/
structure Between (parser : TaggedLineParser τ) : Prop where
  one_line : '\n' ∉ parser.lineBuffer
  unbuffered : parser.detectTag = false → parser.lineBuffer = []

/-- What a parser has yielded within a chunk, the run that is not passed on included. -/
def yielded (state : TaggedLineParser τ × List Char × List (TaggedLineSegment τ)) : List (LineAtom τ) :=
  atomsOf state.2.2 ++ state.2.1.map (.char state.1.activeTag)

/-- One character moves its share from what is still to come to what was yielded. -/
theorem parseChar_spec {parser : TaggedLineParser τ} (h : Between parser) (run : List Char)
    (segments : List (TaggedLineSegment τ)) (ch : Char) :
    Between (parseChar specs (parser, run, segments) ch).1 ∧ ∀ text,
      yielded (parseChar specs (parser, run, segments) ch) ++
          meaning specs (parseChar specs (parser, run, segments) ch).1 text =
        yielded (parser, run, segments) ++ meaning specs parser (ch :: text) := by
  obtain ⟨active, detect, buffer⟩ := parser
  obtain ⟨hline, hempty⟩ := h
  dsimp only at hline hempty
  unfold parseChar
  dsimp only
  cases detect with
  | true =>
    rw [if_pos rfl]
    have hflush := atomsOf_flush active run segments
    generalize (if run = [] then segments else pushText active run segments) = flushed at *
    split_ifs with hnewline hprefix
    · subst hnewline
      obtain ⟨hactive, hatoms⟩ := @closeLine_eq τ _ specs active (buffer ++ ['\n']) flushed
      refine ⟨⟨by simp, by simp⟩, fun text ↦ ?_⟩
      simp only [yielded, meaning, if_true, List.nil_append, List.map_nil, List.append_nil, hactive, hatoms]
      rw [textLines_append_newline hline, readLines, hflush, List.append_assoc (atomsOf segments ++ _)]
    · refine ⟨⟨?_, by simp⟩, fun text ↦ ?_⟩
      · rw [List.mem_append, List.mem_singleton, not_or]
        exact ⟨hline, Ne.symm hnewline⟩
      · simp only [yielded, meaning, if_true, List.map_nil, List.append_nil, hflush, List.append_assoc,
          List.singleton_append]
    · rw [not_or] at hprefix
      refine ⟨⟨by simp, by simp⟩, fun text ↦ ?_⟩
      have hbuffered : '\n' ∉ buffer ++ [ch] := by
        rw [List.mem_append, List.mem_singleton, not_or]
        exact ⟨hline, Ne.symm hnewline⟩
      have hlines : textLines (buffer ++ ch :: text) =
          (buffer ++ [ch] ++ (textLines text).headD []) :: (textLines text).tail := by
        rw [← textLines_append hbuffered (by simp), List.append_assoc, List.singleton_append]
      have htext := readLine_of_not_isTagPrefix hprefix.1 (Bool.not_eq_true _ ▸ hprefix.2) active
        ((textLines text).headD [])
      simp only [yielded, meaning, Bool.false_eq_true, if_false, if_true, List.map_nil, List.append_nil,
        atomsOf_pushText, hflush, hlines, readLines, htext]
      simp only [List.map_append, List.append_assoc]
  | false =>
    obtain rfl := hempty rfl
    rw [if_neg Bool.false_ne_true]
    split_ifs with hnewline
    · subst hnewline
      refine ⟨⟨by simp, by simp⟩, fun text ↦ ?_⟩
      simp only [yielded, meaning, Bool.false_eq_true, if_false, if_true, List.nil_append, List.map_nil,
        List.append_nil, atomsOf_pushText, List.map_append, textLines, List.headD_cons, List.tail_cons,
        List.append_assoc]
    · refine ⟨⟨by simp, by simp⟩, fun text ↦ ?_⟩
      have hlines : textLines (ch :: text) =
          (ch :: (textLines text).headD []) :: (textLines text).tail :=
        textLines_append (by simpa using Ne.symm hnewline) (List.cons_ne_nil ch []) text
      simp only [yielded, meaning, Bool.false_eq_true, if_false, hlines, List.headD_cons, List.tail_cons,
        List.map_append, List.map_cons, List.map_nil, List.append_assoc, List.cons_append, List.nil_append]

theorem parse_spec {parser : TaggedLineParser τ} (h : Between parser) (delta : List Char) :
    Between (parser.parse specs delta).1 ∧ ∀ text,
      atomsOf (parser.parse specs delta).2 ++ meaning specs (parser.parse specs delta).1 text =
        meaning specs parser (delta ++ text) := by
  have hfold : ∀ (delta : List Char) (state : TaggedLineParser τ × List Char × List (TaggedLineSegment τ)),
      Between state.1 → Between (delta.foldl (parseChar specs) state).1 ∧ ∀ text,
        yielded (delta.foldl (parseChar specs) state) ++
            meaning specs (delta.foldl (parseChar specs) state).1 text =
          yielded state ++ meaning specs state.1 (delta ++ text) := by
    intro delta
    induction delta with
    | nil => exact fun state hstate ↦ ⟨hstate, fun _ ↦ rfl⟩
    | cons ch delta ih =>
      intro state hstate
      obtain ⟨hnext, hstep⟩ := @parseChar_spec τ _ specs state.1 hstate state.2.1 state.2.2 ch
      obtain ⟨hlast, hrest⟩ := ih _ hnext
      exact ⟨hlast, fun text ↦ (hrest text).trans (hstep (delta ++ text))⟩
  obtain ⟨hlast, hrest⟩ := hfold delta (parser, [], []) h
  refine ⟨hlast, fun text ↦ ?_⟩
  have hflush := atomsOf_flush (delta.foldl (parseChar specs) (parser, [], [])).1.activeTag
    (delta.foldl (parseChar specs) (parser, [], [])).2.1
    (delta.foldl (parseChar specs) (parser, [], [])).2.2
  exact (congrArg (· ++ _) hflush).trans (hrest text)

theorem finish_spec {parser : TaggedLineParser τ} (h : Between parser) :
    atomsOf (parser.finish specs).2 = meaning specs parser [] := by
  have hend : ∀ (active : Option τ) (segments : List (TaggedLineSegment τ)),
      atomsOf (active.elim segments fun tag ↦ pushSegment segments (.tagEnd tag)) =
        atomsOf segments ++ active.toList.map .stop := by
    intro active segments
    cases active with
    | none => exact (List.append_nil _).symm
    | some tag => exact atomsOf_pushSegment segments (.tagEnd tag)
  obtain ⟨active, detect, buffer⟩ := parser
  unfold finish
  dsimp only
  rw [hend]
  by_cases hbuffer : buffer = []
  · subst hbuffer
    cases detect <;> rfl
  · have hdetect : detect = true := by
      by_contra hnot
      exact hbuffer (h.unbuffered (Bool.not_eq_true _ ▸ hnot))
    obtain ⟨hactive, hatoms⟩ := @closeLine_eq τ _ specs active buffer []
    have hlines := textLines_append h.one_line hbuffer []
    simp only [if_neg hbuffer, hactive, hatoms, meaning, hdetect, if_true, hlines]
    simp [textLines, readLines, atomsOf]

end TaggedLineParser

end SpineCodex
