import SpineCodex.Spine.CharParser

/-!
# Events of the character parser

The parser holds assistant messages back until another character or the end of a sampling releases
them.  Over any run of calls nothing is lost, doubled or moved: the events emitted so far, followed
by the messages that are held back, are the characters in their order.
-/

namespace SpineCodex

/-- The event that a character becomes. -/
def SpineChar.event : SpineChar → RolloutEvent
  | .message m => .message m
  | .opaqueItem boundary => .opaqueItem boundary
  | .synthetic boundary item => .synthetic boundary item

/-- A call of the parser that does not end an epoch. -/
inductive ParserCall where
  | eat (character : SpineChar)
  | finishSampling (boundary : RawBoundary)
  deriving DecidableEq

namespace ParserCall

def character? : ParserCall → Option SpineChar
  | eat character => some character
  | finishSampling _ => none

/-- The assistant message that a call feeds. -/
def assistant? : ParserCall → Option Message
  | eat (.message m) => if m.role = .assistant then some m else none
  | eat (.opaqueItem _) | eat (.synthetic _ _) | finishSampling _ => none

/-- The characters that are fed. -/
def characters (calls : List ParserCall) : List SpineChar := calls.filterMap character?

/-- The longest run of assistant messages at the end, as no call in it flushes the parser. -/
def heldBack (calls : List ParserCall) : List Message :=
  (calls.rtakeWhile fun call ↦ call.assistant?.isSome).filterMap assistant?

theorem heldBack_concat_of_some {calls : List ParserCall} {call : ParserCall} {m : Message}
    (h : call.assistant? = some m) : heldBack (calls ++ [call]) = heldBack calls ++ [m] := by
  rw [heldBack, List.rtakeWhile_concat_pos _ _ _ (by rw [h]; rfl), List.filterMap_append,
    List.filterMap_cons_some h, List.filterMap_nil]
  rfl

theorem heldBack_concat_of_none {calls : List ParserCall} {call : ParserCall}
    (h : call.assistant? = none) : heldBack (calls ++ [call]) = [] := by
  rw [heldBack, List.rtakeWhile_concat_neg _ _ _ (by rw [h]; exact Bool.false_ne_true),
    List.filterMap_nil]

end ParserCall

namespace SpineCharParser

def step (p : SpineCharParser) :
    ParserCall → Outcome CharParseError (SpineCharParser × List RolloutEvent)
  | .eat character => p.eat character
  | .finishSampling _ => .ok p.finishSampling

/-- The parser and the events emitted so far, after one more call. -/
def advance (state : SpineCharParser × List RolloutEvent) (call : ParserCall) :
    Outcome CharParseError (SpineCharParser × List RolloutEvent) := do
  let (p, events) ← state.1.step call
  pure (p, state.2 ++ events)

/-- The calls on a new parser. -/
def run (calls : List ParserCall) : Outcome CharParseError (SpineCharParser × List RolloutEvent) :=
  calls.foldlM advance (default, [])

/-- What a parser has emitted and holds back after some calls. -/
structure Conserves (calls : List ParserCall) (p : SpineCharParser) (events : List RolloutEvent) :
    Prop where
  order : events ++ p.trailingAssistant.map .message =
    (ParserCall.characters calls).map SpineChar.event
  pending : p.trailingAssistant = ParserCall.heldBack calls
  last : p.lastBoundary = (ParserCall.characters calls).getLast?.map SpineChar.boundary

/-! ## One call -/

/-- A character is held back, or it follows what was held back. -/
theorem applyChar_cases (p : SpineCharParser) (character : SpineChar) :
    (p.applyChar character).1.lastBoundary = some character.boundary ∧
    ((∃ m, (ParserCall.eat character).assistant? = some m ∧ character = .message m ∧
        (p.applyChar character).1.trailingAssistant = p.trailingAssistant ++ [m] ∧
        (p.applyChar character).2 = []) ∨
      ((ParserCall.eat character).assistant? = none ∧
        (p.applyChar character).1.trailingAssistant = [] ∧
        (p.applyChar character).2 = p.trailingAssistant.map .message ++ [character.event])) := by
  cases character with
  | message m =>
    by_cases hrole : m.role = .assistant
    · rw [applyChar, if_pos hrole]
      exact ⟨rfl, .inl ⟨m, if_pos hrole, rfl, rfl, rfl⟩⟩
    · rw [applyChar, if_neg hrole]
      exact ⟨rfl, .inr ⟨if_neg hrole, rfl, rfl⟩⟩
  | opaqueItem boundary => exact ⟨rfl, .inr ⟨rfl, rfl, rfl⟩⟩
  | synthetic boundary item => exact ⟨rfl, .inr ⟨rfl, rfl, rfl⟩⟩

variable {calls : List ParserCall} {p : SpineCharParser} {events : List RolloutEvent}

theorem Conserves.applyChar (h : Conserves calls p events) (character : SpineChar) :
    Conserves (calls ++ [.eat character]) (p.applyChar character).1
      (events ++ (p.applyChar character).2) := by
  obtain ⟨hlast, hcases⟩ := p.applyChar_cases character
  have hcharacters : ParserCall.characters (calls ++ [.eat character]) =
      ParserCall.characters calls ++ [character] := List.filterMap_append
  have hmap : (ParserCall.characters (calls ++ [.eat character])).map SpineChar.event =
      events ++ p.trailingAssistant.map .message ++ [character.event] := by
    rw [hcharacters, List.map_append, ← h.order]
    rfl
  refine ⟨?_, ?_, ?_⟩
  · rw [hmap]
    obtain ⟨m, -, rfl, htrailing, hevents⟩ | ⟨-, htrailing, hevents⟩ := hcases
    · rw [htrailing, hevents, List.append_nil, List.map_append, List.append_assoc]
      rfl
    · rw [htrailing, hevents, List.map_nil, List.append_nil, List.append_assoc]
  · obtain ⟨m, hassistant, -, htrailing, -⟩ | ⟨hassistant, htrailing, -⟩ := hcases
    · rw [htrailing, ParserCall.heldBack_concat_of_some hassistant, h.pending]
    · rw [htrailing, ParserCall.heldBack_concat_of_none hassistant]
  · rw [hlast, hcharacters, List.getLast?_concat]
    rfl

theorem Conserves.finishSampling (h : Conserves calls p events) (boundary : RawBoundary) :
    Conserves (calls ++ [.finishSampling boundary]) p.finishSampling.1
      (events ++ p.finishSampling.2) := by
  have hcharacters : ParserCall.characters (calls ++ [.finishSampling boundary]) =
      ParserCall.characters calls :=
    List.filterMap_append.trans (List.append_nil _)
  refine ⟨?_, ?_, ?_⟩
  · rw [hcharacters, ← h.order]
    exact List.append_nil _
  · rw [ParserCall.heldBack_concat_of_none rfl]
    rfl
  · rw [hcharacters, ← h.last]
    rfl

/-! ## Whole runs -/

/-- Characters with boundaries that never decrease are fed without an error, whatever samplings are
finished between them; what is emitted and what is held back are the characters, one event each,
and held back are the assistant messages since the last flush. -/
theorem run_conserves (h : (ParserCall.characters calls).Pairwise
      fun first second ↦ first.boundary ≤ second.boundary) :
    ∃ p events, run calls = .ok (p, events) ∧
      events ++ p.trailingAssistant.map .message =
        (ParserCall.characters calls).map SpineChar.event ∧
      p.trailingAssistant = ParserCall.heldBack calls := by
  suffices hrun : ∃ p events, run calls = .ok (p, events) ∧ Conserves calls p events by
    obtain ⟨p, events, hrun, hconserves⟩ := hrun
    exact ⟨p, events, hrun, hconserves.order, hconserves.pending⟩
  induction calls using List.reverseRecOn with
  | nil => exact ⟨default, [], rfl, rfl, rfl, rfl⟩
  | append_singleton calls call ih =>
    have hcharacters : ParserCall.characters (calls ++ [call]) =
        ParserCall.characters calls ++ ParserCall.characters [call] := List.filterMap_append
    rw [hcharacters, List.pairwise_append] at h
    obtain ⟨hbefore, -, hnext⟩ := h
    obtain ⟨p, events, hrun, hconserves⟩ := ih hbefore
    have hstep : run (calls ++ [call]) = advance (p, events) call := by
      rw [run, List.foldlM_append, ← run, hrun, Outcome.ok_bind, List.foldlM_cons]
      exact bind_pure _
    cases call with
    | finishSampling boundary =>
      exact ⟨_, _, hstep, hconserves.finishSampling boundary⟩
    | eat character =>
      -- the last boundary is that of a character before, so that it is not above the next one
      have hmonotonic : p.requireMonotonic character.boundary = .ok () := by
        have hnone : precedes character.boundary p.lastBoundary = none := by
          rw [precedes, Option.filter_eq_none_iff, hconserves.last]
          intro last hlast hlt
          obtain ⟨previous, hprevious, rfl⟩ := Option.map_eq_some_iff.mp hlast
          have hle := hnext previous (List.mem_of_getLast? hprevious) character List.mem_cons_self
          exact absurd hle (not_le.mpr (of_decide_eq_true hlt))
        rw [requireMonotonic, hnone]
      have heat : p.eat character = .ok (p.applyChar character) := by
        rw [eat, hmonotonic]
        rfl
      refine ⟨_, _, hstep.trans ?_, hconserves.applyChar character⟩
      rw [advance, step, heat]
      rfl

/-- Two answers, one of them released by the end of a sampling, and a third one held back. -/
def answers : List ParserCall :=
  [.eat (.message ⟨1, .assistant, "a"⟩), .eat (.opaqueItem 1), .eat (.message ⟨2, .assistant, "b"⟩),
    .finishSampling 2, .eat (.message ⟨4, .assistant, "c"⟩)]

theorem answers_conserved :
    ParserCall.heldBack answers = [⟨4, .assistant, "c"⟩] ∧
    ∃ p events, run answers = .ok (p, events) ∧
      events ++ p.trailingAssistant.map .message =
        (ParserCall.characters answers).map SpineChar.event ∧
      p.trailingAssistant = ParserCall.heldBack answers :=
  ⟨by decide, run_conserves (by decide)⟩

end SpineCharParser

end SpineCodex
