import SpineCodex.Lib.Traversal
import SpineCodex.Lib.Text

/-!
# Command rules and how a command is matched

Rules are kept by the program they are for. A command is matched against the rules of its first
word; only if none of them matches, and the option is set, against the rules of the basename of an
absolute program path. A table may restrict a basename to listed paths. The strictest of the matched
decisions wins. Reading an absolute path, and the name under which a path is looked up, depend on
the platform and are parameters.
-/

namespace SpineCodex

/-! ## Decisions -/

/-- From the least to the most restrictive. -/
inductive Decision where
  | allow
  | prompt
  | forbidden
deriving DecidableEq

def Decision.rank : Decision → ℕ
  | allow => 0
  | prompt => 1
  | forbidden => 2

theorem Decision.rank_injective : Function.Injective Decision.rank := by
  intro a b h
  cases a <;> cases b <;> simp_all [rank]

instance : LinearOrder Decision := LinearOrder.lift' Decision.rank Decision.rank_injective

theorem Decision.allow_le (d : Decision) : Decision.allow ≤ d := Nat.zero_le d.rank

/-! ## Rules -/

inductive PatternToken where
  | single (expected : String)
  | alts (alternatives : List String)
deriving DecidableEq

def PatternToken.matches : PatternToken → String → Bool
  | single expected, token => expected == token
  | alts alternatives, token => alternatives.any (· == token)

def PatternToken.alternatives : PatternToken → List String
  | single expected => [expected]
  | alts alternatives => alternatives

structure PrefixPattern where
  first : String
  rest : List PatternToken
deriving DecidableEq

def PrefixPattern.matchesPrefix (pattern : PrefixPattern) (cmd : List String) :
    Option (List String) :=
  let patternLength := pattern.rest.length + 1
  if cmd.length < patternLength ∨ cmd.head? ≠ some pattern.first then none
  else if (pattern.rest.zip cmd.tail).all fun (pattern, token) => pattern.matches token then
    some (cmd.take patternLength)
  else none

structure PrefixRule where
  pattern : PrefixPattern
  decision : Decision
  justification : Option String
deriving DecidableEq

inductive RuleMatch (Path : Type) where
  | prefixRuleMatch (matchedPrefix : List String) (decision : Decision)
      (resolvedProgram : Option Path) (justification : Option String)
  | heuristicsRuleMatch (command : List String) (decision : Decision)
deriving DecidableEq

section Matching

variable {Path : Type}

def RuleMatch.decision : RuleMatch Path → Decision
  | prefixRuleMatch _ decision _ _ => decision
  | heuristicsRuleMatch _ decision => decision

def RuleMatch.withResolvedProgram (resolved : Path) : RuleMatch Path → RuleMatch Path
  | prefixRuleMatch matched decision _ justification =>
    prefixRuleMatch matched decision (some resolved) justification
  | heuristicsRuleMatch command decision => heuristicsRuleMatch command decision

@[simp]
theorem RuleMatch.decision_withResolvedProgram (resolved : Path) (found : RuleMatch Path) :
    (found.withResolvedProgram resolved).decision = found.decision := by
  cases found <;> rfl

def PrefixRule.matches (rule : PrefixRule) (cmd : List String) : Option (RuleMatch Path) :=
  (rule.pattern.matchesPrefix cmd).map fun matched =>
    .prefixRuleMatch matched rule.decision none rule.justification

/-! ## Policies -/

inductive NetworkRuleProtocol where
  | http
  | https
  | socks5Tcp
  | socks5Udp
deriving DecidableEq

structure NetworkRule where
  host : String
  protocol : NetworkRuleProtocol
  decision : Decision
  justification : Option String
deriving DecidableEq

/-- The rules by program in the order in which they were added, and for a name the paths it may
resolve from. -/
structure Policy (Path : Type) where
  rulesByProgram : List (String × PrefixRule)
  networkRules : List NetworkRule
  hostExecutablesByName : String → Option (List Path)

namespace Policy

def new (rulesByProgram : List (String × PrefixRule)) : Policy Path := ⟨rulesByProgram, [], fun _ => none⟩

/-- The rules kept for a program. -/
def rulesFor (policy : Policy Path) (program : String) : List PrefixRule :=
  (policy.rulesByProgram.filter (·.1 == program)).map (·.2)

def addPrefixRule (policy : Policy Path) (words : List String) (decision : Decision) :
    Except String (Policy Path) :=
  match words with
  | [] => .error "prefix cannot be empty"
  | first :: rest =>
    let rule : PrefixRule := ⟨⟨first, rest.map .single⟩, decision, none⟩
    .ok { policy with rulesByProgram := policy.rulesByProgram ++ [(first, rule)] }

/-- Rules of both; the overlay's table of paths wins for the names it has. -/
def mergeOverlay (policy overlay : Policy Path) : Policy Path where
  rulesByProgram := policy.rulesByProgram ++ overlay.rulesByProgram
  networkRules := policy.networkRules ++ overlay.networkRules
  hostExecutablesByName name :=
    (overlay.hostExecutablesByName name).or (policy.hostExecutablesByName name)

/-- Amendments approved one after another; one that is refused changes nothing. -/
def amend (policy : Policy Path) (amendments : List (List String)) : Policy Path :=
  amendments.foldl (fun policy words =>
    match policy.addPrefixRule words .allow with
    | .ok policy => policy
    | .error _ => policy) policy

/-- The user's rules, with the managed requirements on top if there are any. -/
def load (user : Policy Path) (requirements : Option (Policy Path)) : Policy Path :=
  match requirements with
  | none => user
  | some requirements => user.mergeOverlay requirements

end Policy

/-! ## Matching a command -/

structure MatchOptions where
  resolveHostExecutables : Bool

variable [DecidableEq Path] (absolutePath : String → Option Path) (lookupKey : Path → Option String)

namespace Policy

def matchExactRules (policy : Policy Path) (cmd : List String) : List (RuleMatch Path) :=
  match cmd with
  | [] => []
  | first :: _ => (policy.rulesFor first).filterMap (·.matches cmd)

/-- The table of paths, if it has the name, lists the program. -/
def listsProgram (policy : Policy Path) (basename : String) (program : Path) : Bool :=
  (policy.hostExecutablesByName basename).all fun paths => paths.contains program

def matchHostExecutableRules (policy : Policy Path) (cmd : List String) : List (RuleMatch Path) :=
  match cmd with
  | [] => []
  | first :: rest =>
    match absolutePath first with
    | none => []
    | some program =>
      match lookupKey program with
      | none => []
      | some basename =>
        if policy.listsProgram basename program then
          ((policy.rulesFor basename).filterMap (·.matches (basename :: rest))).map
            (·.withResolvedProgram program)
        else []

def matchesForCommandWithOptions (policy : Policy Path) (cmd : List String)
    (heuristicsFallback : Option (List String → Decision)) (options : MatchOptions) :
    List (RuleMatch Path) :=
  let exactMatches := policy.matchExactRules cmd
  let matched :=
    if exactMatches.isEmpty then
      if options.resolveHostExecutables then
        policy.matchHostExecutableRules absolutePath lookupKey cmd
      else []
    else exactMatches
  match heuristicsFallback with
  | some heuristics =>
    if matched.isEmpty then [.heuristicsRuleMatch cmd (heuristics cmd)] else matched
  | none => matched

end Policy

structure Evaluation (Path : Type) where
  decision : Decision
  matchedRules : List (RuleMatch Path)

/-- The strictest decision of the matched rules. -/
def strictest (found : List (RuleMatch Path)) : Decision :=
  found.foldr (fun rule decision => max rule.decision decision) .allow

/-- No match is a caller's error. -/
def Evaluation.fromMatches (found : List (RuleMatch Path)) : Option (Evaluation Path) :=
  if found.isEmpty then none else some ⟨strictest found, found⟩

def Policy.checkWithOptions (policy : Policy Path) (cmd : List String)
    (heuristicsFallback : List String → Decision) (options : MatchOptions) :
    Option (Evaluation Path) :=
  Evaluation.fromMatches
    (policy.matchesForCommandWithOptions absolutePath lookupKey cmd (some heuristicsFallback) options)

/-- With a fallback there is always a decision. -/
theorem Policy.checkWithOptions_isSome (policy : Policy Path) (cmd : List String)
    (heuristicsFallback : List String → Decision) (options : MatchOptions) :
    (policy.checkWithOptions absolutePath lookupKey cmd heuristicsFallback options).isSome = true := by
  simp only [checkWithOptions, Evaluation.fromMatches, matchesForCommandWithOptions]
  split_ifs <;> simp_all

end Matching

/-! ## Requirements -/

structure RequirementsExecPolicyPatternTokenToml where
  token : Option String
  anyOf : Option (List String)

structure RequirementsExecPolicyPrefixRuleToml where
  pattern : List RequirementsExecPolicyPatternTokenToml
  decision : Option Decision
  justification : Option String

structure RequirementsExecPolicyToml where
  prefixRules : List RequirementsExecPolicyPrefixRuleToml

inductive RequirementsExecPolicyParseError where
  | emptyPrefixRules
  | emptyPattern (ruleIndex : ℕ)
  | invalidPatternToken (ruleIndex tokenIndex : ℕ) (reason : String)
  | emptyJustification (ruleIndex : ℕ)
  | missingDecision (ruleIndex : ℕ)
  | allowDecisionNotAllowed (ruleIndex : ℕ)
deriving DecidableEq

def parsePatternToken (ruleIndex : ℕ) (token : RequirementsExecPolicyPatternTokenToml)
    (tokenIndex : ℕ) : Except RequirementsExecPolicyParseError PatternToken :=
  match token.token, token.anyOf with
  | some single, none =>
    if Blank single then .error (.invalidPatternToken ruleIndex tokenIndex "token cannot be empty")
    else .ok (.single single)
  | none, some alternatives =>
    if alternatives.isEmpty then
      .error (.invalidPatternToken ruleIndex tokenIndex "any_of cannot be empty")
    else if alternatives.any (Blank ·) then
      .error (.invalidPatternToken ruleIndex tokenIndex "any_of cannot include empty tokens")
    else .ok (.alts alternatives)
  | some _, some _ =>
    .error (.invalidPatternToken ruleIndex tokenIndex "set either token or any_of, not both")
  | none, none => .error (.invalidPatternToken ruleIndex tokenIndex "set either token or any_of")

/-- The rules of one entry: one for each alternative of its first token. -/
def parsePrefixRule (rule : RequirementsExecPolicyPrefixRuleToml) (ruleIndex : ℕ) :
    Except RequirementsExecPolicyParseError (List (String × PrefixRule)) :=
  if rule.justification.any (Blank ·) then .error (.emptyJustification ruleIndex)
  else if rule.pattern.isEmpty then .error (.emptyPattern ruleIndex)
  else do
    let tokens ← rule.pattern.zipIdx.mapM fun (token, index) => parsePatternToken ruleIndex token index
    match rule.decision with
    | some .allow => .error (.allowDecisionNotAllowed ruleIndex)
    | none => .error (.missingDecision ruleIndex)
    | some decision =>
      match tokens with
      | [] => .error (.emptyPattern ruleIndex)
      | first :: rest =>
        .ok (first.alternatives.map fun head => (head, ⟨⟨head, rest⟩, decision, rule.justification⟩))

def RequirementsExecPolicyToml.toPolicy {Path : Type} (toml : RequirementsExecPolicyToml) :
    Except RequirementsExecPolicyParseError (Policy Path) :=
  if toml.prefixRules.isEmpty then .error .emptyPrefixRules
  else do
    let rules ← toml.prefixRules.zipIdx.mapM fun (rule, index) => parsePrefixRule rule index
    return .new rules.flatten

end SpineCodex
