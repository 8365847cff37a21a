import SpineCodex.Exec.AllowRules
import SpineCodex.Exec.DangerousCommands
import SpineCodex.Permissions.Policy

/-!
# Approval of commands and amendments

A command that the rules leave to the heuristics may need an approval. The request can suggest a rule, and
the suggestion is offered as an amendment if the merged policy with that rule would allow every command.
An amendment that is accepted is added to the current policy, without the overlay, unless that policy
allows the words of the amendment already. The texts of shell words, the danger of a command and the
paths of the platform are parameters.
-/

namespace SpineCodex

structure GranularApprovalConfig where
  sandboxApproval : Bool
  rules : Bool
deriving DecidableEq

inductive AskForApproval where
  | unlessTrusted
  | onRequest
  | granular (config : GranularApprovalConfig)
  | never
deriving DecidableEq

/-- What the platform says about commands. -/
structure CommandReader (Path : Type) where
  absolutePath : String → Option Path
  lookupKey : Path → Option String
  renderShlexCommand : List String → String
  dangerousCommandMatch : List String → Option DangerousCommandMatch

/-! ## Commands without a rule -/

structure UnmatchedCommandContext where
  approvalPolicy : AskForApproval
  kind : FileSystemSandboxKind
  requestsSandboxOverride : Bool
  /-- The managed restrictions of a Windows host without a sandbox. -/
  restrictionsWithoutBackend : Bool

def renderDecisionForUnmatchedCommand (dangerousCommandMatch : List String → Option DangerousCommandMatch)
    (context : UnmatchedCommandContext) (command : List String) : Decision :=
  if (dangerousCommandMatch command).isSome || context.restrictionsWithoutBackend then
    if context.approvalPolicy = .never then .forbidden else .prompt
  else
    match context.approvalPolicy with
    | .never => .allow
    | .unlessTrusted => .prompt
    | .onRequest | .granular _ =>
      if context.kind = .restricted ∧ context.requestsSandboxOverride = true then .prompt else .allow

/-! ## Requests and requirements -/

structure ExecApprovalRequest (Path : Type) where
  command : List String
  context : UnmatchedCommandContext
  environmentPolicy : Option (Policy Path)
  prefixRule : Option (List String)
  allowPrefixRules : AllowPrefixRules

inductive ExecApprovalRequirement where
  | skip (bypassSandbox : Bool) (proposedExecpolicyAmendment : Option (List String))
  | needsApproval (reason : Option String) (proposedExecpolicyAmendment : Option (List String))
  | forbidden (reason : String)
deriving DecidableEq

def bannedPrefixSuggestions : List (List String) :=
  [["/bin/bash"], ["/bin/bash", "-c"], ["/bin/bash", "-lc"], ["/bin/sh"], ["/bin/sh", "-c"],
    ["/bin/sh", "-lc"], ["/bin/zsh"], ["/bin/zsh", "-c"], ["/bin/zsh", "-lc"], ["Rscript"], ["bash"],
    ["bash", "-c"], ["bash", "-lc"], ["bun"], ["bun", "-e"], ["bun", "run"], ["cmd"], ["cmd", "/c"],
    ["cmd", "/k"], ["cmd.exe"], ["cmd.exe", "/c"], ["cmd.exe", "/k"], ["dash"], ["dash", "-c"], ["deno"],
    ["deno", "eval"], ["env"], ["fish"], ["fish", "-c"], ["git"], ["julia"], ["julia", "-e"], ["ksh"],
    ["ksh", "-c"], ["lua"], ["lua", "-e"], ["node"], ["node", "-e"], ["nodejs"], ["nodejs", "-e"],
    ["npm", "run"], ["osascript"], ["perl"], ["perl", "-e"], ["php"], ["php", "-r"], ["pnpm", "run"],
    ["powershell"], ["powershell", "-Command"], ["powershell", "-EncodedCommand"], ["powershell", "-File"],
    ["powershell", "-c"], ["powershell.exe"], ["powershell.exe", "-Command"],
    ["powershell.exe", "-EncodedCommand"], ["powershell.exe", "-File"], ["powershell.exe", "-c"], ["pwsh"],
    ["pwsh", "-Command"], ["pwsh", "-EncodedCommand"], ["pwsh", "-File"], ["pwsh", "-c"], ["pwsh", "-e"],
    ["pwsh", "-ec"], ["pwsh", "-f"], ["py"], ["py", "-3"], ["pypy"], ["pypy3"], ["python"], ["python", "-"],
    ["python", "-c"], ["python3"], ["python3", "-"], ["python3", "-c"], ["pythonw"], ["pyw"], ["rm"],
    ["ruby"], ["ruby", "-e"], ["sh"], ["sh", "-c"], ["sh", "-lc"], ["sudo"], ["yarn", "run"], ["zsh"],
    ["zsh", "-c"], ["zsh", "-lc"]]

section Requirement

variable {Path : Type}

def RuleMatch.isPolicyMatch : RuleMatch Path → Bool
  | prefixRuleMatch .. => true
  | heuristicsRuleMatch .. => false

def RuleMatch.isAllowRule (found : RuleMatch Path) : Bool := found.isPolicyMatch && found.decision = .allow

def RuleMatch.isPromptRule (found : RuleMatch Path) : Bool := found.isPolicyMatch && found.decision = .prompt

def promptIsRejectedByPolicy (approvalPolicy : AskForApproval) (promptIsRule : Bool) : Option String :=
  match approvalPolicy with
  | .never => some "approval required by policy, but AskForApproval is set to Never"
  | .onRequest | .unlessTrusted => none
  | .granular config =>
    if promptIsRule then
      if config.rules then none
      else some "approval required by policy rule, but AskForApproval::Granular.rules is false"
    else if config.sandboxApproval then none
    else some "approval required by policy, but AskForApproval::Granular.sandbox_approval is false"

/-- The words and the justification of the last of the longest rules with the decision. -/
def mostSpecific (decision : Decision) (matchedRules : List (RuleMatch Path)) :
    Option (List String × Option String) :=
  matchedRules.foldl (fun best found ↦
    match found with
    | .prefixRuleMatch matched found _ justification =>
      if found = decision ∧ best.all (·.1.length ≤ matched.length) then some (matched, justification)
      else best
    | .heuristicsRuleMatch .. => best) none

def derivePromptReason (reader : CommandReader Path) (command : List String)
    (matchedRules : List (RuleMatch Path)) : Option String :=
  (mostSpecific .prompt matchedRules).map fun (_, justification) ↦
    match justification with
    | some justification =>
      "`" ++ reader.renderShlexCommand command ++ "` requires approval: " ++ justification
    | none => "`" ++ reader.renderShlexCommand command ++ "` requires approval by policy"

def dangerousCommandRejectionReason : DangerousCommandMatch → String
  | .forcedRm => "rm -f style commands are not permitted. Use a safer approach"
  | .other => "blocked by policy"

def deriveForbiddenReason (reader : CommandReader Path) (command : List String)
    (matchedRules : List (RuleMatch Path)) (dangerous : Option DangerousCommandMatch) : String :=
  let rejected := "`" ++ reader.renderShlexCommand command ++ "` rejected: "
  match mostSpecific .forbidden matchedRules, dangerous with
  | some (_, some justification), _ => rejected ++ justification
  | some (matched, none), _ =>
    rejected ++ "policy forbids commands starting with `" ++ reader.renderShlexCommand matched ++ "`"
  | none, some dangerous => rejected ++ dangerousCommandRejectionReason dangerous
  | none, none => rejected ++ "blocked by policy"

def deriveRejectedPromptReason (fallbackReason : String) (dangerous : Option DangerousCommandMatch) : String :=
  if dangerous = some .forcedRm then dangerousCommandRejectionReason .forcedRm else fallbackReason

/-- The danger of the first command that the heuristics gave the decision and that has one. -/
def dangerousCommandMatchForHeuristics (reader : CommandReader Path) (decision : Decision)
    (matchedRules : List (RuleMatch Path)) : Option DangerousCommandMatch :=
  matchedRules.findSome? fun
    | .heuristicsRuleMatch command found =>
      if found = decision then reader.dangerousCommandMatch command else none
    | .prefixRuleMatch .. => none

/-- The first command with a decision of the heuristics. -/
def heuristicsCommand (decision : Decision) (matchedRules : List (RuleMatch Path)) : Option (List String) :=
  matchedRules.findSome? fun
    | .heuristicsRuleMatch command found => if found = decision then some command else none
    | .prefixRuleMatch .. => none

def tryDeriveExecpolicyAmendmentForPromptRules (matchedRules : List (RuleMatch Path)) :
    Option (List String) :=
  if matchedRules.any (·.isPromptRule) then none else heuristicsCommand .prompt matchedRules

def tryDeriveExecpolicyAmendmentForAllowRules (matchedRules : List (RuleMatch Path)) :
    Option (List String) :=
  if matchedRules.any (·.isPolicyMatch) then none else heuristicsCommand .allow matchedRules

variable [DecidableEq Path] (reader : CommandReader Path)

def matchOptions : MatchOptions := ⟨true⟩

def prefixRuleWouldApproveAllCommands (execPolicy : Policy Path) (prefixRule : List String)
    (commands : List (List String)) (execPolicyFallback : List String → Decision) : Bool :=
  match execPolicy.addPrefixRule prefixRule .allow with
  | .error _ => false
  | .ok policyWithPrefixRule =>
    commands.all fun command ↦
      (policyWithPrefixRule.checkWithOptions reader.absolutePath reader.lookupKey command execPolicyFallback
        matchOptions).any (·.decision = .allow)

def deriveRequestedExecpolicyAmendmentFromPrefixRule (prefixRule : Option (List String))
    (matchedRules : List (RuleMatch Path)) (execPolicy : Policy Path) (commands : List (List String))
    (execPolicyFallback : List String → Decision) : Option (List String) :=
  prefixRule.filter fun prefixRule ↦
    !prefixRule.isEmpty && !bannedPrefixSuggestions.contains prefixRule &&
      !matchedRules.any (·.isPolicyMatch) &&
      prefixRuleWouldApproveAllCommands reader execPolicy prefixRule commands execPolicyFallback

namespace ExecApprovalRequest

def execPolicyFallback (request : ExecApprovalRequest Path) : List String → Decision :=
  renderDecisionForUnmatchedCommand reader.dangerousCommandMatch request.context

def execPolicy (request : ExecApprovalRequest Path) (current : Policy Path) : Policy Path :=
  current.currentForEnvironment request.environmentPolicy request.allowPrefixRules

def evaluation (request : ExecApprovalRequest Path) (current : Policy Path) (commands : List (List String)) :
    Option (Evaluation Path) :=
  (request.execPolicy current).checkMultipleWithOptions reader.absolutePath reader.lookupKey commands
    (request.execPolicyFallback reader) matchOptions

/-- Models that do not honor prefix rules get no reusable approvals. -/
def requestedAmendment (request : ExecApprovalRequest Path) (current : Policy Path)
    (commands : List (List String)) (matchedRules : List (RuleMatch Path)) : Option (List String) :=
  if request.allowPrefixRules = .honor then
    deriveRequestedExecpolicyAmendmentFromPrefixRule reader request.prefixRule matchedRules
      (request.execPolicy current) commands (request.execPolicyFallback reader)
  else none

def requirementFor (request : ExecApprovalRequest Path) (current : Policy Path)
    (commands : List (List String)) (evaluation : Evaluation Path) : ExecApprovalRequirement :=
  let dangerous := fun decision ↦ dangerousCommandMatchForHeuristics reader decision evaluation.matchedRules
  match evaluation.decision with
  | .forbidden =>
    .forbidden (deriveForbiddenReason reader request.command evaluation.matchedRules (dangerous .forbidden))
  | .prompt =>
    let promptIsRule := evaluation.matchedRules.any (·.isPromptRule)
    match promptIsRejectedByPolicy request.context.approvalPolicy promptIsRule with
    | some reason =>
      .forbidden (if promptIsRule then reason else deriveRejectedPromptReason reason (dangerous .prompt))
    | none =>
      .needsApproval (derivePromptReason reader request.command evaluation.matchedRules)
        ((request.requestedAmendment reader current commands evaluation.matchedRules).or
          (if request.allowPrefixRules = .honor then
            tryDeriveExecpolicyAmendmentForPromptRules evaluation.matchedRules else none))
  | .allow =>
    .skip
      (commands.all fun command ↦ ((request.execPolicy current).matchesForCommandWithOptions
        reader.absolutePath reader.lookupKey command none matchOptions).any (·.isAllowRule))
      (if request.allowPrefixRules = .honor then
        tryDeriveExecpolicyAmendmentForAllowRules evaluation.matchedRules else none)

end ExecApprovalRequest

/-- Without a command there is no evaluation. -/
def createExecApprovalRequirementForParsedCommands (current : Policy Path)
    (request : ExecApprovalRequest Path) (commands : List (List String)) : Option ExecApprovalRequirement :=
  (request.evaluation reader current commands).map (request.requirementFor reader current commands)

/-! ## Amendments -/

inductive ExecPolicyUpdateError where
  | appendRule (source : String)
  | joinBlockingTask
  | addRule (source : String)
deriving DecidableEq

/-- Rules, and only rules that allow, match the words. -/
def alreadyAllowed (current : Policy Path) (amendment : List String) : Bool :=
  (current.checkMultipleWithOptions reader.absolutePath reader.lookupKey [amendment] (fun _ ↦ .forbidden)
    matchOptions).any fun evaluation ↦
      evaluation.decision = .allow && evaluation.matchedRules.any (·.isAllowRule)

/-- The current policy after an amendment; `appended` is the outcome of writing the rules file. -/
def appendAmendmentAndUpdate (current : Policy Path) (appended : Except ExecPolicyUpdateError Unit)
    (amendment : List String) : Except ExecPolicyUpdateError (Policy Path) :=
  match appended with
  | .error error => .error error
  | .ok () =>
    if alreadyAllowed reader current amendment then .ok current
    else (current.addPrefixRule amendment .allow).mapError .addRule

end Requirement

end SpineCodex
