import SpineCodex.Exec.Approval

/-!
# Amendments take effect

An amendment is offered against the merged policy and added to the current policy alone. Added there, its
rule is consulted together with the same other rules as in the offer, so the request is asked no more. It is
not added if the current policy allows its words already; then the request is asked again. That happens where
the merged policy does not find the rule that allows them, as the overlay's table of host executables hides it
or the words name a program by a name that stands for another one.
-/

namespace SpineCodex

variable {Path : Type}

/-! ## The order of the rules -/

theorem strictest_perm {found found' : List (RuleMatch Path)} (h : found.Perm found') :
    strictest found = strictest found' :=
  le_antisymm (strictest_mono h.subset) (strictest_mono h.symm.subset)

namespace Policy

/-- A rule that is added before the overlay is laid on, or behind it. -/
theorem addPrefixRule_load {current updated : Policy Path} {words : List String}
    (hadd : current.addPrefixRule words .allow = .ok updated) (overlay : Option (Policy Path)) :
    ∃ merged, (current.load overlay).addPrefixRule words .allow = .ok merged ∧
      merged.rulesByProgram.Perm (updated.load overlay).rulesByProgram ∧
      merged.hostExecutablesByName = (updated.load overlay).hostExecutablesByName := by
  cases words with
  | nil => cases hadd
  | cons first rest =>
    obtain rfl := Except.ok.inj hadd
    refine ⟨_, rfl, ?_, ?_⟩
    · cases overlay with
      | none => exact .refl _
      | some overlay =>
        simp only [load, mergeOverlay, List.append_assoc]
        exact (List.perm_append_comm).append_left _
    · cases overlay <;> rfl

variable [DecidableEq Path] {absolutePath : String → Option Path} {lookupKey : Path → Option String}

/-- The same rules in another order match the same. -/
theorem matches_perm {policy policy' : Policy Path}
    (hrules : policy.rulesByProgram.Perm policy'.rulesByProgram)
    (htable : policy.hostExecutablesByName = policy'.hostExecutablesByName) (cmd : List String)
    (heuristics : Option (List String → Decision)) (options : MatchOptions) :
    (policy.matchesForCommandWithOptions absolutePath lookupKey cmd heuristics options).Perm
      (policy'.matchesForCommandWithOptions absolutePath lookupKey cmd heuristics options) := by
  have hstage : ∀ {first first' next next' : List (RuleMatch Path)}, first.Perm first' → next.Perm next' →
      (if first.isEmpty then next else first).Perm (if first'.isEmpty then next' else first') := by
    intro first first' next next' hfirst hnext
    rw [hfirst.isEmpty_eq]
    split_ifs
    · exact hnext
    · exact hfirst
  have hfor : ∀ program, (policy.rulesFor program).Perm (policy'.rulesFor program) :=
    fun program ↦ (hrules.filter _).map _
  have hexact : (policy.matchExactRules cmd).Perm (policy'.matchExactRules cmd : List (RuleMatch Path)) := by
    cases cmd with
    | nil => exact .refl _
    | cons first rest => exact (hfor first).filterMap _
  have hhost : (policy.matchHostExecutableRules absolutePath lookupKey cmd).Perm
      (policy'.matchHostExecutableRules absolutePath lookupKey cmd) := by
    cases cmd with
    | nil => exact .refl _
    | cons first rest =>
      unfold matchHostExecutableRules
      dsimp only
      cases absolutePath first with
      | none => exact .refl _
      | some program =>
        dsimp only
        cases lookupKey program with
        | none => exact .refl _
        | some basename =>
          dsimp only
          rw [listsProgram, listsProgram, htable]
          split_ifs
          · exact ((hfor basename).filterMap _).map _
          · exact .refl _
  unfold matchesForCommandWithOptions
  dsimp only
  have hmatched := hstage hexact
    (show (if options.resolveHostExecutables then _ else []).Perm
      (if options.resolveHostExecutables then _ else []) by
        split_ifs
        · exact hhost
        · exact .refl _)
  cases heuristics with
  | none => exact hmatched
  | some heuristics => exact hstage hmatched (.refl _)

end Policy

/-! ## Asking again -/

section Asking

variable [DecidableEq Path] {reader : CommandReader Path}

/-- The approval step asks and offers the amendment that the request suggests. -/
def AsksFor (reader : CommandReader Path) (current : Policy Path) (request : ExecApprovalRequest Path)
    (commands : List (List String)) (amendment : List String) : Prop :=
  ∃ evaluation reason, request.evaluation reader current commands = some evaluation ∧
    request.requestedAmendment reader current commands evaluation.matchedRules = some amendment ∧
    createExecApprovalRequirementForParsedCommands reader current request commands =
      some (.needsApproval reason (some amendment))

/-- What it takes that a suggestion is offered. -/
theorem requestedAmendment_eq_some {request : ExecApprovalRequest Path} {current : Policy Path}
    {commands : List (List String)} {matchedRules : List (RuleMatch Path)} {amendment : List String}
    (h : request.requestedAmendment reader current commands matchedRules = some amendment) :
    request.allowPrefixRules = .honor ∧ amendment ≠ [] ∧ (∀ found ∈ matchedRules, found.isPolicyMatch = false) ∧
      prefixRuleWouldApproveAllCommands reader (request.execPolicy current) amendment commands
        (request.execPolicyFallback reader) = true := by
  unfold ExecApprovalRequest.requestedAmendment at h
  split_ifs at h with hhonor
  rw [deriveRequestedExecpolicyAmendmentFromPrefixRule, Option.filter_eq_some_iff] at h
  obtain ⟨-, hconditions⟩ := h
  simp only [Bool.and_eq_true, Bool.not_eq_true', List.isEmpty_eq_false_iff, List.any_eq_false,
    Bool.not_eq_true] at hconditions
  exact ⟨hhonor, hconditions.1.1.1, hconditions.1.2, hconditions.2⟩

theorem checkWithOptions_eq_some (policy : Policy Path) (cmd : List String)
    (heuristics : List String → Decision) (options : MatchOptions) :
    policy.checkWithOptions reader.absolutePath reader.lookupKey cmd heuristics options =
      some ⟨strictest (policy.matchesForCommandWithOptions reader.absolutePath reader.lookupKey cmd
          (some heuristics) options),
        policy.matchesForCommandWithOptions reader.absolutePath reader.lookupKey cmd (some heuristics)
          options⟩ := by
  rw [Policy.checkWithOptions, Evaluation.fromMatches, if_neg]
  rw [List.isEmpty_iff]
  exact Policy.matchesForCommandWithOptions_ne_nil policy cmd heuristics options

/-- A policy with the rule in it allows the commands of the request. -/
theorem strictest_of_wouldApprove {current updated : Policy Path} {request : ExecApprovalRequest Path}
    {commands : List (List String)} {amendment : List String} (hhonor : request.allowPrefixRules = .honor)
    (happroves : prefixRuleWouldApproveAllCommands reader (request.execPolicy current) amendment commands
      (request.execPolicyFallback reader) = true)
    (hadd : current.addPrefixRule amendment .allow = .ok updated) {command : List String}
    (hcommand : command ∈ commands) :
    strictest ((request.execPolicy updated).matchesForCommandWithOptions reader.absolutePath
      reader.lookupKey command (some (request.execPolicyFallback reader)) matchOptions) = .allow := by
  have hpolicy : ∀ policy, request.execPolicy policy = policy.load request.environmentPolicy := by
    intro policy
    rw [ExecApprovalRequest.execPolicy, hhonor]
    rfl
  obtain ⟨merged, hmerged, hrules, htable⟩ := Policy.addPrefixRule_load hadd request.environmentPolicy
  rw [hpolicy, prefixRuleWouldApproveAllCommands, hmerged, List.all_eq_true] at happroves
  have hallowed := happroves command hcommand
  rw [checkWithOptions_eq_some, Option.any_some, decide_eq_true_eq] at hallowed
  rw [hpolicy, ← hallowed]
  exact (strictest_perm (Policy.matches_perm hrules htable command _ _)).symm

theorem append_of_alreadyAllowed {current : Policy Path} {amendment : List String}
    (h : alreadyAllowed reader current amendment = true) :
    appendAmendmentAndUpdate reader current (.ok ()) amendment = .ok current :=
  if_pos h

theorem append_of_not_alreadyAllowed {current updated : Policy Path} {amendment : List String}
    (h : alreadyAllowed reader current amendment = false) :
    appendAmendmentAndUpdate reader current (.ok ()) amendment = .ok updated ↔
      current.addPrefixRule amendment .allow = .ok updated := by
  rw [appendAmendmentAndUpdate, h, if_neg Bool.false_ne_true]
  cases current.addPrefixRule amendment .allow with
  | error error => exact ⟨(nomatch ·), (nomatch ·)⟩
  | ok policy => exact ⟨fun hok ↦ congrArg _ (Except.ok.inj hok), fun hok ↦ congrArg _ (Except.ok.inj hok)⟩

/-- Once an amendment that the request suggested is accepted, the same request is skipped exactly if the
current policy alone did not allow the words of the amendment before. -/
theorem skips_iff_not_alreadyAllowed {current updated : Policy Path} {request : ExecApprovalRequest Path}
    {commands : List (List String)} {amendment : List String}
    {appended : Except ExecPolicyUpdateError Unit}
    (hasks : AsksFor reader current request commands amendment)
    (hupdate : appendAmendmentAndUpdate reader current appended amendment = .ok updated) :
    (∃ bypassSandbox proposed, createExecApprovalRequirementForParsedCommands reader updated request commands =
      some (.skip bypassSandbox proposed)) ↔ alreadyAllowed reader current amendment = false := by
  obtain ⟨evaluation, reason, hevaluation, hrequested, hcreate⟩ := hasks
  obtain ⟨hhonor, hne, -, happroves⟩ := requestedAmendment_eq_some hrequested
  cases appended with
  | error error => cases hupdate
  | ok done =>
    cases hallowed : alreadyAllowed reader current amendment with
    | true =>
      -- nothing is stored, so the answer is the same as before
      obtain rfl := Except.ok.inj ((append_of_alreadyAllowed hallowed).symm.trans hupdate)
      rw [hcreate]
      constructor
      · rintro ⟨_, _, hskip⟩
        cases hskip
      · intro hnot
        cases hnot
    | false =>
      have hadd := (append_of_not_alreadyAllowed hallowed).mp hupdate
      have hcommands : commands ≠ [] := by
        rintro rfl
        cases hevaluation
      obtain ⟨evaluation', hevaluation', hdecision⟩ := (request.execPolicy updated).exists_checkMultiple
        hcommands (request.execPolicyFallback reader) matchOptions
      have hallow : evaluation'.decision = .allow := by
        rw [hdecision]
        refine le_antisymm (strictest_le_iff.mpr fun rule hrule ↦ ?_) (Decision.allow_le _)
        obtain ⟨command, hcommand, hfound⟩ := List.mem_flatMap.mp hrule
        rw [← strictest_of_wouldApprove hhonor happroves hadd hcommand]
        exact decision_le_strictest hfound
      refine ⟨fun _ ↦ rfl, fun _ ↦ ?_⟩
      rw [createExecApprovalRequirementForParsedCommands, ExecApprovalRequest.evaluation, hevaluation',
        Option.map_some, ExecApprovalRequest.requirementFor, hallow]
      exact ⟨_, _, rfl⟩

end Asking

/-! ## Requests that are asked again, and one that is not -/

/-- A host with one user, at work in `/work`. -/
def oneUserHost : CommandReader String where
  absolutePath word :=
    if word.toList.head? = some '/' then some word
    else if word = "~" then some "/home/user" else some ("/work/" ++ word)
  lookupKey := posixBasename
  renderShlexCommand := " ".intercalate
  dangerousCommandMatch _ := none

/-- A request in an untrusted project that suggests its own words as a rule. -/
def untrustedRequest (command : List String) (suggestion : List String)
    (environmentPolicy : Option (Policy String)) : ExecApprovalRequest String where
  command := command
  context := ⟨.unlessTrusted, .restricted, false, false⟩
  environmentPolicy := environmentPolicy
  prefixRule := some suggestion
  allowPrefixRules := .honor

def allowing (program : String) : Policy String := .new [(program, ⟨⟨program, []⟩, .allow, none⟩)]

/-- An overlay that restricts `git` to one path. -/
def gitOnlyFromOpt : Policy String := ⟨[], [], fun name ↦ if name = "git" then some ["/opt/git"] else none⟩

theorem accepted_suggestion_skips :
    ∃ updated, appendAmendmentAndUpdate oneUserHost (allowing "git") (.ok ()) ["cargo", "test"] = .ok updated ∧
      ∃ bypassSandbox proposed, createExecApprovalRequirementForParsedCommands oneUserHost updated
        (untrustedRequest ["cargo", "test", "-q"] ["cargo", "test"] none) [["cargo", "test", "-q"]] =
          some (.skip bypassSandbox proposed) := by
  have hasks : AsksFor oneUserHost (allowing "git")
      (untrustedRequest ["cargo", "test", "-q"] ["cargo", "test"] none) [["cargo", "test", "-q"]]
      ["cargo", "test"] :=
    ⟨_, none, rfl, by decide +kernel, by decide +kernel⟩
  have hallowed : alreadyAllowed oneUserHost (allowing "git") ["cargo", "test"] = false := by decide +kernel
  have hupdate : appendAmendmentAndUpdate oneUserHost (allowing "git") (.ok ()) ["cargo", "test"] =
      .ok { allowing "git" with rulesByProgram := (allowing "git").rulesByProgram ++
        [("cargo", ⟨⟨"cargo", [.single "test"]⟩, .allow, none⟩)] } :=
    (append_of_not_alreadyAllowed hallowed).mpr rfl
  exact ⟨_, hupdate, (skips_iff_not_alreadyAllowed hasks hupdate).mpr hallowed⟩

/-- A suggestion is accepted, nothing is stored, and the request is asked again: once as the overlay's
table hides the rule that allows its words, once as its first word stands for another program. -/
theorem accepted_suggestion_asked_again :
    (AsksFor oneUserHost (allowing "git")
        (untrustedRequest ["/usr/bin/git", "status"] ["/usr/bin/git", "status"] (some gitOnlyFromOpt))
        [["/usr/bin/git", "status"]] ["/usr/bin/git", "status"] ∧
      appendAmendmentAndUpdate oneUserHost (allowing "git") (.ok ()) ["/usr/bin/git", "status"] =
        .ok (allowing "git")) ∧
      AsksFor oneUserHost (allowing "user") (untrustedRequest ["/usr/bin/~"] ["~"] none) [["/usr/bin/~"]]
        ["~"] ∧
      appendAmendmentAndUpdate oneUserHost (allowing "user") (.ok ()) ["~"] = .ok (allowing "user") := by
  refine ⟨⟨⟨_, none, rfl, by decide +kernel, by decide +kernel⟩, ?_⟩,
    ⟨_, none, rfl, by decide +kernel, by decide +kernel⟩, ?_⟩
  · exact append_of_alreadyAllowed (by decide +kernel)
  · exact append_of_alreadyAllowed (by decide +kernel)

end SpineCodex
