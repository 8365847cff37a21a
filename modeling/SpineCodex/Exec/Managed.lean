import SpineCodex.Exec.Policy

/-!
# Managed rules next to the user's

The requirements are laid over the user's rules and more allow rules may be added later. All rules
for the same word of a command are consulted together, so there the strictest decision wins. But the
rules of a basename are consulted only if no rule for the full path matches, and only from paths that
the table of host executables lists. A user's rule for the full path, or a user's table, can thus
keep the managed rules from being consulted at all.
-/

namespace SpineCodex

variable {Path : Type}

/-! ## The strictest decision -/

theorem strictest_le_iff {found : List (RuleMatch Path)} {d : Decision} :
    strictest found ≤ d ↔ ∀ rule ∈ found, rule.decision ≤ d := by
  induction found with
  | nil => simp [strictest, Decision.allow_le]
  | cons rule found ih =>
    rw [strictest, List.foldr_cons, max_le_iff, List.forall_mem_cons]
    exact and_congr_right' ih

theorem decision_le_strictest {found : List (RuleMatch Path)} {rule : RuleMatch Path}
    (h : rule ∈ found) : rule.decision ≤ strictest found :=
  strictest_le_iff.mp le_rfl rule h

theorem strictest_mono {found more : List (RuleMatch Path)} (h : found ⊆ more) :
    strictest found ≤ strictest more :=
  strictest_le_iff.mpr fun _ hrule => decision_le_strictest (h hrule)

/-! ## Policies made of requirements -/

namespace Policy

/-- A policy of prompt and forbidden rules, without a table of host executables. -/
structure Managed (policy : Policy Path) : Prop where
  strict : ∀ entry ∈ policy.rulesByProgram, entry.2.decision ≠ .allow
  unlisted : ∀ name, policy.hostExecutablesByName name = none

end Policy

theorem parsePrefixRule_strict {rule : RequirementsExecPolicyPrefixRuleToml} {index : ℕ}
    {rules : List (String × PrefixRule)} (h : parsePrefixRule rule index = .ok rules) :
    ∀ entry ∈ rules, entry.2.decision ≠ .allow := by
  unfold parsePrefixRule at h
  split_ifs at h
  obtain ⟨tokens, -, h⟩ := except_bind_eq_ok.mp h
  grind

/-- Whatever the requirements say, a policy read from them only prompts and forbids. -/
theorem RequirementsExecPolicyToml.toPolicy_managed {toml : RequirementsExecPolicyToml}
    {policy : Policy Path} (h : toml.toPolicy = .ok policy) : policy.Managed := by
  unfold toPolicy at h
  split_ifs at h
  obtain ⟨rules, hrules, h⟩ := except_bind_eq_ok.mp h
  obtain rfl := Except.ok.inj h
  refine ⟨fun entry hentry ↦ ?_, fun _ ↦ rfl⟩
  obtain ⟨parsed, hparsed, hmem⟩ := List.mem_flatten.mp hentry
  obtain ⟨rule, -, hrule⟩ := except_mapM_eq_ok hrules parsed hparsed
  exact parsePrefixRule_strict hrule entry hmem

/-! ## The merged policy -/

namespace Policy

/-- The rules that amendments add. -/
def amendmentRules (amendments : List (List String)) : List (String × PrefixRule) :=
  amendments.filterMap fun
    | [] => none
    | first :: rest => some (first, ⟨⟨first, rest.map .single⟩, .allow, none⟩)

theorem amend_cons (policy : Policy Path) (words : List String) (amendments : List (List String)) :
    policy.amend (words :: amendments) = (policy.amend [words]).amend amendments := rfl

theorem amend_eq (policy : Policy Path) (amendments : List (List String)) :
    policy.amend amendments =
      { policy with rulesByProgram := policy.rulesByProgram ++ amendmentRules amendments } := by
  induction amendments generalizing policy with
  | nil => simp [amend, amendmentRules]
  | cons words amendments ih =>
    rw [amend_cons, ih]
    cases words with
    | nil => simp [amend, addPrefixRule, amendmentRules]
    | cons first rest => simp [amend, addPrefixRule, amendmentRules]

theorem mem_rulesFor {policy : Policy Path} {program : String} {rule : PrefixRule} :
    rule ∈ policy.rulesFor program ↔ (program, rule) ∈ policy.rulesByProgram := by
  simp [rulesFor]

section Matching

variable {user requirements : Policy Path} {amendments : List (List String)}

/-- The merged policy has the rules of the amended user policy and the requirements. -/
theorem mem_rulesFor_merged {program : String} {rule : PrefixRule} :
    rule ∈ ((user.mergeOverlay requirements).amend amendments).rulesFor program ↔
      rule ∈ (user.amend amendments).rulesFor program ∨ rule ∈ requirements.rulesFor program := by
  simp only [mem_rulesFor, amend_eq, mergeOverlay, List.mem_append]
  tauto

theorem mem_matchExactRules_merged {cmd : List String} {found : RuleMatch Path} :
    found ∈ ((user.mergeOverlay requirements).amend amendments).matchExactRules cmd ↔
      found ∈ (user.amend amendments).matchExactRules cmd ∨ found ∈ requirements.matchExactRules cmd := by
  cases cmd with
  | nil => simp [matchExactRules]
  | cons first rest =>
    simp only [matchExactRules, List.mem_filterMap, mem_rulesFor_merged, or_and_right, exists_or]

variable [DecidableEq Path] {absolutePath : String → Option Path} {lookupKey : Path → Option String}

theorem listsProgram_merged (hrequirements : requirements.Managed) (basename : String) (program : Path) :
    ((user.mergeOverlay requirements).amend amendments).listsProgram basename program =
      user.listsProgram basename program := by
  simp only [listsProgram, amend_eq, mergeOverlay, hrequirements.unlisted, Option.none_or]

/-- The program path of a command and the name under which it is looked up. -/
def resolvedProgram (absolutePath : String → Option Path) (lookupKey : Path → Option String)
    (cmd : List String) : Option (Path × String) :=
  cmd.head?.bind fun first => (absolutePath first).bind fun program =>
    (lookupKey program).map fun basename => (program, basename)

/-- The table of host executables has the name of the program, but not its path. -/
def Excludes (policy : Policy Path) (absolutePath : String → Option Path)
    (lookupKey : Path → Option String) (cmd : List String) : Prop :=
  ∃ program basename, resolvedProgram absolutePath lookupKey cmd = some (program, basename) ∧
    policy.listsProgram basename program = false

theorem mem_matchHostExecutableRules {policy : Policy Path} {cmd : List String}
    {found : RuleMatch Path} :
    found ∈ policy.matchHostExecutableRules absolutePath lookupKey cmd ↔
      ∃ program basename, resolvedProgram absolutePath lookupKey cmd = some (program, basename) ∧
        policy.listsProgram basename program = true ∧
        ∃ rule ∈ policy.rulesFor basename, ∃ plain, rule.matches (basename :: cmd.tail) = some plain ∧
          plain.withResolvedProgram program = found := by
  cases cmd with
  | nil => simp [matchHostExecutableRules, resolvedProgram]
  | cons first rest =>
    simp only [matchHostExecutableRules, resolvedProgram, List.head?_cons, Option.bind_some,
      List.tail_cons]
    cases absolutePath first with
    | none => simp
    | some program =>
      cases hkey : lookupKey program with
      | none => simp [hkey]
      | some basename =>
        simp only [Option.bind_some, hkey, Option.map_some, Option.some.injEq, Prod.mk.injEq]
        split_ifs with hlists
        · simp only [List.mem_map, List.mem_filterMap]
          constructor
          · rintro ⟨plain, ⟨rule, hrule, hmatch⟩, rfl⟩
            exact ⟨program, basename, ⟨rfl, rfl⟩, hlists, rule, hrule, plain, hmatch, rfl⟩
          · rintro ⟨_, _, ⟨rfl, rfl⟩, _, rule, hrule, plain, hmatch, rfl⟩
            exact ⟨plain, ⟨rule, hrule, hmatch⟩, rfl⟩
        · constructor
          · simp
          · rintro ⟨_, _, ⟨rfl, rfl⟩, hlisted, _⟩
            exact absurd hlisted hlists

/-- From a program that the user's table does not exclude, the requirements for its name are
consulted in the merged policy too. -/
theorem matchHostExecutableRules_subset (amendments : List (List String))
    (hrequirements : requirements.Managed) {cmd : List String}
    (hadmitted : ¬ user.Excludes absolutePath lookupKey cmd) :
    requirements.matchHostExecutableRules absolutePath lookupKey cmd ⊆
      ((user.mergeOverlay requirements).amend amendments).matchHostExecutableRules
        absolutePath lookupKey cmd := by
  intro found hfound
  obtain ⟨program, basename, hresolved, -, rule, hrule, plain, hmatch, rfl⟩ :=
    mem_matchHostExecutableRules.mp hfound
  have hlists : user.listsProgram basename program = true := by
    by_contra hno
    exact hadmitted ⟨program, basename, hresolved, by simpa using hno⟩
  refine mem_matchHostExecutableRules.mpr ⟨program, basename, hresolved, ?_, rule, ?_, plain, hmatch, rfl⟩
  · rw [listsProgram_merged hrequirements, hlists]
  · exact mem_rulesFor_merged.mpr (.inr hrule)

/-- From a program that the user's table excludes, no rule of a basename is consulted. -/
theorem matchHostExecutableRules_excluded (hrequirements : requirements.Managed) {cmd : List String}
    (hexcluded : user.Excludes absolutePath lookupKey cmd) :
    ((user.mergeOverlay requirements).amend amendments).matchHostExecutableRules
      absolutePath lookupKey cmd = [] := by
  rw [List.eq_nil_iff_forall_not_mem]
  intro found hfound
  obtain ⟨program, basename, hresolved, hlists, -⟩ := mem_matchHostExecutableRules.mp hfound
  obtain ⟨program', basename', hresolved', hunlisted⟩ := hexcluded
  rw [hresolved, Option.some.injEq, Prod.mk.injEq] at hresolved'
  rw [listsProgram_merged hrequirements, hresolved'.1, hresolved'.2, hunlisted] at hlists
  cases hlists

/-- The decision of a check: of the exact rules if there are any, else of the rules of the basename
if there are any, else of the fallback. -/
theorem checkWithOptions_decision {policy : Policy Path} {cmd : List String}
    {heuristics : List String → Decision} {evaluation : Evaluation Path}
    (h : policy.checkWithOptions absolutePath lookupKey cmd heuristics ⟨true⟩ = some evaluation) :
    evaluation.decision =
      if policy.matchExactRules cmd = [] then
        if policy.matchHostExecutableRules absolutePath lookupKey cmd = [] then heuristics cmd
        else strictest (policy.matchHostExecutableRules absolutePath lookupKey cmd)
      else strictest (policy.matchExactRules cmd) := by
  simp only [checkWithOptions, Evaluation.fromMatches, matchesForCommandWithOptions, if_true,
    List.isEmpty_iff] at h
  by_cases hexact : policy.matchExactRules cmd = []
  · by_cases hhost : policy.matchHostExecutableRules absolutePath lookupKey cmd = []
    · simp only [hexact, hhost, if_true, List.cons_ne_nil, if_false, Option.some.injEq] at h ⊢
      rw [← h]
      exact max_eq_left (Decision.allow_le _)
    · simp only [hexact, hhost, if_true, if_false, Option.some.injEq] at h ⊢
      rw [← h]
  · simp only [hexact, if_false, Option.some.injEq] at h ⊢
    rw [← h]

end Matching

end Policy

/-! ## When the requirements are kept -/

section Kept

variable [DecidableEq Path] {absolutePath : String → Option Path} {lookupKey : Path → Option String}

/-- For every user policy, every requirements policy that matches the command on its own and every
sequence of amendments: the merged decision is at least as strict as that of the requirements exactly
if the requirements have a rule for the first word of the command, or the user's rules and the
amendments for that word are strict enough, or there are none and the user's table does not exclude
the program (or else the fallback is strict enough). -/
theorem managed_decision_kept_iff {user requirements : Policy Path}
    (hrequirements : requirements.Managed) (amendments : List (List String)) {cmd : List String}
    (heuristics : List String → Decision)
    (hmatch : requirements.matchesForCommandWithOptions absolutePath lookupKey cmd none ⟨true⟩ ≠ [])
    {required evaluation : Evaluation Path}
    (hrequired : requirements.checkWithOptions absolutePath lookupKey cmd heuristics ⟨true⟩ =
      some required)
    (hmerged : ((user.mergeOverlay requirements).amend amendments).checkWithOptions
      absolutePath lookupKey cmd heuristics ⟨true⟩ = some evaluation) :
    required.decision ≤ evaluation.decision ↔
      requirements.matchExactRules cmd ≠ [] ∨
      ((user.amend amendments).matchExactRules cmd ≠ [] ∧
        required.decision ≤ strictest ((user.amend amendments).matchExactRules cmd)) ∨
      ((user.amend amendments).matchExactRules cmd = [] ∧
        (¬ user.Excludes absolutePath lookupKey cmd ∨ required.decision ≤ heuristics cmd)) := by
  have hdecision := Policy.checkWithOptions_decision hmerged
  have hrequired' := Policy.checkWithOptions_decision hrequired
  by_cases hexact : requirements.matchExactRules cmd = []
  · -- the requirements match by the basename only
    have hhost : requirements.matchHostExecutableRules absolutePath lookupKey cmd ≠ [] := by
      simpa [Policy.matchesForCommandWithOptions, hexact] using hmatch
    rw [if_pos hexact, if_neg hhost] at hrequired'
    have hmem : ∀ found, found ∈
        ((user.mergeOverlay requirements).amend amendments).matchExactRules cmd ↔
          found ∈ (user.amend amendments).matchExactRules cmd := by
      intro found
      rw [Policy.mem_matchExactRules_merged, hexact]
      simp
    by_cases huser : (user.amend amendments).matchExactRules cmd = []
    · have hnone : ((user.mergeOverlay requirements).amend amendments).matchExactRules cmd = [] := by
        rw [List.eq_nil_iff_forall_not_mem]
        intro found hfound
        rw [hmem found, huser] at hfound
        cases hfound
      rw [if_pos hnone] at hdecision
      simp only [hexact, huser, ne_eq, not_true_eq_false, false_and, false_or, true_and]
      by_cases hexcluded : user.Excludes absolutePath lookupKey cmd
      · rw [if_pos (Policy.matchHostExecutableRules_excluded hrequirements hexcluded)] at hdecision
        simp only [hexcluded, not_true_eq_false, false_or, hdecision]
      · have hsubset := Policy.matchHostExecutableRules_subset amendments hrequirements hexcluded
        have hne : ((user.mergeOverlay requirements).amend amendments).matchHostExecutableRules
            absolutePath lookupKey cmd ≠ [] :=
          fun hnil => hhost (List.subset_nil.mp (hnil ▸ hsubset))
        rw [if_neg hne] at hdecision
        simp only [hexcluded, not_false_eq_true, true_or, iff_true]
        rw [hdecision, hrequired']
        exact strictest_mono hsubset
    · have hne : ((user.mergeOverlay requirements).amend amendments).matchExactRules cmd ≠ [] := by
        intro hnil
        apply huser
        rw [List.eq_nil_iff_forall_not_mem]
        intro found hfound
        rw [← hmem found, hnil] at hfound
        cases hfound
      have hsame : strictest (((user.mergeOverlay requirements).amend amendments).matchExactRules cmd) =
          strictest ((user.amend amendments).matchExactRules cmd) :=
        le_antisymm (strictest_mono fun found => (hmem found).mp)
          (strictest_mono fun found => (hmem found).mpr)
      rw [if_neg hne, hsame] at hdecision
      simp only [hexact, huser, ne_eq, not_true_eq_false, not_false_eq_true, false_or, true_and,
        false_and, or_false, hdecision]
  · -- the exact rules of the requirements are consulted together with all others for that word
    have hsubset : requirements.matchExactRules cmd ⊆
        ((user.mergeOverlay requirements).amend amendments).matchExactRules cmd :=
      fun _ hfound => Policy.mem_matchExactRules_merged.mpr (.inr hfound)
    have hne : ((user.mergeOverlay requirements).amend amendments).matchExactRules cmd ≠ [] :=
      fun hnil => hexact (List.subset_nil.mp (hnil ▸ hsubset))
    rw [if_neg hexact] at hrequired'
    rw [if_neg hne] at hdecision
    rw [hdecision, hrequired']
    simp only [ne_eq, hexact, not_false_eq_true, true_or, iff_true]
    exact strictest_mono hsubset

end Kept

/-! ## A forbidden program run by its path -/

/-- Absolute paths of a POSIX host: texts that start at the root. -/
def posixPath (text : String) : Option String := if text.toList.head? = some '/' then some text else none

/-- The last component of a path. -/
def posixBasename (path : String) : Option String :=
  some (.ofList (path.toList.reverse.takeWhile (· != '/')).reverse)

/-- Requirements that forbid `rm`. -/
def forbiddingRm : Policy String := .new [("rm", ⟨⟨"rm", []⟩, .forbidden, none⟩)]

/-- A user's rule that allows one path. -/
def allowingBinRm : Policy String := .new [("/bin/rm", ⟨⟨"/bin/rm", []⟩, .allow, none⟩)]

theorem forbiddingRm_managed : forbiddingRm.Managed :=
  ⟨by simp [forbiddingRm, Policy.new], fun _ => rfl⟩

/-- With an amendment for another program, `/bin/rm` stays forbidden. -/
theorem managed_decision_kept_for_path :
    ∃ required evaluation,
      forbiddingRm.checkWithOptions posixPath posixBasename ["/bin/rm"] (fun _ => .prompt) ⟨true⟩ =
        some required ∧
      ((Policy.mergeOverlay (.new []) forbiddingRm).amend [["git", "log"]]).checkWithOptions
        posixPath posixBasename ["/bin/rm"] (fun _ => .prompt) ⟨true⟩ = some evaluation ∧
      required.decision ≤ evaluation.decision := by
  obtain ⟨required, hrequired⟩ := Option.isSome_iff_exists.mp
    (forbiddingRm.checkWithOptions_isSome posixPath posixBasename ["/bin/rm"] (fun _ => .prompt) ⟨true⟩)
  obtain ⟨evaluation, hmerged⟩ := Option.isSome_iff_exists.mp
    (((Policy.mergeOverlay (.new []) forbiddingRm).amend [["git", "log"]]).checkWithOptions_isSome
      posixPath posixBasename ["/bin/rm"] (fun _ => .prompt) ⟨true⟩)
  have hmatch : forbiddingRm.matchesForCommandWithOptions posixPath posixBasename ["/bin/rm"] none
      ⟨true⟩ ≠ [] := by
    decide +kernel
  have hnone : (Policy.amend (.new []) [["git", "log"]] : Policy String).matchExactRules ["/bin/rm"] =
      [] := by
    decide +kernel
  have hlisted : ¬ (Policy.new [] : Policy String).Excludes posixPath posixBasename ["/bin/rm"] := by
    rintro ⟨_, _, -, hlists⟩
    cases hlists
  exact ⟨required, evaluation, hrequired, hmerged,
    (managed_decision_kept_iff forbiddingRm_managed [["git", "log"]] (fun _ => .prompt) hmatch
      hrequired hmerged).mpr (.inr (.inr ⟨hnone, .inl hlisted⟩))⟩

/-- The requirements alone forbid `/bin/rm`, and the merged policy allows it. -/
theorem managed_decision_weakened :
    (forbiddingRm.checkWithOptions posixPath posixBasename ["/bin/rm", "-rf"] (fun _ => .prompt)
        ⟨true⟩).map (·.decision) = some .forbidden ∧
      ((allowingBinRm.mergeOverlay forbiddingRm).checkWithOptions posixPath posixBasename
        ["/bin/rm", "-rf"] (fun _ => .prompt) ⟨true⟩).map (·.decision) = some .allow := by
  decide +kernel

end SpineCodex
