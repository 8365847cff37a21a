import SpineCodex.Exec.Managed

/-!
# Policies for one request

A request is judged by the current policy with the overlay of its environment. For some models the rules
that allow a command are taken out of the current policy first. That may leave a command without a matching
rule, so that it is matched by its basename or falls to the heuristics instead, but only where all rules
that matched it allowed it.
-/

namespace SpineCodex

variable {Path : Type}

inductive AllowPrefixRules where
  | honor
  | ignoreForCyberModel
deriving DecidableEq

namespace Policy

def currentForPrefixRules (current : Policy Path) (allowPrefixRules : AllowPrefixRules) : Policy Path :=
  if allowPrefixRules = .honor then current
  else { current with rulesByProgram := current.rulesByProgram.filter (·.2.decision ≠ .allow) }

def currentForEnvironment (current : Policy Path) (environmentPolicy : Option (Policy Path))
    (allowPrefixRules : AllowPrefixRules) : Policy Path :=
  (current.currentForPrefixRules allowPrefixRules).load environmentPolicy

section Checks

variable [DecidableEq Path] (absolutePath : String → Option Path) (lookupKey : Path → Option String)

def checkMultipleWithOptions (policy : Policy Path) (commands : List (List String))
    (heuristicsFallback : List String → Decision) (options : MatchOptions) : Option (Evaluation Path) :=
  Evaluation.fromMatches (commands.flatMap fun command ↦
    policy.matchesForCommandWithOptions absolutePath lookupKey command (some heuristicsFallback) options)

end Checks

/-! ## Policies without some of the allow rules -/

/-- The second policy has the rules of the first one but for some that allow. -/
structure LacksAllowRules (policy filtered : Policy Path) : Prop where
  subset : ∀ program, filtered.rulesFor program ⊆ policy.rulesFor program
  kept : ∀ program, ∀ rule ∈ policy.rulesFor program, rule.decision ≠ .allow →
    rule ∈ filtered.rulesFor program
  table : filtered.hostExecutablesByName = policy.hostExecutablesByName

theorem lacksAllowRules_currentForEnvironment (current : Policy Path)
    (environmentPolicy : Option (Policy Path)) :
    LacksAllowRules (current.currentForEnvironment environmentPolicy .honor)
      (current.currentForEnvironment environmentPolicy .ignoreForCyberModel) := by
  have hfiltered : LacksAllowRules current (current.currentForPrefixRules .ignoreForCyberModel) := by
    constructor
    · intro program rule hrule
      rw [mem_rulesFor] at hrule ⊢
      exact (List.mem_filter.mp hrule).1
    · intro program rule hrule hdecision
      rw [mem_rulesFor] at hrule ⊢
      exact List.mem_filter.mpr ⟨hrule, decide_eq_true hdecision⟩
    · rfl
  cases environmentPolicy with
  | none => exact hfiltered
  | some overlay =>
    have hmem : ∀ (policy : Policy Path) program rule, rule ∈ (policy.mergeOverlay overlay).rulesFor program ↔
        rule ∈ policy.rulesFor program ∨ rule ∈ overlay.rulesFor program := by
      intro policy program rule
      simp only [mem_rulesFor, mergeOverlay, List.mem_append]
    constructor
    · intro program rule hrule
      exact (hmem _ _ _).mpr (((hmem _ _ _).mp hrule).imp_left (hfiltered.subset program ·))
    · intro program rule hrule hdecision
      exact (hmem _ _ _).mpr (((hmem _ _ _).mp hrule).imp_left (hfiltered.kept program rule · hdecision))
    · rfl

/-! ## The stages of matching -/

/-- The second matches judge a command at least as strictly, and there are none where there were none. -/
structure AtLeastAsStrict (found found' : List (RuleMatch Path)) : Prop where
  empty : found = [] → found' = []
  le : strictest found ≤ strictest found'

theorem AtLeastAsStrict.refl (found : List (RuleMatch Path)) : AtLeastAsStrict found found := ⟨id, le_rfl⟩

/-- A stage gives way to the next one only where it has no matches, and it loses all of its matches only
where they allow. -/
theorem AtLeastAsStrict.stage {first next first' next' : List (RuleMatch Path)}
    (hfirst : AtLeastAsStrict first first') (hnext : AtLeastAsStrict next next') :
    AtLeastAsStrict (if first.isEmpty then next else first) (if first'.isEmpty then next' else first') := by
  cases first with
  | nil =>
    rw [hfirst.empty rfl]
    exact hnext
  | cons found first =>
    refine ⟨fun hnone ↦ absurd hnone (List.cons_ne_nil _ _), ?_⟩
    cases first' with
    | nil =>
      have hallow : strictest (found :: first) ≤ .allow := hfirst.le
      exact hallow.trans (Decision.allow_le _)
    | cons => exact hfirst.le

variable {policy filtered : Policy Path}

/-- The matches of some rules, and of the same rules but for some that allow. -/
theorem atLeastAsStrict_filterMap {rules rules' : List PrefixRule} (hsubset : rules' ⊆ rules)
    (hkept : ∀ rule ∈ rules, rule.decision ≠ .allow → rule ∈ rules') (cmd : List String) :
    AtLeastAsStrict (rules.filterMap (·.matches cmd) : List (RuleMatch Path))
      (rules'.filterMap (·.matches cmd)) := by
  constructor
  · intro hnone
    exact List.subset_nil.mp (hnone ▸ List.filterMap_subset _ hsubset)
  · rw [strictest_le_iff]
    intro found hfound
    obtain ⟨rule, hrule, hmatch⟩ := List.mem_filterMap.mp hfound
    have hdecision : found.decision = rule.decision := by
      obtain ⟨matched, -, rfl⟩ := Option.map_eq_some_iff.mp hmatch
      rfl
    by_cases hallow : rule.decision = .allow
    · rw [hdecision, hallow]
      exact Decision.allow_le _
    · exact decision_le_strictest (List.mem_filterMap.mpr ⟨rule, hkept rule hrule hallow, hmatch⟩)

theorem AtLeastAsStrict.withResolvedProgram {found found' : List (RuleMatch Path)}
    (h : AtLeastAsStrict found found') (program : Path) :
    AtLeastAsStrict (found.map (·.withResolvedProgram program)) (found'.map (·.withResolvedProgram program)) := by
  constructor
  · rw [List.map_eq_nil_iff, List.map_eq_nil_iff]
    exact h.empty
  · simpa only [strictest, List.foldr_map, RuleMatch.decision_withResolvedProgram] using h.le

theorem LacksAllowRules.exact (h : LacksAllowRules policy filtered) (cmd : List String) :
    AtLeastAsStrict (policy.matchExactRules cmd) (filtered.matchExactRules cmd) := by
  cases cmd with
  | nil => exact .refl _
  | cons first rest => exact atLeastAsStrict_filterMap (h.subset first) (h.kept first) _

variable [DecidableEq Path] {absolutePath : String → Option Path} {lookupKey : Path → Option String}

theorem LacksAllowRules.host (h : LacksAllowRules policy filtered) (cmd : List String) :
    AtLeastAsStrict (policy.matchHostExecutableRules absolutePath lookupKey cmd)
      (filtered.matchHostExecutableRules absolutePath lookupKey cmd) := by
  cases cmd with
  | nil => exact .refl _
  | cons first rest =>
    unfold matchHostExecutableRules
    dsimp only
    cases absolutePath first with
    | none => exact .refl _
    | some program =>
      dsimp only
      cases lookupKey program with
      | none => exact .refl _
      | some basename =>
        have hlists : filtered.listsProgram basename program = policy.listsProgram basename program := by
          rw [listsProgram, listsProgram, h.table]
        dsimp only
        rw [hlists]
        split_ifs
        · exact (atLeastAsStrict_filterMap (h.subset basename) (h.kept basename) _).withResolvedProgram program
        · exact .refl _

/-- Without some allow rules a command is judged at least as strictly. -/
theorem LacksAllowRules.matches (h : LacksAllowRules policy filtered) (cmd : List String)
    (heuristics : List String → Decision) (options : MatchOptions) :
    AtLeastAsStrict
      (policy.matchesForCommandWithOptions absolutePath lookupKey cmd (some heuristics) options)
      (filtered.matchesForCommandWithOptions absolutePath lookupKey cmd (some heuristics) options) := by
  unfold matchesForCommandWithOptions
  dsimp only
  refine .stage (.stage (h.exact cmd) ?_) (.refl _)
  split_ifs
  · exact h.host cmd
  · exact .refl _

theorem matchesForCommandWithOptions_ne_nil (policy : Policy Path) (cmd : List String)
    (heuristics : List String → Decision) (options : MatchOptions) :
    policy.matchesForCommandWithOptions absolutePath lookupKey cmd (some heuristics) options ≠ [] := by
  unfold matchesForCommandWithOptions
  dsimp only
  generalize (if (policy.matchExactRules cmd).isEmpty = true then _ else policy.matchExactRules cmd) = matched
  cases matched with
  | nil => exact List.cons_ne_nil _ _
  | cons => exact List.cons_ne_nil _ _

/-- One command is enough for a decision. -/
theorem exists_checkMultiple (policy : Policy Path) {commands : List (List String)} (hne : commands ≠ [])
    (heuristics : List String → Decision) (options : MatchOptions) :
    ∃ evaluation, policy.checkMultipleWithOptions absolutePath lookupKey commands heuristics options =
        some evaluation ∧
      evaluation.decision = strictest (commands.flatMap fun command ↦
        policy.matchesForCommandWithOptions absolutePath lookupKey command (some heuristics) options) := by
  rw [checkMultipleWithOptions, Evaluation.fromMatches, if_neg]
  · exact ⟨_, rfl, rfl⟩
  · rw [List.isEmpty_iff, List.flatMap_eq_nil_iff]
    obtain ⟨cmd, hcmd⟩ := List.exists_mem_of_ne_nil commands hne
    exact fun hnone ↦ matchesForCommandWithOptions_ne_nil policy cmd heuristics options (hnone cmd hcmd)

/-- No command is judged less strictly once the allow rules are dropped. -/
theorem checkMultiple_ignoring_allow_rules (current : Policy Path)
    (environmentPolicy : Option (Policy Path)) (commands : List (List String))
    (heuristics : List String → Decision) (options : MatchOptions) :
    Option.Rel (fun honored ignored ↦ honored.decision ≤ ignored.decision)
      ((current.currentForEnvironment environmentPolicy .honor).checkMultipleWithOptions absolutePath
        lookupKey commands heuristics options)
      ((current.currentForEnvironment environmentPolicy .ignoreForCyberModel).checkMultipleWithOptions
        absolutePath lookupKey commands heuristics options) := by
  have hlacks := lacksAllowRules_currentForEnvironment current environmentPolicy
  generalize current.currentForEnvironment environmentPolicy .honor = policy at hlacks
  generalize current.currentForEnvironment environmentPolicy .ignoreForCyberModel = filtered at hlacks
  cases commands with
  | nil => exact .none
  | cons cmd commands =>
    have hne := List.cons_ne_nil cmd commands
    obtain ⟨honored, hhonored, hdecision⟩ := policy.exists_checkMultiple hne heuristics options
    obtain ⟨ignored, hignored, hdecision'⟩ := filtered.exists_checkMultiple hne heuristics options
    rw [hhonored, hignored]
    refine .some ?_
    rw [hdecision, hdecision']
    refine strictest_le_iff.mpr fun rule hrule ↦ ?_
    obtain ⟨command, hcommand, hfound⟩ := List.mem_flatMap.mp hrule
    calc rule.decision
        ≤ strictest (policy.matchesForCommandWithOptions absolutePath lookupKey command (some heuristics)
            options) := decision_le_strictest hfound
      _ ≤ strictest (filtered.matchesForCommandWithOptions absolutePath lookupKey command (some heuristics)
            options) := (hlacks.matches command heuristics options).le
      _ ≤ _ := strictest_mono fun found hfound ↦
          List.mem_flatMap.mpr ⟨command, hcommand, hfound⟩

end Policy

end SpineCodex
