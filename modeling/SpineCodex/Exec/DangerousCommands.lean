import SpineCodex.Lib.Text

/-!
# Dangerous commands

A command is dangerous by its own words, by the command that it wraps, or by a literal command of the
script that it hands to a shell. Each wrapper and each script takes one level off a limit; a command below
the limit counts as dangerous. The reader of shell scripts and the check for Windows commands are
parameters.
-/

namespace SpineCodex

inductive DangerousCommandPlatform where
  | posix
  | windows
deriving DecidableEq

inductive DangerousCommandMatch where
  | forcedRm
  | other
deriving DecidableEq

def maxDangerousCommandWrapperDepth : ℕ := 8

/-! ## Words -/

/-- What stands behind the last separator. -/
def lastPart (separators text : List Char) : List Char :=
  (text.reverse.takeWhile fun c ↦ !separators.contains c).reverse

/-- The part without the first of the suffixes that it ends in. -/
def stripExecutableSuffix (name : List Char) : Option (List Char) :=
  [".exe", ".cmd", ".bat", ".com"].findSome? fun suffix ↦
    if suffix.toList.isSuffixOf name then some (name.take (name.length - suffix.length)) else none

def dropDrive : List Char → List Char
  | drive :: ':' :: name => if drive.isAlpha then name else drive :: ':' :: name
  | name => name

def executableNameLookupKey (platform : DangerousCommandPlatform) (raw : String) : Option String :=
  match platform with
  | .posix =>
    let name := lastPart ['/'] raw.toList
    if name = [] then none else some (String.ofList name)
  | .windows =>
    let name := lastPart ['/', '\\'] raw.toList
    if name = [] then none
    else
      let name := lower (dropDrive name)
      match stripExecutableSuffix name with
      | some stripped => some (String.ofList stripped)
      | none => if name = [] then none else some (String.ofList name)

def rmArgsIncludeForceOption (args : List String) : Bool :=
  (args.takeWhile (· ≠ "--")).any fun arg ↦
    arg == "--force" ||
      (stripStart? "-" arg).any fun flags ↦ !("-".toList.isPrefixOf flags.toList) && flags.toList.contains 'f'

/-- A name that is not empty and is no option, and a value. -/
def isAssignment (argument : String) : Bool :=
  (splitOnce ['='] argument.toList).any fun (name, _) ↦ name ≠ [] && name.head? ≠ some '-'

/-- A word that `env` skips. -/
def Setting (word : String) : Prop :=
  word = "-i" ∨ word = "--ignore-environment" ∨ isAssignment word = true

instance (word : String) : Decidable (Setting word) := inferInstanceAs (Decidable (_ ∨ _ ∨ _))

/-- The command that `env` runs: its settings are skipped, and a `--` ends them. -/
def skipSettings : List String → List String
  | [] => []
  | argument :: args =>
    if argument = "--" then args
    else if Setting argument then skipSettings args
    else argument :: args

/-- The action of a `trap`, which is shell source. -/
def trapAction (args : List String) : Option String :=
  let args := if args.head? = some "--" then args.tail else args
  args.head?.filter fun action ↦ !"-".toList.isPrefixOf action.toList

/-! ## The classifier -/

section Classifier

variable (parseShellLcLiteralCommands : List String → Option (List (List String)))
  (isDangerousCommandWindows : List String → Bool) (platform : DangerousCommandPlatform)

/-- A command by its first word; `wrapped` classifies what it wraps. -/
def dangerousCommandMatchForExec (wrapped : List String → Option DangerousCommandMatch)
    (command : List String) : Option DangerousCommandMatch :=
  let cmd0 := command.head?.bind (executableNameLookupKey platform)
  if cmd0 = some "rm" ∧ rmArgsIncludeForceOption command.tail = true then some .forcedRm
  else if cmd0 = some "sudo" then wrapped command.tail
  else if cmd0 = some "env" then wrapped (skipSettings command.tail)
  else if cmd0 = some "trap" then
    (trapAction command.tail).bind fun action ↦ wrapped ["sh", "-c", action]
  else none

/-- The number is that of the levels left above the limit. -/
def dangerousCommandMatchWithDepth : ℕ → List String → Option DangerousCommandMatch
  | 0, _ => some .other
  | left + 1, command =>
    (dangerousCommandMatchForExec platform (dangerousCommandMatchWithDepth left) command).or
      (((parseShellLcLiteralCommands command).bind fun commands ↦
          commands.findSome? (dangerousCommandMatchWithDepth left)).or
        (if platform = .windows ∧ isDangerousCommandWindows command = true then some .other else none))

def dangerousCommandMatchForPlatform (command : List String) : Option DangerousCommandMatch :=
  dangerousCommandMatchWithDepth parseShellLcLiteralCommands isDangerousCommandWindows platform
    (maxDangerousCommandWrapperDepth + 1) command

/-! ## Wrapped commands -/

variable {parseShellLcLiteralCommands isDangerousCommandWindows platform}

theorem dangerousCommandMatchForExec_sudo (wrapped : List String → Option DangerousCommandMatch)
    {name : String} (hkey : executableNameLookupKey platform name = some "sudo") (args : List String) :
    dangerousCommandMatchForExec platform wrapped (name :: args) = wrapped args := by
  simp [dangerousCommandMatchForExec, hkey]

theorem dangerousCommandMatchForExec_env (wrapped : List String → Option DangerousCommandMatch)
    {name : String} (hkey : executableNameLookupKey platform name = some "env") (args : List String) :
    dangerousCommandMatchForExec platform wrapped (name :: args) = wrapped (skipSettings args) := by
  simp [dangerousCommandMatchForExec, hkey]

theorem isSome_dangerousCommandMatchForExec {wrapped more : List String → Option DangerousCommandMatch}
    (hmore : ∀ command, (wrapped command).isSome = true → (more command).isSome = true)
    {command : List String} (h : (dangerousCommandMatchForExec platform wrapped command).isSome = true) :
    (dangerousCommandMatchForExec platform more command).isSome = true := by
  unfold dangerousCommandMatchForExec at h ⊢
  dsimp only at h ⊢
  split_ifs at h ⊢
  · rfl
  · exact hmore _ h
  · exact hmore _ h
  · cases haction : trapAction command.tail with
    | none =>
      rw [haction] at h
      exact h
    | some action =>
      rw [haction] at h
      exact hmore _ h
  · exact h

/-- A command that is dangerous stays so with one level less. -/
theorem dangerous_of_succ (left : ℕ) (command : List String)
    (h : (dangerousCommandMatchWithDepth parseShellLcLiteralCommands isDangerousCommandWindows platform
      (left + 1) command).isSome = true) :
    (dangerousCommandMatchWithDepth parseShellLcLiteralCommands isDangerousCommandWindows platform
      left command).isSome = true := by
  induction left generalizing command with
  | zero => rfl
  | succ left ih =>
    rw [dangerousCommandMatchWithDepth, Option.isSome_or, Option.isSome_or, Bool.or_eq_true,
      Bool.or_eq_true] at h ⊢
    rcases h with hexec | hscript | hwindows
    · exact .inl (isSome_dangerousCommandMatchForExec ih hexec)
    · refine .inr (.inl ?_)
      cases hparse : parseShellLcLiteralCommands command with
      | none =>
        rw [hparse] at hscript
        exact hscript
      | some commands =>
        rw [hparse, Option.bind_some, List.findSome?_isSome_iff] at hscript
        obtain ⟨inner, hinner, hdangerous⟩ := hscript
        rw [Option.bind_some, List.findSome?_isSome_iff]
        exact ⟨inner, hinner, ih inner hdangerous⟩
    · exact .inr (.inr hwindows)

/-- A word that `env` takes for the command. -/
def PlainWord (word : String) : Prop := '=' ∉ word.toList ∧ word.toList.head? ≠ some '-'

theorem skipSettings_of_plain {command : List String} (h : ∀ word ∈ command.head?, PlainWord word) :
    skipSettings command = command := by
  cases command with
  | nil => rfl
  | cons word args =>
    obtain ⟨hequals, hdash⟩ := h word rfl
    have hassignment : isAssignment word = false := by
      rw [isAssignment, splitOnce_eq_none hequals]
      rfl
    have hoption : ∀ option : String, option.toList.head? = some '-' → word ≠ option := by
      intro option hoption hword
      exact hdash (hword ▸ hoption)
    rw [skipSettings, if_neg (hoption "--" rfl), if_neg]
    simp only [Setting, hoption "-i" rfl, hoption "--ignore-environment" rfl, hassignment, Bool.false_eq_true,
      or_self, not_false_eq_true]

theorem skipSettings_append {settings : List String} (h : ∀ word ∈ settings, Setting word)
    (args : List String) : skipSettings (settings ++ args) = skipSettings args := by
  induction settings with
  | nil => rfl
  | cons word settings ih =>
    obtain ⟨hword, hsettings⟩ := List.forall_mem_cons.mp h
    have hdashes : word ≠ "--" := by
      rintro rfl
      exact absurd hword (by decide)
    rw [List.cons_append, skipSettings, if_neg hdashes, if_pos hword, ih hsettings]

variable (platform) in
/-- A command in wrappers: `sudo`, and `env` with settings and at most one `--` behind them. -/
inductive Wrapping (command : List String) : List String → Prop
  | bare : Wrapping command command
  | bySudo {name : String} {inner : List String} (hkey : executableNameLookupKey platform name = some "sudo")
      (hname : PlainWord name) (hinner : Wrapping command inner) : Wrapping command (name :: inner)
  | byEnv {name : String} {inner settings dashes : List String}
      (hkey : executableNameLookupKey platform name = some "env") (hname : PlainWord name)
      (hsettings : ∀ word ∈ settings, Setting word) (hdashes : dashes = [] ∨ dashes = ["--"])
      (hinner : Wrapping command inner) : Wrapping command (name :: (settings ++ dashes ++ inner))

/-- A command is dangerous if what its first word wraps is. -/
theorem dangerous_of_inner {inner outer : List String}
    (hexec : ∀ wrapped, dangerousCommandMatchForExec platform wrapped outer = wrapped inner)
    (h : (dangerousCommandMatchForPlatform parseShellLcLiteralCommands isDangerousCommandWindows platform
      inner).isSome = true) :
    (dangerousCommandMatchForPlatform parseShellLcLiteralCommands isDangerousCommandWindows platform
      outer).isSome = true := by
  have hinner := dangerous_of_succ maxDangerousCommandWrapperDepth inner h
  rw [dangerousCommandMatchForPlatform, dangerousCommandMatchWithDepth, hexec, Option.isSome_or, hinner,
    Bool.true_or]

/-- The first word of a wrapped command is its own or a wrapper's. -/
theorem Wrapping.plainWord {command wrapper : List String} (h : Wrapping platform command wrapper)
    (hfirst : ∀ word ∈ command.head?, PlainWord word) : ∀ word ∈ wrapper.head?, PlainWord word := by
  cases h with
  | bare => exact hfirst
  | bySudo _ hname _ => exact fun word hword ↦ Option.some.inj hword ▸ hname
  | byEnv _ hname _ _ _ => exact fun word hword ↦ Option.some.inj hword ▸ hname

end Classifier

end SpineCodex
