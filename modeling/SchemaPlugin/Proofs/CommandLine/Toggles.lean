import Mathlib
import SchemaPlugin.CommandLine.Execution
import SchemaPlugin.Proofs.Basic

/-!
The variables that turn settings on. A plugin on its own takes a few words for yes and all others
for no. A run takes more words for yes, has a list of words for no, and refuses what is in neither.
-/

namespace SchemaPlugin

section Traversal

variable {ε α : Type} {f : α → Except ε Unit} {as : List α}

theorem forM_eq_ok (passed : ∀ a ∈ as, f a = .ok ()) : as.forM f = .ok () := by
  induction as with
  | nil => rfl
  | cons a as ih =>
    obtain ⟨first, others⟩ := List.forall_mem_cons.1 passed
    rw [List.forM_eq_forM, List.forM_cons, first, ok_bind]
    exact ih others

/-- A traversal fails at the first item that does. -/
theorem forM_eq_error {before after : List α} {a : α} {e : ε} (passed : ∀ b ∈ before, f b = .ok ())
    (failed : f a = .error e) : (before ++ a :: after).forM f = .error e := by
  induction before with
  | nil => rw [List.nil_append, List.forM_eq_forM, List.forM_cons, failed, error_bind]
  | cons b before ih =>
    obtain ⟨first, others⟩ := List.forall_mem_cons.1 passed
    rw [List.cons_append, List.forM_eq_forM, List.forM_cons, first, ok_bind]
    exact ih others

/-- Items that pass need not be looked at. -/
theorem forM_filter {p : α → Bool} (passed : ∀ a ∈ as, p a = false → f a = .ok ()) :
    (as.filter p).forM f = as.forM f := by
  induction as with
  | nil => rfl
  | cons a as ih =>
    obtain ⟨first, others⟩ := List.forall_mem_cons.1 passed
    simp only [List.forM_eq_forM, List.filter_cons] at ih ⊢
    split_ifs with keep
    · rw [List.forM_cons, List.forM_cons]
      exact bind_congr_ok rfl fun _ _ => ih others
    · rw [ih others, List.forM_cons, first (by simpa using keep), ok_bind]

end Traversal

namespace Settings

/-- What a variable holds, if there is one. -/
def value (environment : OrderedMap Text) (variableName : Text) : Text :=
  (environment.get? variableName).getD []

/-- The word in a variable: without blanks around it, and in small letters. -/
def word (environment : OrderedMap Text) (variableName : Text) : Text :=
  ((value environment variableName).trim CodePoint.isBlank).toLower

end Settings

namespace CommandLine

open Settings (value word onWords)

/-- A flag of a run with its variable. -/
structure Toggle where
  option : RunOption
  name : Text
  variableName : Text

/-- The toggles of a run, in the order in which they are checked. -/
def toggles : List Toggle :=
  [⟨.debug, "--debug", Settings.debugVariable⟩,
    ⟨.jsonInput, "--json-input", Settings.jsonInputVariable⟩,
    ⟨.jsonOutput, "--json-output", Settings.jsonOutputVariable⟩]

theorem flag?_of_mem_toggles : ∀ toggle ∈ toggles,
    toggle.option.flag? = some (toggle.name, toggle.variableName) := by
  simp [toggles, RunOption.flag?]

/-- The words that are a truth value to a run. -/
def knownWords : List Text := booleanWords.map Prod.fst

/-- The words that are yes to a run alone. -/
def abbreviations : List Text := ["t", "y"]

variable {environment : OrderedMap Text}

theorem lookup_booleanWords (w : Text) : booleanWords.lookup w =
    if w ∈ knownWords then some (decide (w ∈ onWords ++ abbreviations)) else none := by
  split_ifs with known
  · have each : ∀ w ∈ knownWords,
        booleanWords.lookup w = some (decide (w ∈ onWords ++ abbreviations)) := by decide
    exact each w known
  · rw [List.lookup_eq_none_iff]
    exact fun entry mem => bne_iff_ne.2 fun same => known (List.mem_map.2 ⟨entry, mem, same.symm⟩)

/-- A variable holds a truth value for a run. -/
def Known (environment : OrderedMap Text) (toggle : Toggle) : Prop :=
  word environment toggle.variableName ∈ knownWords

instance (environment : OrderedMap Text) (toggle : Toggle) : Decidable (Known environment toggle) :=
  inferInstanceAs (Decidable (_ ∈ _))

/-- The settings that the variables give a run. -/
def runSettings (environment : OrderedMap Text) : Settings where
  debug := word environment Settings.debugVariable ∈ onWords ++ abbreviations
  jsonInput := word environment Settings.jsonInputVariable ∈ onWords ++ abbreviations
  jsonOutput := word environment Settings.jsonOutputVariable ∈ onWords ++ abbreviations

/-- Arguments that name a generator there is, or none, and turn nothing on or off. -/
def Untoggled (args : List Text) (generate : Plugin.Generator) : Prop :=
  ∃ given, arguments RunOption.spellings .help true args = .ok ⟨given, []⟩ ∧
    (∀ option ∈ given, option.1 = .generator) ∧
    Generator.load (((⟨given, []⟩ : Arguments RunOption).value? .generator).getD
      Generator.defaultSpec) = .ok generate

theorem read_run (args : List Text) :
    read environment ("run" :: args) = readRun environment args := by
  have program : programArguments ("run" :: args) = .ok ⟨[], "run" :: args⟩ := by
    rw [programArguments, arguments, readArguments, if_neg (by decide), if_neg (by decide),
      if_neg (by decide)]
    rfl
  rw [read, if_neg (List.cons_ne_nil _ _), program]
  dsimp only
  rw [if_pos rfl]

section Given

variable {given : List (RunOption × Given)} {option : RunOption}

theorem option_not_mem (generators : ∀ option ∈ given, option.1 = .generator)
    (other : option ≠ .generator) : option ∉ given.map Prod.fst := by
  rw [List.mem_map]
  rintro ⟨g, mem, rfl⟩
  exact other (generators g mem)

theorem flag?_eq_none (generators : ∀ option ∈ given, option.1 = .generator)
    (other : option ≠ .generator) : (⟨given, []⟩ : Arguments RunOption).flag? option = none := by
  have absent : given.reverse.find? (fun g => g.1 = option) = none := by
    rw [List.find?_eq_none]
    intro g mem same
    exact option_not_mem generators other
      (List.mem_map.2 ⟨g, List.mem_reverse.1 mem, of_decide_eq_true same⟩)
  rw [Arguments.flag?, Arguments.last?, absent]
  rfl

/-- A flag that is not given is what the word of its variable says. -/
theorem read_toggle {toggle : Toggle} (mem : toggle ∈ toggles)
    (generators : ∀ option ∈ given, option.1 = .generator) :
    toggle.option.read environment ⟨given, []⟩ =
      if Known environment toggle then
        .ok (decide (word environment toggle.variableName ∈ onWords ++ abbreviations))
      else .error (.notABoolean toggle.name (value environment toggle.variableName)) := by
  have flag := flag?_of_mem_toggles toggle mem
  have absent : (⟨given, []⟩ : Arguments RunOption).flag? toggle.option = none :=
    flag?_eq_none generators fun same => by rw [same] at flag; cases flag
  rw [RunOption.read, absent, flag]
  dsimp only
  cases held : environment.get? toggle.variableName with
  | none =>
    simp only [Known, word, value, held]
    rfl
  | some t =>
    simp only [Known, word, value, held, Option.getD_some]
    cases t with
    | nil => rfl
    | cons c t =>
      simp only [readBoolean, lookup_booleanWords]
      split_ifs <;> rfl

/-- Only the toggles are checked. -/
theorem checkAll_toggles {check : RunOption → Except UsageError Unit}
    (generators : ∀ option ∈ given, option.1 = .generator) (passes : check .generator = .ok ()) :
    checkAll ⟨given, []⟩ [.generator, .debug, .jsonInput, .jsonOutput] check =
      ((toggles.map Toggle.option).forM check).mapError .usage := by
  have left : ((⟨given, []⟩ : Arguments RunOption).checked
      [.generator, .debug, .jsonInput, .jsonOutput]).filter (· ≠ .generator) =
        toggles.map Toggle.option := by
    have only : ((given.map Prod.fst).eraseDups).filter (· ≠ RunOption.generator) = [] := by
      simpa using generators
    rw [Arguments.checked, List.filter_append, only, List.nil_append]
    simp [option_not_mem generators, toggles]
  rw [checkAll, ← forM_filter (p := (· ≠ RunOption.generator)) (by simp +contextual [passes]), left]
  cases (toggles.map Toggle.option).forM check <;> rfl

theorem generator_passes (environment : OrderedMap Text) (arguments : Arguments RunOption) :
    ((RunOption.generator.read environment arguments).map fun _ => ()) = .ok () := by
  rw [RunOption.read]
  split
  · rfl
  · rfl
  · rename_i flag
    cases flag

theorem readSettings_eq_ok (generators : ∀ option ∈ given, option.1 = .generator)
    (known : ∀ toggle ∈ toggles, Known environment toggle) :
    readSettings environment ⟨given, []⟩ = .ok (runSettings environment) := by
  have read (toggle : Toggle) (mem : toggle ∈ toggles) :
      toggle.option.read environment ⟨given, []⟩ =
        .ok (decide (word environment toggle.variableName ∈ onWords ++ abbreviations)) := by
    rw [read_toggle mem generators]
    exact if_pos (known toggle mem)
  have passed : ∀ option ∈ toggles.map Toggle.option,
      ((option.read environment ⟨given, []⟩).map fun _ => ()) = .ok () :=
    List.forall_mem_map.2 fun toggle mem => by rw [read toggle mem]; rfl
  have debug := read ⟨.debug, _, _⟩ (.head _)
  have jsonInput := read ⟨.jsonInput, _, _⟩ (.tail _ (.head _))
  have jsonOutput := read ⟨.jsonOutput, _, _⟩ (.tail _ (.tail _ (.head _)))
  rw [readSettings, checkAll_toggles generators (generator_passes environment _),
    forM_eq_ok passed]
  simp only [debug, jsonInput, jsonOutput]
  rfl

theorem readSettings_eq_error (generators : ∀ option ∈ given, option.1 = .generator)
    {before after : List Toggle} {toggle : Toggle} (split : toggles = before ++ toggle :: after)
    (known : ∀ earlier ∈ before, Known environment earlier) (unknown : ¬Known environment toggle) :
    readSettings environment ⟨given, []⟩ =
      .error (.usage (.notABoolean toggle.name (value environment toggle.variableName))) := by
  have mem : ∀ earlier ∈ before, earlier ∈ toggles := fun earlier h =>
    split ▸ List.mem_append_left _ h
  have passed : ∀ option ∈ before.map Toggle.option,
      ((option.read environment ⟨given, []⟩).map fun _ => ()) = .ok () := by
    refine List.forall_mem_map.2 fun earlier h => ?_
    rw [read_toggle (mem earlier h) generators, if_pos (known earlier h)]
    rfl
  have failed : ((toggle.option.read environment ⟨given, []⟩).map fun _ => ()) =
      .error (.notABoolean toggle.name (value environment toggle.variableName)) := by
    rw [read_toggle (split ▸ List.mem_append_right _ List.mem_cons_self) generators,
      if_neg unknown]
    rfl
  rw [readSettings, checkAll_toggles generators (generator_passes environment _), split,
    List.map_append, List.map_cons, forM_eq_error passed failed]
  rfl

end Given

variable {args : List Text} {generate : Plugin.Generator}

theorem readRun_eq (untoggled : Untoggled args generate) (environment : OrderedMap Text) :
    ∃ given : List (RunOption × Given), (∀ option ∈ given, option.1 = .generator) ∧
      readRun environment args = match readSettings environment ⟨given, []⟩ with
        | .error stop => stop.reading .run
        | .ok settings => .command (.run generate settings) := by
  obtain ⟨given, understood, generators, loads⟩ := untoggled
  refine ⟨given, generators, ?_⟩
  rw [readRun, understood]
  cases read : readSettings environment ⟨given, []⟩ with
  | error stop => simp only [read]
  | ok settings => simp only [read, loads]

theorem read_of_known (untoggled : Untoggled args generate)
    (known : ∀ toggle ∈ toggles, Known environment toggle) :
    read environment ("run" :: args) = .command (.run generate (runSettings environment)) := by
  obtain ⟨given, generators, eq⟩ := readRun_eq untoggled environment
  rw [read_run, eq, readSettings_eq_ok generators known]

theorem read_of_unknown (untoggled : Untoggled args generate) {before after : List Toggle}
    {toggle : Toggle} (split : toggles = before ++ toggle :: after)
    (known : ∀ earlier ∈ before, Known environment earlier) (unknown : ¬Known environment toggle) :
    read environment ("run" :: args) =
      .usageError .run (.notABoolean toggle.name (value environment toggle.variableName)) := by
  obtain ⟨given, generators, eq⟩ := readRun_eq untoggled environment
  rw [read_run, eq, readSettings_eq_error generators split known unknown]
  rfl

theorem exists_first_unknown (unknown : ¬∀ toggle ∈ toggles, Known environment toggle) :
    ∃ before toggle after, toggles = before ++ toggle :: after ∧
      (∀ earlier ∈ before, Known environment earlier) ∧ ¬Known environment toggle := by
  cases found : toggles.find? fun toggle => ¬Known environment toggle with
  | none => exact absurd (by simpa using found) unknown
  | some toggle =>
    obtain ⟨refused, before, after, split, earlier⟩ := List.find?_eq_some_iff_append.1 found
    exact ⟨before, toggle, after, split, by simpa using earlier, by simpa using refused⟩

theorem not_mem_abbreviations_iff (w : Text) :
    decide (w ∈ onWords ++ abbreviations) = decide (w ∈ onWords) ↔ w ∉ abbreviations := by
  have apart : w ∈ abbreviations → w ∉ onWords := by
    rw [abbreviations, List.mem_cons, List.mem_singleton]
    rintro (rfl | rfl) <;> decide
  rw [decide_eq_decide, List.mem_append]
  tauto

theorem runSettings_eq_iff : runSettings environment = Settings.ofEnvironment environment ↔
    ∀ toggle ∈ toggles, word environment toggle.variableName ∉ abbreviations := by
  have isOn (variableName : Text) : Settings.isOn ((environment.get? variableName).getD []) =
      decide (word environment variableName ∈ onWords) := rfl
  rw [runSettings, Settings.ofEnvironment, Settings.mk.injEq]
  simp only [isOn, not_mem_abbreviations_iff, toggles, List.forall_mem_cons, List.not_mem_nil,
    false_implies, implies_true, and_true]

/-- The outcome of a run of a plugin as that of a command, which leaves the files alone. -/
def Outcome.ofRun (files : Files) (outcome : Plugin.Outcome) : Outcome where
  ending := .exit outcome.status
  output := outcome.output
  diagnostics := outcome.diagnostics
  files := files

/-- A run that is given no toggle is made with what the variables say to it, if they hold truth
values; else it is refused for the first that holds none. So it does as a plugin on its own where
the variables hold words that both know, and no others. -/
theorem toggles_exact (untoggled : Untoggled args generate) (environment : OrderedMap Text) :
    ((∀ toggle ∈ toggles, Known environment toggle) →
      read environment ("run" :: args) = .command (.run generate (runSettings environment))) ∧
    (∀ before toggle after, toggles = before ++ toggle :: after →
      (∀ earlier ∈ before, Known environment earlier) → ¬Known environment toggle →
        read environment ("run" :: args) = .usageError .run
          (.notABoolean toggle.name (value environment toggle.variableName))) ∧
    (read environment ("run" :: args) =
        .command (.run generate (Settings.ofEnvironment environment)) ↔
      ∀ toggle ∈ toggles, Known environment toggle ∧
        word environment toggle.variableName ∉ abbreviations) ∧
    ∀ files input, (Command.run Plugin.outlines (Settings.ofEnvironment environment)).execute files
      input = .ofRun files (Plugin.runOutlines environment input) := by
  refine ⟨read_of_known untoggled, fun _ _ _ => read_of_unknown untoggled, ?_, fun _ _ => rfl⟩
  constructor
  · intro same toggle mem
    by_cases known : ∀ toggle ∈ toggles, Known environment toggle
    · rw [read_of_known untoggled known] at same
      injection same with same
      injection same with _ same
      exact ⟨known toggle mem, runSettings_eq_iff.1 same toggle mem⟩
    · obtain ⟨before, toggle, after, split, earlier, unknown⟩ := exists_first_unknown known
      rw [read_of_unknown untoggled split earlier unknown] at same
      cases same
  · intro agreed
    rw [read_of_known untoggled fun toggle mem => (agreed toggle mem).1,
      runSettings_eq_iff.2 fun toggle mem => (agreed toggle mem).2]

theorem untoggled_nil : Untoggled [] Plugin.outlines := ⟨[], rfl, nofun, rfl⟩

/-- A word with blanks and a capital, which both take for yes. -/
theorem toggles_exact_capital :
    read (.ofList [(Settings.debugVariable, " On ")]) ["run"] =
      .command (.run Plugin.outlines { debug := true }) :=
  ((toggles_exact untoggled_nil (.ofList [(Settings.debugVariable, " On ")])).2.2.1).2 (by decide)

/-- A run refuses a word that is no for a plugin on its own, and takes a letter for yes that is no
for the other. -/
theorem toggles_disagree :
    (read (.ofList [(Settings.debugVariable, "debug")]) ["run"] =
        .usageError .run (.notABoolean "--debug" "debug") ∧
      Settings.ofEnvironment (.ofList [(Settings.debugVariable, "debug")]) = {}) ∧
    read (.ofList [(Settings.jsonOutputVariable, "y")]) ["run"] =
        .command (.run Plugin.outlines { jsonOutput := true }) ∧
      Settings.ofEnvironment (.ofList [(Settings.jsonOutputVariable, "y")]) = {} :=
  ⟨⟨read_of_unknown untoggled_nil (show toggles = [] ++ _ from rfl) nofun (by decide), by decide⟩,
    read_of_known untoggled_nil (by decide), by decide⟩

end CommandLine

end SchemaPlugin
