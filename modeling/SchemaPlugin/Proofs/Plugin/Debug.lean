import Mathlib
import SchemaPlugin.Proofs.Document.Literals
import SchemaPlugin.Proofs.Plugin.Run
import SchemaPlugin.Proofs.Request.Canonical
import SchemaPlugin.Proofs.Text.Escaped

/-!
Runs with diagnostics and without. Every diagnostic can be printed, whatever it quotes, so that
diagnostics change nothing about the status and the output of a run, but for a request with null in
the place of its files: their names cannot be joined, and the run fails before the generator has the
request.
-/

namespace SchemaPlugin.Plugin

section Printed

open Markup (Shows Unmarked backslash backslashes bracket bracketed isBackslash shows_escape
  shows_escape_append unmarked_ofNat)

/-- The markups that a run with diagnostics prints. -/
inductive Printed : Text → Prop
  | announcement (fileCount : Nat) (names : List Text) :
      Printed (announcementMarkup fileCount names)
  | completion (fileCount : Nat) : Printed (completionMarkup fileCount)
  | failure (state : State) (description : Text) : Printed (failureMarkup state description)
  | traceback (t : Text) : Printed (Markup.escape t)

theorem shows_label {t : Text} (shows : Shows [] t) :
    Shows [] ("[dim]protoplug:[/dim] " ++ t) := by
  have tags : Text.ofString "[dim]protoplug:[/dim] " =
      bracketed "dim" ++ (Text.ofString "protoplug:" ++ (bracketed "/dim" ++ " ")) := rfl
  have space : Shows [] (" " ++ t) := Unmarked.shows_append (by decide) shows
  have closed : Shows ["dim"] (bracketed "/dim" ++ (" " ++ t)) :=
    .bracketed (.mk rfl (by decide)) (fun _ => rfl) space
  have named : Shows ["dim"] ("protoplug:" ++ (bracketed "/dim" ++ (" " ++ t))) :=
    Unmarked.shows_append (by decide) closed
  rw [tags, List.append_assoc, List.append_assoc, List.append_assoc]
  exact .bracketed (.mk rfl (by decide)) (fun _ => rfl) named

/-- What stands after the description of a failure, and ends its style. -/
def failureEnd (state : State) : Text :=
  bracketed "/bold red" ++ (" (while " ++ state.name ++ ")")

/-- After an odd number of backslashes the tag that ends the style shows, and the style stays on. -/
theorem shows_failureEnd (state : State) (n : Nat) :
    Shows ["bold red"] (backslashes n ++ failureEnd state) := by
  have unmarked : Unmarked (" (while " ++ state.name ++ ")") := by cases state <;> decide
  exact .tag (.mk rfl (by decide)) (fun _ => unmarked.shows)
    fun _ => ⟨[], fun _ => rfl, unmarked.shows⟩

theorem Printed.shows {markup : Text} (printed : Printed markup) : Shows [] markup := by
  cases printed with
  | announcement fileCount names =>
    let shown := Markup.escape (Text.join ", " names)
    have listed : Shows [] (if shown = [] then Text.ofString "nothing" else shown) := by
      split_ifs
      · exact Unmarked.shows (by decide)
      · exact shows_escape _ _
    have generating : Shows [] (" proto files, generating " ++
        if shown = [] then Text.ofString "nothing" else shown) :=
      Unmarked.shows_append (by decide) listed
    rw [announcementMarkup, List.append_assoc, List.append_assoc]
    exact shows_label ((unmarked_ofNat fileCount).shows_append generating)
  | completion fileCount =>
    have files : Shows [] (" files") := Unmarked.shows (by decide)
    have wrote : Shows [] ("wrote " ++ (Text.ofNat fileCount ++ " files")) :=
      Unmarked.shows_append (by decide) ((unmarked_ofNat fileCount).shows_append files)
    have label : Text.ofString "[dim]protoplug:[/dim] wrote " =
        "[dim]protoplug:[/dim] " ++ Text.ofString "wrote " := rfl
    rw [completionMarkup, label, List.append_assoc, List.append_assoc]
    exact shows_label wrote
  | failure state description =>
    have begins : ∀ c ∈ (failureEnd state).head?, c = bracket := by
      rintro _ ⟨⟩
      rfl
    have described : Shows ["bold red"] (Markup.escape description ++ failureEnd state) :=
      shows_escape_append description begins (shows_failureEnd state)
    have tags : failureMarkup state description =
        bracketed "bold red" ++ (Markup.escape description ++ failureEnd state) := by
      rw [failureMarkup, List.append_assoc, List.append_assoc]
      rfl
    rw [tags]
    exact .bracketed (.mk rfl (by decide)) (fun _ => rfl) described
  | traceback t => exact shows_escape t []

theorem Printed.printUnbroken_eq {markup : Text} (printed : Printed markup) :
    Console.printUnbroken markup = .ok (diagnostic markup) := by
  obtain ⟨t, eq⟩ := printed.shows.exists_printUnbroken
  rw [diagnostic, eq]

end Printed

section Interference

variable {settings : Settings} {input : Bytes}

/-- The settings without diagnostics. -/
def quiet (settings : Settings) : Settings := { settings with debug := false }

/-- The settings with diagnostics. -/
def loud (settings : Settings) : Settings := { settings with debug := true }

/-- The input is that of a request with null in the place of its files. -/
def NullNames (settings : Settings) (input : Bytes) : Prop :=
  ∃ r, decodeInput settings input = .ok r ∧ r.filesToGenerate = none

theorem jsonInput_of_nullNames (null : NullNames settings input) : settings.jsonInput = true := by
  obtain ⟨r, decoded, none_⟩ := null
  cases json : settings.jsonInput with
  | true => rfl
  | false =>
    rw [decodeInput, json, if_neg (by simp)] at decoded
    cases Request.canonical_of_decode (mapError_eq_ok_iff.1 decoded)
    cases none_

theorem decodeInput_quiet (settings : Settings) (input : Bytes) :
    decodeInput (quiet settings) input = decodeInput settings input := rfl

theorem decodeInput_loud (settings : Settings) (input : Bytes) :
    decodeInput (loud settings) input = decodeInput settings input := rfl

theorem announced_loud (settings : Settings) (r : Request) :
    announced (loud settings) r = announcement r := rfl

theorem encodeOutput_quiet (settings : Settings) (r : Response) :
    encodeOutput (quiet settings) r = encodeOutput settings r := rfl

theorem encodeOutput_loud (settings : Settings) (r : Response) :
    encodeOutput (loud settings) r = encodeOutput settings r := rfl

theorem run_quiet (generate : Generator) (settings : Settings) (input : Bytes) :
    (run generate (quiet settings) input).diagnostics = [] := by
  rcases @run_cases generate (quiet settings) input rfl with ⟨_, _, -, -, eq⟩ | ⟨_, _, -, -, eq⟩
  · rw [eq]
  · rw [eq]

/-- A request with files is announced, and the rest of the run is what it is without. -/
theorem respond_loud (generate : Generator) (named : ¬NullNames settings input) :
    ∃ said, respond generate (loud settings) input =
      { respond generate (quiet settings) input with diagnostics := said } := by
  unfold respond
  rw [decodeInput_loud, decodeInput_quiet]
  cases decoded : decodeInput settings input with
  | error f => exact ⟨_, rfl⟩
  | ok r =>
    obtain ⟨names, some_⟩ : ∃ names, r.filesToGenerate = some names :=
      Option.ne_none_iff_exists'.1 fun none_ => named ⟨r, decoded, none_⟩
    have said : announced (loud settings) r =
        .ok (diagnostic (announcementMarkup r.protoFiles.size names)) := by
      rw [announced_loud, announcement, some_]
    have silent : announced (quiet settings) r = .ok [] := rfl
    simp only [said, silent]
    cases produce generate r with
    | error f => exact ⟨_, rfl⟩
    | ok response => exact ⟨_, rfl⟩

theorem run_loud (generate : Generator) (named : ¬NullNames settings input) :
    ∃ said, run generate (loud settings) input =
      { run generate (quiet settings) input with diagnostics := said } := by
  obtain ⟨said, eq⟩ := respond_loud generate named
  unfold run
  rw [eq]
  simp only [encodeOutput_loud, encodeOutput_quiet]
  cases encodeOutput settings (respond generate (quiet settings) input).response with
  | ok output => exact ⟨_, rfl⟩
  | error f => exact ⟨_, rfl⟩

/-- Names that are null cannot be joined, and the generator never has the request. -/
theorem run_loud_of_nullNames (generate : Generator) (null : NullNames settings input) :
    (run generate (loud settings) input).status = 1 ∧
      encodeOutput settings (.failure (Failure.description .nullNames)) =
        .ok (run generate (loud settings) input).output := by
  obtain ⟨r, decoded, none_⟩ := null
  obtain ⟨output, encoded⟩ :=
    encodeOutput_failure settings (Failure.encodable_description .nullNames)
  have unannounced : announced (loud settings) r = .error .nullNames := by
    rw [announced_loud, announcement, none_]
  have failed : respond generate (loud settings) input =
      fail (loud settings) [] .decoding .nullNames := by
    rw [respond, decodeInput_loud, decoded]
    simp only [unannounced]
  rw [run, failed]
  simp only [fail, encodeOutput_loud, encoded]
  exact ⟨rfl, trivial⟩

theorem run_quiet_of_nullNames (null : NullNames settings input) :
    (run (fun _ => .ok (.response {})) (quiet settings) input).status = 0 := by
  obtain ⟨r, decoded, -⟩ := null
  have made : Makes (fun _ => .ok (.response {})) (quiet settings) input {} := ⟨r, decoded, rfl⟩
  obtain ⟨output, encoded⟩ := encodeOutput_of_wellTyped (quiet settings) (r := {}) (.mk nofun nofun)
  rw [run_of_makes rfl made encoded]

/-- What diagnostics change. Every one of them can be printed, and a run without prints none. There
are generators whose runs they give another status or another output just when the request has null
in the place of its files; then every run with diagnostics is a failure that says so. -/
theorem debug_interferes_iff (settings : Settings) (input : Bytes) :
    (NullNames settings input ↔ ∃ generate,
      (run generate (loud settings) input).status ≠ (run generate (quiet settings) input).status ∨
        (run generate (loud settings) input).output ≠
          (run generate (quiet settings) input).output) ∧
      (NullNames settings input → settings.jsonInput = true ∧ ∀ generate,
        (run generate (loud settings) input).status = 1 ∧
          encodeOutput settings (.failure "Plugin error: can only join an iterable") =
            .ok (run generate (loud settings) input).output) ∧
      (∀ generate, (run generate (quiet settings) input).diagnostics = []) ∧
      ∀ markup, Printed markup → Console.printUnbroken markup = .ok (diagnostic markup) := by
  refine ⟨⟨fun null => ?_, ?_⟩, fun null => ?_, fun generate => ?_, fun markup printed => ?_⟩
  · refine ⟨fun _ => .ok (.response {}), .inl ?_⟩
    rw [(run_loud_of_nullNames _ null).1, run_quiet_of_nullNames null]
    decide
  · rintro ⟨generate, differs⟩
    by_contra named
    obtain ⟨said, eq⟩ := run_loud generate named
    rw [eq] at differs
    simp at differs
  · exact ⟨jsonInput_of_nullNames null, fun generate => run_loud_of_nullNames generate null⟩
  · exact run_quiet generate settings input
  · exact printed.printUnbroken_eq

end Interference

/-- A JSON request with null in the place of its files. -/
def nullNames : Bytes :=
  (Text.ofString "\x7b\"filesToGenerate\": null\x7d").flatMap Utf8.bytesOf

def oneFile : Response where
  files := [⟨some "a.txt", some "x"⟩]

/-- The generator has the request and makes a response of it only if no diagnostics are printed. -/
theorem debug_interferes_nullNames :
    (run (fun _ => .ok (.response oneFile)) { jsonInput := true } nullNames).status = 0 ∧
      (run (fun _ => .ok (.response oneFile)) { debug := true, jsonInput := true }
        nullNames).status = 1 := by
  constructor <;> cbv

end SchemaPlugin.Plugin
