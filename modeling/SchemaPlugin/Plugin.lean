import SchemaPlugin.Console
import SchemaPlugin.Document.Display
import SchemaPlugin.Outline
import SchemaPlugin.Request.Document
import SchemaPlugin.Response.Document
import SchemaPlugin.Settings

/-!
A run of a plugin: a request comes in, a generator makes a response of it, the response goes out.
Exactly one response goes out; what fails on the way makes it one that says what went wrong, and the
status 1.
-/

namespace SchemaPlugin.Plugin

/-- Why a run fails. A generator may raise an error of a kind of its own, with arguments. -/
inductive Failure
  | decode (e : Wire.DecodeError)
  | source (e : Request.SourceError)
  | nullNames
  | generate (e : Outline.GenerateError)
  | raised (kind : Text) (args : List Document)
  | notResponse (kind : Text)
  | encode (e : EncodeError)

/-- The kind of error that shows its argument in quotes. -/
def keyErrorKind : Text := "KeyError"

/-- The text of a raised error. -/
def raisedText (kind : Text) : List Document → Text
  | [] => []
  | [d] => if kind = keyErrorKind then d.shown else d.toText
  | args => "(" ++ Text.join ", " (Document.shownItems args) ++ ")"

/-- What went wrong. An error that says nothing is named by its kind. -/
def Failure.message : Failure → Text
  | decode e => e.message
  | source e => e.message
  | nullNames => "can only join an iterable"
  | generate e => e.message
  | raised kind args => if raisedText kind args = [] then kind else raisedText kind args
  | notResponse kind => "Generator returned " ++ kind ++ ", expected PluginResponse"
  | encode e => e.message

/-- A text that can be encoded: an escape stands for each surrogate. -/
def escapeSurrogates (t : Text) : Text :=
  t.flatMap fun c => if c.isSurrogate then "\\u" ++ Text.hex 4 c.val else [c]

theorem escapeSurrogates_eq_self {t : Text} (h : t.Encodable) : escapeSurrogates t = t := by
  induction t with
  | nil => rfl
  | cons c rest ih =>
    have hc : c.isSurrogate = false := h c (by simp)
    have hrest := ih fun d hd => h d (by simp [hd])
    simp only [escapeSurrogates, List.flatMap_cons, hc] at hrest ⊢
    rw [hrest]
    rfl

def Failure.description (f : Failure) : Text := "Plugin error: " ++ escapeSurrogates f.message

/-- The description with the place that the failure was raised at. -/
def Failure.descriptionAt (f : Failure) (file line : Text) : Text :=
  f.description ++ " in " ++ file ++ " on line " ++ line

/-- What a generator makes: a response, or something that is none. -/
inductive Product
  | response (r : Response)
  | other (d : Document)

abbrev Generator := Request → Except Failure Product

/-- The generator of outlines. -/
def outlines : Generator := fun r => do
  return .response (← (Outline.generate r).mapError .generate)

/-- What a run is doing when it fails. -/
inductive State
  | decoding
  | generating
  | encoding
  deriving DecidableEq

def State.name : State → Text
  | decoding => "decoding"
  | generating => "generating"
  | encoding => "encoding"

/-- A diagnostic line. Texts in it are escaped, so that every tag in it that closes one has one to
close. -/
def diagnostic (markup : Text) : Text :=
  match Console.printUnbroken markup with
  | .ok t => t
  | .error _ => markup

/-- The response of a run, whether it is that of a failure, and the diagnostics up to it. -/
structure Progress where
  response : Response
  failed : Bool
  diagnostics : Text

def failureMarkup (state : State) (description : Text) : Text :=
  "[bold red]" ++ Markup.escape description ++ "[/bold red] (while " ++ state.name ++ ")"

def fail (settings : Settings) (diagnostics : Text) (state : State) (f : Failure) : Progress where
  response := .failure f.description
  failed := true
  diagnostics :=
    diagnostics ++ if settings.debug then diagnostic (failureMarkup state f.description) else []

def decodeInput (settings : Settings) (input : Bytes) : Except Failure Request :=
  if settings.jsonInput then (Request.ofBytes input).mapError .source
  else (Request.decode input).mapError .decode

def announcementMarkup (fileCount : Nat) (names : List Text) : Text :=
  let shown := Markup.escape (Text.join ", " names)
  "[dim]protoplug:[/dim] " ++ Text.ofNat fileCount ++ " proto files, generating " ++
    if shown = [] then Text.ofString "nothing" else shown

/-- What is said of a request before the generator has it. -/
def announcement (r : Request) : Except Failure Text :=
  match r.filesToGenerate with
  | none => .error .nullNames
  | some names => .ok (diagnostic (announcementMarkup r.protoFiles.size names))

def announced (settings : Settings) (r : Request) : Except Failure Text :=
  if settings.debug then announcement r else .ok []

/-- The response that a generator makes; of one with an error, only the error counts. -/
def produce (generate : Generator) (r : Request) : Except Failure Response := do
  match ← generate r with
  | .response response =>
    return if response.hasError then .failure (response.error.getD []) else response
  | .other d => .error (.notResponse d.kind)

/-- A run up to its response. -/
def respond (generate : Generator) (settings : Settings) (input : Bytes) : Progress :=
  match decodeInput settings input with
  | .error f => fail settings [] .decoding f
  | .ok r =>
    match announced settings r with
    | .error f => fail settings [] .decoding f
    | .ok diagnostics =>
      match produce generate r with
      | .error f => fail settings diagnostics .generating f
      | .ok response => ⟨response, false, diagnostics⟩

def encodeOutput (settings : Settings) (r : Response) : Except Failure Bytes :=
  if settings.jsonOutput then .ok ((r.toJson (some 2)).flatMap Utf8.bytesOf)
  else r.encode.mapError .encode

/-- What a run leaves: its status, the bytes of the response, and diagnostics. -/
structure Outcome where
  status : Nat
  output : Bytes
  diagnostics : Text

def completionMarkup (fileCount : Nat) : Text :=
  "[dim]protoplug:[/dim] wrote " ++ Text.ofNat fileCount ++ " files"

def completion (settings : Settings) (progress : Progress) : Text :=
  if settings.debug ∧ !progress.failed then
    diagnostic (completionMarkup progress.response.files.length)
  else []

/-- A run. If the response cannot be encoded, the one that says so can. -/
def run (generate : Generator) (settings : Settings) (input : Bytes) : Outcome :=
  let progress := respond generate settings input
  match encodeOutput settings progress.response with
  | .ok output =>
    ⟨if progress.failed then 1 else 0, output,
      progress.diagnostics ++ completion settings progress⟩
  | .error f =>
    let progress := fail settings progress.diagnostics .encoding f
    ⟨1, ((encodeOutput settings progress.response).toOption).getD [], progress.diagnostics⟩

/-- The plugin that makes outlines, with its settings in the environment. -/
def runOutlines (environment : OrderedMap Text) (input : Bytes) : Outcome :=
  run outlines (Settings.ofEnvironment environment) input

end SchemaPlugin.Plugin
