import SchemaPlugin.Plugin
import SchemaPlugin.Text.Quoted

/-!
Generators by name: a module and a function in it, with a colon between them. There is one module
with generators, and one generator in it.
-/

namespace SchemaPlugin.CommandLine

/-- Why a name names no generator. -/
inductive GeneratorError
  | form (spec : Text)
  | noModule (name missing : Text)
  | noPackage (name missing package : Text)
  | relative (name : Text)
  | notCallable (spec : Text)
  deriving DecidableEq

def GeneratorError.message : GeneratorError → Text
  | .form spec => "expected module:function, got " ++ spec.quoted
  | .noModule name missing => "cannot import " ++ name ++ ": No module named " ++ missing.quoted
  | .noPackage name missing package =>
    "cannot import " ++ name ++ ": No module named " ++ missing.quoted ++ "; " ++ package.quoted ++
      " is not a package"
  | .relative name =>
    "the 'package' argument is required to perform a relative import for " ++ name.quoted
  | .notCallable spec => spec ++ " is not callable"

namespace Generator

def dot : CodePoint := '.'

def outlineModule : Text := "protoplug.plugin.outline"

/-- The packages that the modules are in. -/
def packages : List Text := ["protoplug", "protoplug.plugin"]

def outlineFunction : Text := "generate"

def defaultSpec : Text := outlineModule ++ ":" ++ outlineFunction

/-- Looks for a module from its outermost package on; `outer` is the package found so far. -/
def findModule (name outer : Text) : List Text → Except GeneratorError Unit
  | [] => .ok ()
  | part :: rest =>
    let inner := if outer = [] then part else outer ++ dot :: part
    if inner ∈ outlineModule :: packages then findModule name inner rest
    else if outer = outlineModule then .error (.noPackage name inner outer)
    else .error (.noModule name inner)

def load (spec : Text) : Except GeneratorError Plugin.Generator := do
  let (name, function) := (Text.cut? ':' spec).getD (spec, [])
  if name = [] ∨ function = [] then .error (.form spec)
  else if name.head? = some dot then .error (.relative name)
  else do
    findModule name [] (Text.split dot name)
    if name = outlineModule ∧ function = outlineFunction then return Plugin.outlines
    else .error (.notCallable spec)

end Generator

end SchemaPlugin.CommandLine
