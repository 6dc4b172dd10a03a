import SchemaPlugin.OrderedMap
import SchemaPlugin.Text.Blank

/-!
The settings of a plugin, read from the environment.
-/

namespace SchemaPlugin

structure Settings where
  debug : Bool := false
  jsonInput : Bool := false
  jsonOutput : Bool := false
  deriving DecidableEq

namespace Settings

def debugVariable : Text := "PROTOPLUG_DEBUG"

def jsonInputVariable : Text := "PROTOPLUG_JSON_INPUT"

def jsonOutputVariable : Text := "PROTOPLUG_JSON_OUTPUT"

/-- The words that turn a setting on. No other code point than an ASCII capital has a letter of
theirs as its small form. -/
def onWords : List Text := ["1", "true", "yes", "on"]

def isOn (value : Text) : Bool := (value.trim CodePoint.isBlank).toLower ∈ onWords

def ofEnvironment (environment : OrderedMap Text) : Settings where
  debug := isOn ((environment.get? debugVariable).getD [])
  jsonInput := isOn ((environment.get? jsonInputVariable).getD [])
  jsonOutput := isOn ((environment.get? jsonOutputVariable).getD [])

end Settings

end SchemaPlugin
