import SchemaPlugin.Text.Quoted
import SchemaPlugin.Text.Similarity

/-!
Names that stand for nothing, with the names that may have been meant: those alike, the closest
three at most.
-/

namespace SchemaPlugin.CommandLine

/-- The order of names, by code points. -/
def nameLE : Text → Text → Bool
  | [], _ => true
  | _ :: _, [] => false
  | a :: s, b :: t => a.val < b.val || (a = b && nameLE s t)

/-- Of two names that are equally close, the later one comes first. -/
def closestFirst (word s t : Text) : Bool :=
  Text.isCloser word s t && (!Text.isCloser word t s || nameLE t s)

/-- The most names that are suggested. -/
def maxSuggestions : Nat := 3

/-- The names that a word may have meant, in their order. -/
def suggestions (names : List Text) (word : Text) : List Text :=
  let alike := names.filter fun name => Text.isAlike name word
  ((alike.mergeSort (closestFirst word)).take maxSuggestions).mergeSort nameLE

structure UnknownName where
  name : Text
  suggestions : List Text
  deriving DecidableEq

/-- A name that is none of those. -/
def UnknownName.among (names : List Text) (name : Text) : UnknownName :=
  ⟨name, CommandLine.suggestions names name⟩

/-- What is asked of one suggestion, or of several. -/
def suggestionText : List Text → Text
  | [] => []
  | [name] => " Did you mean " ++ name.quoted ++ "?"
  | names => " (Did you mean one of: " ++ Text.join ", " (names.map Text.quoted) ++ "?)"

/-- The message on an unknown option or command; `kind` says which it is. -/
def UnknownName.message (kind : Text) (unknown : UnknownName) : Text :=
  "No such " ++ kind ++ " " ++ unknown.name.quoted ++ "." ++ suggestionText unknown.suggestions

end SchemaPlugin.CommandLine
