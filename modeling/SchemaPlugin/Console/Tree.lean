import SchemaPlugin.Console

/-!
Trees of marked-up labels, drawn with guides from each node to its children. A label is broken at
the width that the guides leave; where they leave none, it is not drawn.
-/

namespace SchemaPlugin.Console

open Markup (MarkupError)

structure Tree where
  label : Text
  children : List Tree

/-- The guides of a node: before its first line, and before what is below that. -/
structure Guides where
  first : Text
  below : Text

def Guides.root : Guides := ⟨[], []⟩

/-- The guides of a child. -/
def Guides.child (guides : Guides) (isLast : Bool) : Guides :=
  if isLast then ⟨guides.below ++ "└── ", guides.below ++ "    "⟩
  else ⟨guides.below ++ "├── ", guides.below ++ "│   "⟩

/-- The lines of a label after the guides. -/
def labelLines (guides : Guides) (label : Text) : List Text :=
  let room := width - guides.below.length
  if room = 0 then []
  else match wrap room label with
    | [] => []
    | line :: rest => (guides.first ++ line) :: rest.map (guides.below ++ ·)

namespace Tree

mutual

def linesAt (guides : Guides) : Tree → Except MarkupError (List Text)
  | ⟨label, children⟩ => do
    let label ← Markup.plain label
    return labelLines guides label ++ (← childLines guides children)

def childLines (guides : Guides) : List Tree → Except MarkupError (List Text)
  | [] => .ok []
  | tree :: rest => do
    let lines ← linesAt (guides.child rest.isEmpty) tree
    return lines ++ (← childLines guides rest)

end

def print (tree : Tree) : Except MarkupError Text := do return printed (← linesAt .root tree)

end Tree

end SchemaPlugin.Console
