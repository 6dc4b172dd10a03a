import SchemaPlugin.Document.Grammar
import SchemaPlugin.Proofs.Basic
import SchemaPlugin.Proofs.Text.Surrogates

/-!
Documents with the surrogate pairs of their strings and names joined. Names that become the same
name are one member then, at the place of the first and with the value of the last.
-/

namespace SchemaPlugin.Document

open Encoding (joinSurrogates)

mutual

def joined : Document → Document
  | null => null
  | bool b => bool b
  | int n => int n
  | double x => double x
  | string t => string (joinSurrogates t)
  | array items => array (joinedItems items)
  | object members => ofMembers (joinedMembers members)

def joinedItems : List Document → List Document
  | [] => []
  | d :: rest => d.joined :: joinedItems rest

def joinedMembers : List (Text × Document) → List (Text × Document)
  | [] => []
  | (key, d) :: rest => (joinSurrogates key, d.joined) :: joinedMembers rest

end

theorem joinedItems_eq (items : List Document) : joinedItems items = items.map joined := by
  induction items with
  | nil => rfl
  | cons d rest ih => rw [joinedItems, ih, List.map_cons]

theorem joinedMembers_eq (members : List (Text × Document)) :
    joinedMembers members = members.map fun m => (joinSurrogates m.1, m.2.joined) := by
  induction members with
  | nil => rfl
  | cons m rest ih => rw [joinedMembers, ih, List.map_cons]

/-- A document without numbers that have a fraction or an exponent. -/
inductive Integral : Document → Prop
  | null : Integral null
  | bool (b : Bool) : Integral (bool b)
  | int (n : Int) : Integral (int n)
  | string (t : Text) : Integral (string t)
  | array {items : List Document} (each : ∀ d ∈ items, Integral d) : Integral (array items)
  | object {members : List (Text × Document)} (each : ∀ m ∈ members, Integral m.2) :
      Integral (object members)

end SchemaPlugin.Document
