import SchemaPlugin.Text.Quoted

/-!
Paths of files: a root and the components below it. Repeated slashes and components `.` are dropped
when a path is read; `..` is a component like any other.
-/

namespace SchemaPlugin

/-- Where a path begins. Exactly two slashes are a root of their own. -/
inductive Root
  | none
  | single
  | double
  deriving DecidableEq

structure Path where
  root : Root
  components : List Text
  deriving DecidableEq

def Root.text : Root → Text
  | .none => []
  | .single => "/"
  | .double => "//"

namespace Path

def slash : CodePoint := '/'

def dot : CodePoint := '.'

def ofText (t : Text) : Path where
  root := match (t.takeWhile (· = slash)).length with
    | 0 => .none
    | 2 => .double
    | _ => .single
  components := (Text.split slash t).filter fun c => c ≠ [] ∧ c ≠ [dot]

def toText (p : Path) : Text :=
  if p.root = .none ∧ p.components = [] then [dot]
  else p.root.text ++ Text.join [slash] p.components

def name? (p : Path) : Option Text := p.components.getLast?

/-- A name up to its last dot, unless it begins or ends with that dot. -/
def stem (name : Text) : Text :=
  let ending := name.reverse.takeWhile (· ≠ dot)
  let before := name.reverse.drop (ending.length + 1)
  if before = [] ∨ ending = [] then name else before.reverse

/-- Whether a text can stand for a name: it reads as one component and does not end with a slash. -/
def IsName (name : Text) : Prop :=
  name.getLast? ≠ some slash ∧ ∃ c, ofText name = ⟨.none, [c]⟩

instance (name : Text) : Decidable (IsName name) :=
  decidable_of_iff (name.getLast? ≠ some slash ∧ (ofText name).root = .none ∧
      (ofText name).components.length = 1) <| by
    constructor
    · rintro ⟨h, hroot, hlength⟩
      obtain ⟨c, hc⟩ := List.length_eq_one_iff.1 hlength
      exact ⟨h, c, by rw [← hroot, ← hc]⟩
    · rintro ⟨h, c, hc⟩
      simp [h, hc]

/-- Why a path cannot be given another name. -/
inductive NameError
  | noName (p : Path)
  | invalid (name : Text)
  deriving DecidableEq

def NameError.message : NameError → Text
  | .noName p => "PurePosixPath(" ++ p.toText.quoted ++ ") has an empty name"
  | .invalid name => "Invalid name " ++ name.quoted

/-- The path with another last component, which is taken as it stands. -/
def withName (p : Path) (name : Text) : Except NameError Path :=
  if p.components = [] then .error (.noName p)
  else if IsName name then .ok ⟨p.root, p.components.dropLast ++ [name]⟩
  else .error (.invalid name)

end Path

end SchemaPlugin
