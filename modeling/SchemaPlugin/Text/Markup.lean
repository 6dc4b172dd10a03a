import SchemaPlugin.Text.Blank

/-!
Marked-up texts: tags in square brackets stand for styles and do not show. A tag begins with a small
letter, `#`, `/` or `@`; the last two begin a closing tag and an action. Backslashes before a tag
count in pairs, each pair for one of them, and an odd one makes the brackets show.
-/

namespace SchemaPlugin.Markup

def backslash : CodePoint := '\\'

def bracket : CodePoint := '['

def slash : CodePoint := '/'

def backslashes (n : Nat) : Text := List.replicate n backslash

/-- What a tag may begin with. -/
def isTagStart (c : CodePoint) : Bool :=
  (97 ≤ c.val && c.val ≤ 122) || c = '#' || c = '/' || c = '@'

def isTagBody (c : CodePoint) : Bool := c ≠ '[' && c ≠ ']'

/-- The tag that a text begins with, without its brackets, and what follows it. -/
def tag? : Text → Option (Text × Text)
  | c :: d :: rest =>
    if c = bracket ∧ isTagStart d then
      match rest.dropWhile isTagBody with
      | [] => none
      | e :: after => if e = ']' then some (d :: rest.takeWhile isTagBody, after) else none
    else none
  | _ => none

theorem length_dropWhile_le (p : CodePoint → Bool) (t : Text) :
    (t.dropWhile p).length ≤ t.length :=
  (List.dropWhile_sublist p).length_le

theorem length_lt_of_tag? {t body after : Text} (h : tag? t = some (body, after)) :
    after.length < t.length := by
  unfold tag? at h
  split at h
  · rename_i rest
    split at h
    · have hle := length_dropWhile_le isTagBody rest
      split at h
      · simp at h
      · rename_i heq
        rw [heq] at hle
        split at h
        · simp only [Option.some.injEq, Prod.mk.injEq] at h
          simp only [List.length_cons] at hle ⊢
          rw [h.2] at hle
          omega
        · simp at h
    · simp at h
  · simp at h

/-- A part of a marked-up text, with the backslashes before it. -/
inductive Lexeme
  | tag (slashes : Nat) (body : Text)
  | other (slashes : Nat) (c : CodePoint)
  | ending (slashes : Nat)
  deriving DecidableEq

def isBackslash (c : CodePoint) : Bool := c = backslash

def lexemes (t : Text) : List Lexeme :=
  let slashes := (t.takeWhile isBackslash).length
  match _h : tag? (t.dropWhile isBackslash) with
  | some (body, after) => .tag slashes body :: lexemes after
  | none =>
    match _hd : t.dropWhile isBackslash with
    | [] => [.ending slashes]
    | c :: rest => .other slashes c :: lexemes rest
termination_by t.length
decreasing_by
  · have := length_lt_of_tag? _h
    have := length_dropWhile_le isBackslash t
    omega
  · have := length_dropWhile_le isBackslash t
    rw [_hd] at this
    simp only [List.length_cons] at this
    omega

def bracketed (body : Text) : Text := bracket :: body ++ [CodePoint.ofChar ']']

/-- A lexeme with its tag, if it is one, made to show. -/
def Lexeme.escaped : Lexeme → Text
  | tag slashes body => backslashes (2 * slashes + 1) ++ bracketed body
  | other slashes c => backslashes slashes ++ [c]
  | ending slashes => backslashes slashes

/-- The markup that shows a text. A single backslash at the end is doubled, so that it does not
reach what follows. -/
def escape (t : Text) : Text :=
  let escaped := (lexemes t).flatMap Lexeme.escaped
  if (escaped.reverse.takeWhile isBackslash).length = 1 then escaped ++ [backslash] else escaped

/-- A closing tag without an open one. -/
inductive MarkupError
  | unmatched (tag : Text) (position : Nat)
  | nothingOpen (position : Nat)
  deriving DecidableEq

def MarkupError.message : MarkupError → Text
  | .unmatched tag position =>
    "closing tag '" ++ bracketed tag ++ "' at position " ++ Text.ofNat position ++
      " doesn't match any open tag"
  | .nothingOpen position =>
    "closing tag '[/]' at position " ++ Text.ofNat position ++ " has nothing to close"

/-- The name of a tag; what follows an equals sign is no part of it. -/
def tagName (body : Text) : Text := body.takeWhile (· ≠ CodePoint.ofChar '=')

/-- A name as tags are compared. -/
def normalized (name : Text) : Text := (name.trim CodePoint.isBlank).toLower

/-- The tags open after another one, the last one opened first. -/
def afterTag (openTags : List Text) (body : Text) (position : Nat) :
    Except MarkupError (List Text) :=
  match tagName body with
  | c :: name =>
    if c = slash then
      if normalized name = [] then
        match openTags with
        | [] => .error (.nothingOpen position)
        | _ :: rest => .ok rest
      else if normalized name ∈ openTags then .ok (openTags.erase (normalized name))
      else .error (.unmatched body position)
    else .ok (normalized (c :: name) :: openTags)
  | [] => .ok openTags

/-- What shows of lexemes that begin at a position, with tags open. A backslash before a bracket
that begins no tag does not show. -/
def shown (position : Nat) (openTags : List Text) : List Lexeme → Except MarkupError Text
  | [] => .ok []
  | .ending slashes :: rest => do
    return backslashes slashes ++ (← shown (position + slashes) openTags rest)
  | .other slashes c :: rest => do
    let kept := if c = bracket then slashes - 1 else slashes
    return backslashes kept ++ c :: (← shown (position + slashes + 1) openTags rest)
  | .tag slashes body :: rest => do
    let after := position + slashes + body.length + 2
    if slashes % 2 = 1 then
      return backslashes (slashes / 2) ++ bracketed body ++ (← shown after openTags rest)
    else do
      let openTags ← afterTag openTags body (position + slashes)
      return backslashes (slashes / 2) ++ (← shown after openTags rest)

/-- Bell, backspace, vertical tab, form feed and carriage return do not show. -/
def isControl (c : CodePoint) : Bool := c.val ∈ [7, 8, 11, 12, 13]

/-- The text that a marked-up text shows. Without a bracket there is nothing to read. -/
def plain (markup : Text) : Except MarkupError Text := do
  return (← shown 0 [] (lexemes markup)).filter (!isControl ·)

end SchemaPlugin.Markup
