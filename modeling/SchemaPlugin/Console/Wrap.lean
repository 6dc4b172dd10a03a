import SchemaPlugin.Text.Blank
import SchemaPlugin.Text.Glyph

/-!
Lines of a given width. A word with the blanks after it goes to the next line if it does not fit
without them; a word that fits no line begins a line and is cut at the width. Blanks that reach past
the width are dropped.
-/

namespace SchemaPlugin.Console

/-- The distance between two tab stops. -/
def tabWidth : Nat := 8

def spaces (n : Nat) : Text := List.replicate n ' '

/-- What precedes a tab and begins at a tab stop, with a space for the tab and more of them up to
the next tab stop. -/
def toTabStop (part : Text) : Text :=
  let spaced := part ++ " "
  spaced ++ spaces ((tabWidth - Text.cells spaced % tabWidth) % tabWidth)

/-- A line with spaces for its tabs. -/
def expandTabs (line : Text) : Text :=
  let parts := Text.split '\t' line
  parts.dropLast.flatMap toTabStop ++ (parts.getLast?).getD []

/-- The rest of a line in words, each with the blanks after it; `word` is the word so far, last code
point first. -/
def wordsAfter (word : Text) : Text → List Text
  | [] => [word.reverse]
  | c :: rest =>
    let wordEnds := match word with
      | d :: _ => d.isBlank && !c.isBlank
      | [] => false
    if wordEnds then word.reverse :: wordsAfter [c] rest else wordsAfter (c :: word) rest

/-- The words of a line, the first with the blanks before it. Blanks alone are no word. -/
def words (line : Text) : List Text :=
  let blanks := line.takeWhile (·.isBlank)
  match line.dropWhile (·.isBlank) with
  | [] => []
  | c :: rest =>
    match wordsAfter [c] rest with
    | [] => []
    | first :: others => (blanks ++ first) :: others

/-- Glyphs in pieces that fit the width; `piece` is the piece so far, last glyph first, of `size`
cells. -/
def chopAfter (width : Nat) (piece : List Glyph) (size : Nat) : List Glyph → List Text
  | [] => if size = 0 then [] else [Glyph.toText piece.reverse]
  | g :: rest =>
    if width < size + g.cells then
      Glyph.toText piece.reverse :: chopAfter width [g] g.cells rest
    else chopAfter width (g :: piece) (size + g.cells) rest

/-- A word in pieces that fit the width. -/
def chop (width : Nat) (word : Text) : List Text := chopAfter width [] 0 (Glyph.ofText word)

/-- Where the pieces of a word begin; the place where the line begins is no break. -/
def pieceStarts (start : Nat) : List Text → List Nat
  | [] => []
  | piece :: rest => (if start = 0 then [] else [start]) ++ pieceStarts (start + piece.length) rest

/-- Where words that begin at `start`, after `filled` cells of the current line, have to be
broken. -/
def breaks (width : Nat) (start filled : Nat) : List Text → List Nat
  | [] => []
  | word :: rest =>
    let size := Text.cells (word.trimEnd CodePoint.isBlank)
    let next := start + word.length
    if filled + size ≤ width then breaks width next (filled + Text.cells word) rest
    else if width < size then
      let pieces := chop width word
      pieceStarts start pieces ++
        breaks width next ((pieces.getLast?.map Text.cells).getD filled) rest
    else if filled = 0 ∨ start = 0 then breaks width next filled rest
    else start :: breaks width next (Text.cells word) rest

/-- A line cut at places given in ascending order. -/
def cutAt (start : Nat) (line : Text) : List Nat → List Text
  | [] => [line]
  | place :: rest => line.take (place - start) :: cutAt place (line.drop (place - start)) rest

/-- A line without the blanks at its end that are past the width. -/
def dropExcess (width : Nat) (line : Text) : Text :=
  let blanks := (line.reverse.takeWhile (·.isBlank)).length
  line.take (line.length - min blanks (line.length - width))

/-- The first glyphs that fit the width; a space stands for the first half of a wide one. -/
def fitting (width : Nat) : List Glyph → Text
  | [] => []
  | g :: rest =>
    if g.cells ≤ width then g.text ++ fitting (width - g.cells) rest
    else spaces width

/-- As much of a line as fits the width. -/
def crop (width : Nat) (line : Text) : Text :=
  if Text.cells line ≤ width then line else fitting width (Glyph.ofText line)

/-- The lines of a width that a line is broken into. -/
def wrapLine (width : Nat) (line : Text) : List Text :=
  let line := expandTabs line
  (cutAt 0 line (breaks width 0 0 (words line))).map fun part => crop width (dropExcess width part)

/-- The lines of a width that a text is broken into. -/
def wrap (width : Nat) (t : Text) : List Text := (Text.split '\n' t).flatMap (wrapLine width)

end SchemaPlugin.Console
