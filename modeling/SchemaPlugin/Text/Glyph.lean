import SchemaPlugin.Text.Cells

/-!
Texts in glyphs. A code point with a width of its own begins a glyph; marks after it belong to it,
and so does what a joiner joins to it. A selector after a symbol makes it an emoji, which is wide.
-/

namespace SchemaPlugin

namespace CodePoint

/-- The joiner of width zero. -/
def joiner : CodePoint := ofNat 0x200D

/-- The sixteenth variation selector, which asks for the form of an emoji. -/
def emojiSelector : CodePoint := ofNat 0xFE0F

/-- The ranges of narrow code points that have a wide form as emoji, in ascending order. -/
def emojiFormRanges : List (Nat × Nat) := [
    (0x23, 0x23), (0x2A, 0x2A), (0x30, 0x39), (0xA9, 0xA9), (0xAE, 0xAE), (0x203C, 0x203C),
    (0x2049, 0x2049), (0x2122, 0x2122), (0x2139, 0x2139), (0x2194, 0x2199), (0x21A9, 0x21AA),
    (0x2328, 0x2328), (0x23CF, 0x23CF), (0x23ED, 0x23EF), (0x23F1, 0x23F2), (0x23F8, 0x23FA),
    (0x24C2, 0x24C2), (0x25AA, 0x25AB), (0x25B6, 0x25B6), (0x25C0, 0x25C0), (0x25FB, 0x25FC),
    (0x2600, 0x2604), (0x260E, 0x260E), (0x2611, 0x2611), (0x2618, 0x2618), (0x261D, 0x261D),
    (0x2620, 0x2620), (0x2622, 0x2623), (0x2626, 0x2626), (0x262A, 0x262A), (0x262E, 0x262F),
    (0x2638, 0x263A), (0x2640, 0x2640), (0x2642, 0x2642), (0x265F, 0x2660), (0x2663, 0x2663),
    (0x2665, 0x2666), (0x2668, 0x2668), (0x267B, 0x267B), (0x267E, 0x267E), (0x2692, 0x2692),
    (0x2694, 0x2697), (0x2699, 0x2699), (0x269B, 0x269C), (0x26A0, 0x26A0), (0x26A7, 0x26A7),
    (0x26B0, 0x26B1), (0x26C8, 0x26C8), (0x26CF, 0x26CF), (0x26D1, 0x26D1), (0x26D3, 0x26D3),
    (0x26E9, 0x26E9), (0x26F0, 0x26F1), (0x26F4, 0x26F4), (0x26F7, 0x26F9), (0x2702, 0x2702),
    (0x2708, 0x2709), (0x270C, 0x270D), (0x270F, 0x270F), (0x2712, 0x2712), (0x2714, 0x2714),
    (0x2716, 0x2716), (0x271D, 0x271D), (0x2721, 0x2721), (0x2733, 0x2734), (0x2744, 0x2744),
    (0x2747, 0x2747), (0x2763, 0x2764), (0x27A1, 0x27A1), (0x2934, 0x2935), (0x2B05, 0x2B07),
    (0x1F170, 0x1F171), (0x1F17E, 0x1F17F), (0x1F321, 0x1F321), (0x1F324, 0x1F32C),
    (0x1F336, 0x1F336), (0x1F37D, 0x1F37D), (0x1F396, 0x1F397), (0x1F399, 0x1F39B),
    (0x1F39E, 0x1F39F), (0x1F3CB, 0x1F3CE), (0x1F3D4, 0x1F3DF), (0x1F3F3, 0x1F3F3),
    (0x1F3F5, 0x1F3F5), (0x1F3F7, 0x1F3F7), (0x1F43F, 0x1F43F), (0x1F441, 0x1F441),
    (0x1F4FD, 0x1F4FD), (0x1F549, 0x1F54A), (0x1F56F, 0x1F570), (0x1F573, 0x1F579),
    (0x1F587, 0x1F587), (0x1F58A, 0x1F58D), (0x1F590, 0x1F590), (0x1F5A5, 0x1F5A5),
    (0x1F5A8, 0x1F5A8), (0x1F5B1, 0x1F5B2), (0x1F5BC, 0x1F5BC), (0x1F5C2, 0x1F5C4),
    (0x1F5D1, 0x1F5D3), (0x1F5DC, 0x1F5DE), (0x1F5E1, 0x1F5E1), (0x1F5E3, 0x1F5E3),
    (0x1F5E8, 0x1F5E8), (0x1F5EF, 0x1F5EF), (0x1F5F3, 0x1F5F3), (0x1F5FA, 0x1F5FA),
    (0x1F6CB, 0x1F6CB), (0x1F6CD, 0x1F6CF), (0x1F6E0, 0x1F6E5), (0x1F6E9, 0x1F6E9),
    (0x1F6F0, 0x1F6F0), (0x1F6F3, 0x1F6F3)]

end CodePoint

/-- Code points that show together, and the cells that they take. -/
structure Glyph where
  text : Text
  cells : Nat

namespace Glyph

/-- The glyph with code points that belong to it. -/
def add (g : Glyph) (t : Text) : Glyph := { g with text := g.text ++ t }

/-- The glyphs from one on; `base` is the code point that a selector can still make wide. -/
def ofTextAfter (g : Glyph) (base : Option CodePoint) : Text → List Glyph
  | [] => [g]
  | c :: rest =>
    if c = .joiner then
      match rest with
      | [] => [g.add [c]]
      | d :: rest => ofTextAfter (g.add [c, d]) base rest
    else if c = .emojiSelector ∧ base.any (·.isIn CodePoint.emojiFormRanges) then
      ofTextAfter ⟨g.text ++ [c], g.cells + 1⟩ none rest
    else if c.cells = 0 then ofTextAfter (g.add [c]) base rest
    else g :: ofTextAfter ⟨[c], c.cells⟩ (some c) rest

/-- The glyphs of a text. What has no width of its own at the beginning is a glyph without cells. -/
def ofText : Text → List Glyph
  | [] => []
  | c :: rest => ofTextAfter ⟨[c], c.cells⟩ (if c.cells = 0 then none else some c) rest

def toText (glyphs : List Glyph) : Text := glyphs.flatMap Glyph.text

def totalCells (glyphs : List Glyph) : Nat := glyphs.foldl (fun n g => n + g.cells) 0

end Glyph

/-- How many cells a text takes after another. A joiner at its beginning joins to that one. -/
def Text.cells (t : Text) : Nat := Glyph.totalCells (Glyph.ofTextAfter ⟨[], 0⟩ none t)

end SchemaPlugin
