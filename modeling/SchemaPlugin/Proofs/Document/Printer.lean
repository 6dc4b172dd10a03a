import SchemaPlugin.Document.Printer
import SchemaPlugin.Proofs.Text.Encodable

/-!
Printed documents have no surrogates, whatever texts are in them: those of a text are escaped.
-/

namespace SchemaPlugin

open Text

namespace Double

theorem encodable_digits (m : Nat) (e : Int) : (digits m e).1.Encodable := by
  unfold digits
  split_ifs
  · simp
  · refine fun c hc => encodable_ofNat (search m e 1 17).1 c ?_
    exact List.mem_reverse.1 ((List.dropWhile_sublist _).subset (List.mem_reverse.1 hc))

theorem encodable_layout {digits : Text} (h : digits.Encodable) (point : Int) :
    (layout digits point).Encodable := by
  have taken (n : Nat) : Encodable (digits.take n) := fun c hc => h c (List.mem_of_mem_take hc)
  have dropped (n : Nat) : Encodable (digits.drop n) := fun c hc => h c (List.mem_of_mem_drop hc)
  have tail : Encodable digits.tail := fun c hc => h c (List.mem_of_mem_tail hc)
  have exponent : (exponentText (point - 1)).Encodable := by
    unfold exponentText
    split_ifs <;> simp [zeros]
  unfold layout
  dsimp only
  split_ifs
  · simp [taken, exponent]
  · simp [taken, tail, exponent]
  · simp [zeros, h]
  · simp [taken, zeros]
  · simp [taken, dropped, zeros]

theorem encodable_text (x : Double) : x.text.Encodable := by
  cases x with
  | nan => simp [text]
  | infinite negative => cases negative <;> simp [text]
  | finite negative m e =>
    have layout := encodable_layout (encodable_digits m e) (digits m e).2
    cases negative <;> simp [text, layout]

end Double

namespace Document

theorem encodable_escaped (c : CodePoint) : (escaped c).Encodable := by
  unfold escaped
  cases letterEscapes.find? fun e => CodePoint.ofChar e.2 = c with
  | some e => split_ifs with slash <;> simp [slash]
  | none =>
    split_ifs with slash plain
    · simp [slash]
    · have : ¬0xD800 ≤ c.val := by omega
      simp [CodePoint.isSurrogate, this]
    · simp [unitEscape]
    · simp [unitEscape]

@[simp] theorem encodable_printString (t : Text) : (printString t).Encodable := by
  simp [printString, encodable_flatMap fun c _ => encodable_escaped c]

@[simp] theorem encodable_lineBreak (indent : Option Int) (level : Nat) :
    (lineBreak indent level).Encodable := by
  cases indent <;> simp [lineBreak]

@[simp] theorem encodable_separator (indent : Option Int) (level : Nat) :
    (separator indent level).Encodable := by
  cases indent <;> simp [separator]

mutual

theorem encodable_printAt (indent : Option Int) (level : Nat) :
    ∀ d, (printAt indent level d).Encodable
  | null => by simp [printAt]
  | bool b => by cases b <;> simp [printAt]
  | int n => by simp [printAt]
  | double .nan => by simp [printAt, printDouble]
  | double (.infinite negative) => by cases negative <;> simp [printAt, printDouble]
  | double (.finite negative m e) => by
    simp [printAt, printDouble, Double.encodable_text]
  | string t => by simp [printAt]
  | array [] => by simp [printAt]
  | array (d :: rest) => by
    simp [printAt, encodable_printAt indent (level + 1) d,
      encodable_printItems indent (level + 1) rest]
  | object [] => by simp [printAt]
  | object ((key, d) :: rest) => by
    simp [printAt, encodable_printAt indent (level + 1) d,
      encodable_printMembers indent (level + 1) rest]

theorem encodable_printItems (indent : Option Int) (level : Nat) :
    ∀ items, (printItems indent level items).Encodable
  | [] => by simp [printItems]
  | d :: rest => by
    simp [printItems, encodable_printAt indent level d, encodable_printItems indent level rest]

theorem encodable_printMembers (indent : Option Int) (level : Nat) :
    ∀ members, (printMembers indent level members).Encodable
  | [] => by simp [printMembers]
  | (key, d) :: rest => by
    simp [printMembers, encodable_printAt indent level d,
      encodable_printMembers indent level rest]

end

end Document

end SchemaPlugin
