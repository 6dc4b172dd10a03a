import SchemaPlugin.Text

/-!
Control sequences of a terminal: an escape and a bracket, parameters, intermediates and a final one,
each of a range of its own. They are for a terminal only; a text that goes elsewhere is written
without them.
-/

namespace SchemaPlugin

namespace CodePoint

/-- The code point that a sequence begins with. -/
def escape : CodePoint := ofNat 0x1B

/-- The digits and `:` to `?`. -/
def isSequenceParameter (c : CodePoint) : Bool := 0x30 ≤ c.val && c.val ≤ 0x3F

/-- The space and `!` to `/`. -/
def isSequenceIntermediate (c : CodePoint) : Bool := 0x20 ≤ c.val && c.val ≤ 0x2F

/-- The letters and what else is in `@` to `~`. -/
def isSequenceFinal (c : CodePoint) : Bool := 0x40 ≤ c.val && c.val ≤ 0x7E

end CodePoint

namespace Text

/-- What follows the final code point of a sequence, from its parameters on. -/
def afterFinal? (t : Text) : Option Text :=
  match (t.dropWhile CodePoint.isSequenceParameter).dropWhile CodePoint.isSequenceIntermediate with
  | [] => none
  | c :: rest => if c.isSequenceFinal then some rest else none

/-- What follows a sequence, if the text begins with one. -/
def afterSequence? : Text → Option Text
  | c :: d :: rest => if c = .escape ∧ d = '[' then afterFinal? rest else none
  | _ => none

theorem length_lt_of_afterFinal? {t rest : Text} (h : afterFinal? t = some rest) :
    rest.length < t.length := by
  have shorter := ((List.dropWhile_suffix CodePoint.isSequenceIntermediate).trans
    (List.dropWhile_suffix CodePoint.isSequenceParameter (l := t))).length_le
  unfold afterFinal? at h
  split at h
  · simp at h
  · rename_i c after reached
    rw [reached, List.length_cons] at shorter
    split at h
    · rw [← Option.some.inj h]
      exact shorter
    · simp at h

theorem length_lt_of_afterSequence? {t rest : Text} (h : afterSequence? t = some rest) :
    rest.length < t.length := by
  unfold afterSequence? at h
  split at h
  · split at h
    · have := length_lt_of_afterFinal? h
      simp only [List.length_cons]
      omega
    · simp at h
  · simp at h

/-- The text without the sequences in it. -/
def withoutSequences (t : Text) : Text :=
  match _h : afterSequence? t with
  | some rest => withoutSequences rest
  | none =>
    match t with
    | [] => []
    | c :: rest => c :: withoutSequences rest
termination_by t.length
decreasing_by
  · exact length_lt_of_afterSequence? _h
  · simp

end Text

end SchemaPlugin
