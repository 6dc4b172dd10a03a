import SchemaPlugin.CommandLine.Execution
import SchemaPlugin.Proofs.Document.Fuel

/-!
Line ends in JSON. A file is read with one code point for the end of each line. No string of a
document has a line end in it, and everywhere else all line ends are space, so that what is read from
such a text is read from the file as it stands.
-/

namespace SchemaPlugin

open CommandLine (unifyLineEnds unifyLineEndsAfter)

/-- A line feed or a carriage return. -/
def CodePoint.EndsLine (c : CodePoint) : Prop := c = '\n' ∨ c = '\r'

instance : DecidablePred CodePoint.EndsLine := fun _ => inferInstanceAs (Decidable (_ ∨ _))

variable {c : CodePoint} {t rest : Text}

theorem unifyLineEnds_cons (h : ¬c.EndsLine) (rest : Text) :
    unifyLineEnds (c :: rest) = c :: unifyLineEnds rest := by
  obtain ⟨feed, ret⟩ := not_or.1 h
  simp [unifyLineEnds, unifyLineEndsAfter, feed, ret]

theorem exists_unifyLineEnds_cons (h : c.EndsLine) (rest : Text) :
    ∃ u, unifyLineEnds (c :: rest) = CodePoint.ofChar '\n' :: u := by
  rcases h with rfl | rfl
  · exact ⟨_, rfl⟩
  · exact ⟨_, rfl⟩

/-- A text goes on in the same way if its first code point is not that of a line end. -/
theorem unifyLineEnds_cases (t : Text) :
    t = [] ∨ (∃ c rest, t = c :: rest ∧ ¬c.EndsLine ∧
      unifyLineEnds t = c :: unifyLineEnds rest) ∨
      ∃ c rest u, t = c :: rest ∧ c.EndsLine ∧ unifyLineEnds t = CodePoint.ofChar '\n' :: u := by
  cases t with
  | nil => exact .inl rfl
  | cons c rest =>
    by_cases ends : c.EndsLine
    · obtain ⟨u, eq⟩ := exists_unifyLineEnds_cons ends rest
      exact .inr (.inr ⟨c, rest, u, rfl, ends, eq⟩)
    · exact .inr (.inl ⟨c, rest, rfl, ends, unifyLineEnds_cons ends rest⟩)

theorem unifyLineEnds_eq_nil_iff : unifyLineEnds t = [] ↔ t = [] := by
  rcases unifyLineEnds_cases t with rfl | ⟨c, rest, rfl, -, eq⟩ | ⟨c, rest, u, rfl, -, eq⟩
  · exact Iff.rfl
  · simp [eq]
  · simp [eq]

namespace Text

theorem dropPrefix?_unifyLineEnds (head : Text) (within : ∀ c ∈ head, ¬c.EndsLine) (t : Text) :
    dropPrefix? head (unifyLineEnds t) = (dropPrefix? head t).map unifyLineEnds := by
  induction head generalizing t with
  | nil => rfl
  | cons a head ih =>
    obtain ⟨first, others⟩ := List.forall_mem_cons.1 within
    rcases unifyLineEnds_cases t with rfl | ⟨c, rest, rfl, -, eq⟩ | ⟨c, rest, u, rfl, ends, eq⟩
    · rfl
    · rw [eq, dropPrefix?, dropPrefix?]
      split_ifs with same
      · exact ih others rest
      · rfl
    · have other : a ≠ c := fun same => first (same ▸ ends)
      have other' : a ≠ CodePoint.ofChar '\n' := fun same => first (.inl same)
      rw [eq, dropPrefix?, dropPrefix?, if_neg other, if_neg other']
      rfl

section While

variable {p : CodePoint → Bool} (within : ∀ c, c.EndsLine → p c = false)
include within

theorem takeWhile_unifyLineEnds (t : Text) : (unifyLineEnds t).takeWhile p = t.takeWhile p := by
  induction t with
  | nil => rfl
  | cons c rest ih =>
    by_cases ends : c.EndsLine
    · obtain ⟨u, eq⟩ := exists_unifyLineEnds_cons ends rest
      rw [eq, List.takeWhile_cons_of_neg (by simp [within _ (.inl rfl)]),
        List.takeWhile_cons_of_neg (by simp [within c ends])]
    · rw [unifyLineEnds_cons ends, List.takeWhile_cons, List.takeWhile_cons, ih]

theorem dropWhile_unifyLineEnds (t : Text) :
    (unifyLineEnds t).dropWhile p = unifyLineEnds (t.dropWhile p) := by
  induction t with
  | nil => rfl
  | cons c rest ih =>
    by_cases ends : c.EndsLine
    · obtain ⟨u, eq⟩ := exists_unifyLineEnds_cons ends rest
      rw [eq, List.dropWhile_cons_of_neg (by simp [within _ (.inl rfl)]),
        List.dropWhile_cons_of_neg (by simp [within c ends]), eq]
    · rw [unifyLineEnds_cons ends, List.dropWhile_cons, List.dropWhile_cons]
      split_ifs
      · exact ih
      · rw [unifyLineEnds_cons ends]

end While

end Text

namespace Document

open Text (dropPrefix?_unifyLineEnds)

/-- What was read, and what follows it with unified line ends. -/
def unified {α : Type} (p : α × Text) : α × Text := (p.1, unifyLineEnds p.2)

theorem skipSpace_unifyLineEndsAfter (afterReturn : Bool) (t : Text) :
    skipSpace (unifyLineEndsAfter afterReturn t) = unifyLineEnds (skipSpace t) := by
  induction t generalizing afterReturn with
  | nil => rfl
  | cons c rest ih =>
    rw [unifyLineEndsAfter]
    split_ifs with ret feed
    · subst ret
      exact ih true
    · obtain ⟨rfl, -⟩ := feed
      exact ih false
    · cases space : isSpace c with
      | true =>
        rw [skipSpace, skipSpace, List.dropWhile_cons_of_pos space,
          List.dropWhile_cons_of_pos space]
        exact ih false
      | false =>
        have within : ¬c.EndsLine := by
          rintro (rfl | rfl) <;> cases space
        rw [skipSpace, skipSpace, List.dropWhile_cons_of_neg (by simp [space]),
          List.dropWhile_cons_of_neg (by simp [space]), unifyLineEnds_cons within]
        rfl

theorem skipSpace_unifyLineEnds (t : Text) :
    skipSpace (unifyLineEnds t) = unifyLineEnds (skipSpace t) :=
  skipSpace_unifyLineEndsAfter false t

section Number

theorem isDigit_of_endsLine (c : CodePoint) (h : c.EndsLine) : c.isDigit = false := by
  rcases h with rfl | rfl <;> rfl

theorem digits?_unifyLineEnds (t : Text) :
    digits? (unifyLineEnds t) = (digits? t).map unified := by
  have digits := Text.takeWhile_unifyLineEnds isDigit_of_endsLine t
  have after := Text.dropWhile_unifyLineEnds isDigit_of_endsLine t
  simp only [digits?, digits, after]
  cases t.takeWhile (·.isDigit) <;> rfl

theorem wholeDigits?_unifyLineEnds (t : Text) :
    wholeDigits? (unifyLineEnds t) = (wholeDigits? t).map unified := by
  rw [wholeDigits?, wholeDigits?, dropPrefix?_unifyLineEnds _ (by decide)]
  cases Text.dropPrefix? "0" t with
  | none => exact digits?_unifyLineEnds t
  | some rest => rfl

theorem fraction?_unifyLineEnds (t : Text) :
    fraction? (unifyLineEnds t) = (fraction? t).map unified := by
  rw [fraction?, fraction?, dropPrefix?_unifyLineEnds _ (by decide)]
  cases Text.dropPrefix? "." t with
  | none => rfl
  | some rest => exact digits?_unifyLineEnds rest

theorem getD_dropPrefix?_unifyLineEnds (head : Text) (within : ∀ c ∈ head, ¬c.EndsLine) (t : Text) :
    (Text.dropPrefix? head (unifyLineEnds t)).getD (unifyLineEnds t) =
      unifyLineEnds ((Text.dropPrefix? head t).getD t) := by
  rw [dropPrefix?_unifyLineEnds head within]
  cases Text.dropPrefix? head t <;> rfl

theorem exponent?_unifyLineEnds (t : Text) :
    exponent? (unifyLineEnds t) = (exponent? t).map unified := by
  rw [exponent?, exponent?, dropPrefix?_unifyLineEnds _ (by decide),
    dropPrefix?_unifyLineEnds _ (by decide), ← Option.map_or]
  cases (Text.dropPrefix? "e" t).or (Text.dropPrefix? "E" t) with
  | none => rfl
  | some t =>
    simp only [Option.map_some, Option.bind_eq_bind, Option.bind_some]
    rw [getD_dropPrefix?_unifyLineEnds _ (by decide), dropPrefix?_unifyLineEnds _ (by decide),
      digits?_unifyLineEnds]
    cases Text.dropPrefix? "-" t with
    | none => cases digits? ((Text.dropPrefix? "+" t).getD t) <;> rfl
    | some rest =>
      simp only [Option.map_some, digits?_unifyLineEnds]
      cases digits? rest <;> rfl

/-- A part of a number that may be there leaves the same, or everything. -/
theorem part_unifyLineEnds {α : Type} {part : Text → Option (α × Text)}
    (h : ∀ t, part (unifyLineEnds t) = (part t).map unified) (t : Text) :
    ((part (unifyLineEnds t)).map fun (a, rest) => (some a, rest)).getD (none, unifyLineEnds t) =
      unified (((part t).map fun (a, rest) => (some a, rest)).getD (none, t)) := by
  rw [h]
  cases part t <;> rfl

theorem number?_unifyLineEnds (t : Text) :
    number? (unifyLineEnds t) = (number? t).map unified := by
  rw [number?, number?, getD_dropPrefix?_unifyLineEnds _ (by decide), wholeDigits?_unifyLineEnds,
    dropPrefix?_unifyLineEnds _ (by decide), Option.isSome_map]
  cases wholeDigits? ((Text.dropPrefix? "-" t).getD t) with
  | none => rfl
  | some p =>
    obtain ⟨whole, rest⟩ := p
    simp only [Option.map_some, Option.bind_eq_bind, Option.bind_some, unified]
    rw [part_unifyLineEnds fraction?_unifyLineEnds]
    simp only [unified]
    rw [part_unifyLineEnds exponent?_unifyLineEnds]
    simp only [unified]
    split <;> rfl

theorem constant?_unifyLineEnds (t : Text) :
    constant? (unifyLineEnds t) = (constant? t).map unified := by
  have within : ∀ w ∈ constants, ∀ c ∈ w.1, ¬c.EndsLine := by decide
  unfold constant?
  generalize constants = words at within ⊢
  induction words with
  | nil => rfl
  | cons w words ih =>
    obtain ⟨w, d⟩ := w
    obtain ⟨first, others⟩ := List.forall_mem_cons.1 within
    rw [List.findSome?_cons, List.findSome?_cons]
    simp only [dropPrefix?_unifyLineEnds w first]
    cases Text.dropPrefix? w t with
    | none => exact ih others
    | some rest => rfl

end Number

section String

theorem hexValue?_of_endsLine (c : CodePoint) (h : c.EndsLine) : c.hexValue? = none := by
  rcases h with rfl | rfl <;> rfl

theorem unit?_eq_none_of_length {digits : Text} (few : digits.length < 5) : unit? digits = none := by
  match digits, few with
  | [], _ => rfl
  | [_], _ => rfl
  | [_, _], _ => rfl
  | [_, _, _], _ => rfl
  | [_, _, _, _], _ => rfl
  | _ :: _ :: _ :: _ :: _ :: _, few =>
    simp only [List.length_cons] at few
    omega

/-- Without a hexadecimal digit among the first four code points there is no unit. -/
theorem unit?_eq_none {digits : Text} (few : digits.length < 4) (h : c.hexValue? = none)
    (rest : Text) : unit? (digits ++ c :: rest) = none := by
  rcases digits with _ | ⟨a, _ | ⟨b, _ | ⟨d, _ | ⟨e, digits⟩⟩⟩⟩
  · rcases rest with _ | ⟨b, _ | ⟨d, _ | ⟨e, _ | ⟨f, rest⟩⟩⟩⟩ <;> simp [unit?, h]
  · rcases rest with _ | ⟨d, _ | ⟨e, _ | ⟨f, rest⟩⟩⟩ <;> simp [unit?, h]
  · rcases rest with _ | ⟨e, _ | ⟨f, rest⟩⟩ <;> simp [unit?, h]
  · rcases rest with _ | ⟨f, rest⟩ <;> simp [unit?, h]
  · simp only [List.length_cons] at few
    omega

/-- When so many digits have been seen, the rest of a unit is read with either line ends. -/
theorem unit?_append_unifyLineEnds (t digits : Text) (few : digits.length ≤ 4) :
    unit? (digits ++ unifyLineEnds t) = (unit? (digits ++ t)).map unified := by
  induction left : 4 - digits.length generalizing digits t with
  | zero =>
    obtain ⟨a, b, c, d, rfl⟩ : ∃ a b c d, digits = [a, b, c, d] :=
      List.length_eq_four.1 (by omega)
    -- What follows the digits counts only as it is there.
    have unit (e : CodePoint) (rest : Text) : unit? ([a, b, c, d] ++ e :: rest) =
        ((unit? [a, b, c, d, a]).map Prod.fst).map fun n => (n, e :: rest) := by
      simp only [unit?, List.cons_append, List.nil_append]
      cases a.hexValue? <;> cases b.hexValue? <;> cases c.hexValue? <;> cases d.hexValue? <;> rfl
    rcases unifyLineEnds_cases t with rfl | ⟨e, rest, rfl, -, eq⟩ | ⟨e, rest, u, rfl, -, eq⟩
    · rfl
    all_goals
      rw [eq, unit, unit, ← eq]
      cases Option.map Prod.fst (unit? [a, b, c, d, a]) <;> rfl
  | succ n ih =>
    rcases unifyLineEnds_cases t with rfl | ⟨c, rest, rfl, -, eq⟩ | ⟨c, rest, u, rfl, ends, eq⟩
    · have short : unit? digits = none := unit?_eq_none_of_length (by omega)
      rw [unifyLineEnds, unifyLineEndsAfter, List.append_nil, short]
      rfl
    · have next := ih rest (digits ++ [c]) (by simp; omega) (by simp; omega)
      rw [eq]
      simpa using next
    · rw [eq, unit?_eq_none (by omega) (hexValue?_of_endsLine _ (.inl rfl)),
        unit?_eq_none (by omega) (hexValue?_of_endsLine c ends)]
      rfl

theorem unit?_unifyLineEnds (t : Text) : unit? (unifyLineEnds t) = (unit? t).map unified :=
  unit?_append_unifyLineEnds t [] (Nat.zero_le 4)

theorem escapedUnit?_unifyLineEnds (t : Text) :
    escapedUnit? (unifyLineEnds t) = (escapedUnit? t).map unified := by
  rw [escapedUnit?, escapedUnit?, dropPrefix?_unifyLineEnds _ (by decide)]
  cases Text.dropPrefix? "\\u" t with
  | none => rfl
  | some digits => exact unit?_unifyLineEnds digits

theorem joinUnits_unifyLineEnds (first : CodePoint) (t : Text) :
    joinUnits first (unifyLineEnds t) = unified (joinUnits first t) := by
  rw [joinUnits_eq, joinUnits_eq, escapedUnit?_unifyLineEnds]
  cases escapedUnit? t with
  | none => rfl
  | some p =>
    by_cases pair : CodePoint.Pair first p.1 <;> simp [unified, pair]

end String

/-- Two readings fail both, or give the same, the first one with unified line ends after it. -/
inductive SameLines {α : Type} : Parse (α × Text) → Parse (α × Text) → Prop
  | ok (a : α) (rest : Text) : SameLines (.ok (a, unifyLineEnds rest)) (.ok (a, rest))
  | error (fault fault' : Fault) : SameLines (.error fault) (.error fault')

namespace SameLines

variable {α β : Type} {x y : Parse (α × Text)} {f g : α × Text → Parse (β × Text)}

theorem bind (h : SameLines x y)
    (each : ∀ a rest, SameLines (f (a, unifyLineEnds rest)) (g (a, rest))) :
    SameLines (x >>= f) (y >>= g) := by
  cases h with
  | ok a rest => exact each a rest
  | error fault fault' => exact .error fault fault'

theorem bind_eq_ok_iff {f g : α × Text → Parse β} {b : β} (h : SameLines x y)
    (each : ∀ a rest, f (a, unifyLineEnds rest) = .ok b ↔ g (a, rest) = .ok b) :
    (x >>= f) = .ok b ↔ (y >>= g) = .ok b := by
  cases h with
  | ok a rest => exact each a rest
  | error fault fault' => exact ⟨nofun, nofun⟩

end SameLines

section StringRest

theorem sameLines_escape (opening opening' : Nat) (t : Text) :
    SameLines (escape opening (unifyLineEnds t)) (escape opening' t) := by
  rcases unifyLineEnds_cases t with rfl | ⟨c, rest, rfl, -, eq⟩ | ⟨c, rest, v, rfl, ends, eq⟩
  · exact .error _ _
  · rw [eq, escape, escape]
    split_ifs with unit
    · rw [unit?_unifyLineEnds]
      cases unit? rest with
      | none => exact .error _ _
      | some p =>
        have joined := joinUnits_unifyLineEnds p.1 p.2
        simp only [Option.map_some, unified, joined]
        exact .ok _ _
    · cases letterEscapes.find? fun e => CodePoint.ofChar e.1 = c with
      | none => exact .error _ _
      | some e => exact .ok _ _
  · rw [eq]
    rcases ends with rfl | rfl <;> exact .error _ _

theorem sameLines_stringRest (opening opening' : Nat) (t : Text) :
    SameLines (stringRest opening (unifyLineEnds t)) (stringRest opening' t) := by
  induction hn : t.length using Nat.strongRecOn generalizing t with
  | _ n ih =>
    have tail (c : CodePoint) {rest : Text} (shorter : rest.length < t.length) :
        SameLines (prepend c (stringRest opening (unifyLineEnds rest)))
          (prepend c (stringRest opening' rest)) :=
      (ih rest.length (hn ▸ shorter) rest rfl).bind fun s rest => .ok (c :: s) rest
    rcases unifyLineEnds_cases t with rfl | ⟨c, t, rfl, -, eq⟩ | ⟨c, t, v, rfl, ends, eq⟩
    · rw [unifyLineEnds, unifyLineEndsAfter, stringRest, stringRest]
      exact .error _ _
    · rw [eq]
      by_cases quote : c = CodePoint.ofChar '"'
      · rw [stringRest, stringRest, if_pos quote, if_pos quote]
        exact .ok _ _
      by_cases control : c.val < 0x20
      · rw [stringRest, stringRest, if_neg quote, if_neg quote, if_pos control, if_pos control]
        exact .error _ _
      by_cases backslash : c = CodePoint.ofChar '\\'
      · subst backslash
        have escapes := sameLines_escape opening opening' t
        generalize read : escape opening (unifyLineEnds t) = x at escapes
        generalize read' : escape opening' t = y at escapes
        cases escapes with
        | ok d after =>
          rw [stringRest_escape read, stringRest_escape read']
          exact tail d (Nat.lt_succ_of_lt (length_lt_of_escape read'))
        | error fault fault' =>
          rw [stringRest_escape_error read, stringRest_escape_error read']
          exact .error _ _
      · rw [stringRest_plain quote (by omega) backslash,
          stringRest_plain quote (by omega) backslash]
        exact tail c (Nat.lt_succ_self _)
    · have control : c ≠ CodePoint.ofChar '"' ∧ c.val < 0x20 := by
        rcases ends with rfl | rfl <;> decide
      rw [eq, stringRest, stringRest, if_neg (by decide), if_neg control.1, if_pos (by decide),
        if_pos control.2]
      exact .error _ _

end StringRest

section Value

/-- With so much fuel, a text is read as it is with unified line ends. -/
structure ReadsLines (fuel : Nat) : Prop where
  value : ∀ t, SameLines (Document.value fuel (unifyLineEnds t)) (Document.value fuel t)
  items : ∀ t, SameLines (Document.items fuel (unifyLineEnds t)) (Document.items fuel t)
  members : ∀ t, SameLines (Document.members fuel (unifyLineEnds t)) (Document.members fuel t)

namespace ReadsLines

variable {fuel : Nat}

theorem value_succ (reads : ReadsLines fuel) (t : Text) :
    SameLines (Document.value (fuel + 1) (unifyLineEnds t)) (Document.value (fuel + 1) t) := by
  rcases unifyLineEnds_cases t with rfl | ⟨c, t, rfl, -, eq⟩ | ⟨c, t, v, rfl, ends, eq⟩
  · exact .error _ _
  · have single := congrArg₂ Option.or (constant?_unifyLineEnds (c :: t))
      (number?_unifyLineEnds (c :: t))
    rw [← Option.map_or, eq] at single
    rw [eq, Document.value, Document.value]
    split_ifs with quote bracket brace
    · exact (sameLines_stringRest _ _ t).bind fun s rest => .ok (string s) rest
    · rw [skipSpace_unifyLineEnds, dropPrefix?_unifyLineEnds _ (by decide)]
      cases Text.dropPrefix? "]" (skipSpace t) with
      | some rest => exact .ok _ rest
      | none => exact (reads.items _).bind fun ds rest => .ok (array ds) rest
    · rw [skipSpace_unifyLineEnds, dropPrefix?_unifyLineEnds _ (by decide)]
      cases Text.dropPrefix? "\x7d" (skipSpace t) with
      | some rest => exact .ok _ rest
      | none => exact (reads.members _).bind fun ms rest => .ok (ofMembers ms) rest
    · rw [single]
      cases (constant? (c :: t)).or (number? (c :: t)) with
      | none => exact .error _ _
      | some p => exact .ok p.1 p.2
  · rw [eq]
    rcases ends with rfl | rfl <;> exact .error _ _

theorem items_succ (reads : ReadsLines fuel) (t : Text) :
    SameLines (Document.items (fuel + 1) (unifyLineEnds t)) (Document.items (fuel + 1) t) := by
  rw [Document.items, Document.items]
  refine (reads.value t).bind fun d rest => ?_
  simp only [skipSpace_unifyLineEnds, dropPrefix?_unifyLineEnds "]" (by decide),
    dropPrefix?_unifyLineEnds "," (by decide)]
  cases Text.dropPrefix? "]" (skipSpace rest) with
  | some rest => exact .ok [d] rest
  | none =>
    cases Text.dropPrefix? "," (skipSpace rest) with
    | none => exact .error _ _
    | some rest =>
      simp only [Option.map_none, Option.map_some, skipSpace_unifyLineEnds]
      exact (reads.items _).bind fun ds rest => .ok (d :: ds) rest

theorem members_succ (reads : ReadsLines fuel) (t : Text) :
    SameLines (Document.members (fuel + 1) (unifyLineEnds t)) (Document.members (fuel + 1) t) := by
  rw [Document.members, Document.members, dropPrefix?_unifyLineEnds _ (by decide)]
  cases Text.dropPrefix? "\"" t with
  | none => exact .error _ _
  | some rest =>
    refine (sameLines_stringRest _ _ rest).bind fun key rest => ?_
    simp only [skipSpace_unifyLineEnds, dropPrefix?_unifyLineEnds ":" (by decide)]
    cases Text.dropPrefix? ":" (skipSpace rest) with
    | none => exact .error _ _
    | some rest =>
      simp only [Option.map_some, skipSpace_unifyLineEnds]
      refine (reads.value _).bind fun d rest => ?_
      simp only [skipSpace_unifyLineEnds, dropPrefix?_unifyLineEnds "\x7d" (by decide),
        dropPrefix?_unifyLineEnds "," (by decide)]
      cases Text.dropPrefix? "\x7d" (skipSpace rest) with
      | some rest => exact .ok [(key, d)] rest
      | none =>
        cases Text.dropPrefix? "," (skipSpace rest) with
        | none => exact .error _ _
        | some rest =>
          simp only [Option.map_none, Option.map_some, skipSpace_unifyLineEnds]
          exact (reads.members _).bind fun ms rest => .ok ((key, d) :: ms) rest

end ReadsLines

theorem readsLines (fuel : Nat) : ReadsLines fuel := by
  induction fuel with
  | zero => constructor <;> exact fun _ => .error _ _
  | succ fuel ih => exact ⟨ih.value_succ, ih.items_succ, ih.members_succ⟩

theorem length_unifyLineEndsAfter_le (afterReturn : Bool) (t : Text) :
    (unifyLineEndsAfter afterReturn t).length ≤ t.length := by
  induction t generalizing afterReturn with
  | nil => exact Nat.le_refl _
  | cons c rest ih =>
    rw [unifyLineEndsAfter]
    split_ifs
    · exact Nat.succ_le_succ (ih true)
    · exact Nat.le_succ_of_le (ih false)
    · exact Nat.succ_le_succ (ih false)

/-- The same document is read from a text with unified line ends, or none. -/
theorem ofDecoded_unifyLineEnds_eq_ok_iff {t : Text} {d : Document} :
    ofDecoded (unifyLineEnds t) = .ok d ↔ ofDecoded t = .ok d := by
  have shorter : (unifyLineEnds t).length ≤ t.length := length_unifyLineEndsAfter_le false t
  -- The unified text may be shorter, and less fuel is given for it.
  have fuel : value (2 * (unifyLineEnds t).length + 1) (unifyLineEnds (skipSpace t)) =
      value (2 * t.length + 1) (unifyLineEnds (skipSpace t)) := by
    have skipped := length_skipSpace_le (unifyLineEnds t)
    rw [skipSpace_unifyLineEnds] at skipped
    exact value_eq_value (by omega) (by omega)
  rw [ofDecoded, ofDecoded, mapError_eq_ok_iff, mapError_eq_ok_iff, whole, whole,
    skipSpace_unifyLineEnds, fuel]
  refine ((readsLines _).value (skipSpace t)).bind_eq_ok_iff fun d rest => ?_
  simp only [skipSpace_unifyLineEnds, unifyLineEnds_eq_nil_iff]
  split_ifs <;> rfl

end Value

end Document

end SchemaPlugin
