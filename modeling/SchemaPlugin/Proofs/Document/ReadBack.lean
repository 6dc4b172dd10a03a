import SchemaPlugin.Proofs.Document.Literals

/-!
Printed documents read back. Whatever the indent, a value is read from what it was printed as, up to
the pairs of surrogates in its strings and names, and what follows it is left.
-/

namespace SchemaPlugin.Document

open Encoding (joinSurrogates)

variable {indent : Option Int} {level : Nat} {rest : Text}

section Space

theorem skipSpace_append {blank : Text} (spaces : ∀ c ∈ blank, isSpace c = true) (rest : Text) :
    skipSpace (blank ++ rest) = skipSpace rest :=
  List.dropWhile_append_of_pos spaces

theorem skipSpace_cons {c : CodePoint} (h : isSpace c = false) (rest : Text) :
    skipSpace (c :: rest) = c :: rest :=
  List.dropWhile_cons_of_neg (by simp [h])

theorem isSpace_of_mem_lineBreak {c : CodePoint} (h : c ∈ lineBreak indent level) :
    isSpace c = true := by
  cases indent with
  | none => cases h
  | some n =>
    rcases List.mem_append.1 h with first | others
    · obtain rfl : c = CodePoint.ofChar '\n' := List.mem_singleton.1 first
      rfl
    · rw [List.eq_of_mem_replicate others]
      rfl

theorem skipSpace_lineBreak (rest : Text) :
    skipSpace (lineBreak indent level ++ rest) = skipSpace rest :=
  skipSpace_append (fun _ => isSpace_of_mem_lineBreak) rest

/-- A separator is a comma and space. -/
theorem exists_separator_eq_cons (indent : Option Int) (level : Nat) :
    ∃ blank, separator indent level = CodePoint.ofChar ',' :: blank ∧
      ∀ rest, skipSpace (blank ++ rest) = skipSpace rest := by
  cases indent with
  | none => exact ⟨[CodePoint.ofChar ' '], rfl, fun _ => rfl⟩
  | some n => exact ⟨lineBreak (some n) level, rfl, skipSpace_lineBreak⟩

theorem closing_lineBreak (indent : Option Int) (level : Nat) {c : CodePoint}
    (h : c = CodePoint.ofChar ']' ∨ c = CodePoint.ofChar '\x7d') (rest : Text) :
    Closing (lineBreak indent level ++ c :: rest) := by
  cases indent with
  | none =>
    rintro _ ⟨⟩
    exact .inr (.inr h)
  | some n =>
    rintro _ ⟨⟩
    exact .inr (.inl rfl)

theorem closing_separator (indent : Option Int) (level : Nat) (rest : Text) :
    Closing (separator indent level ++ rest) := by
  obtain ⟨blank, eq, -⟩ := exists_separator_eq_cons indent level
  rw [eq]
  rintro _ ⟨⟩
  exact .inl rfl

end Space

theorem printString_append (t rest : Text) :
    printString t ++ rest = CodePoint.ofChar '"' :: tail t rest := by
  rw [printString, List.append_assoc, List.append_assoc]
  rfl

/-- What a value begins with is neither space nor the end of a list nor a byte order mark. -/
theorem Integral.exists_printAt_eq_cons {d : Document} (integral : d.Integral)
    (indent : Option Int) (level : Nat) :
    ∃ c t, printAt indent level d = c :: t ∧ isSpace c = false ∧ c ≠ CodePoint.ofChar ']' ∧
      c ≠ CodePoint.ofNat 0xFEFF := by
  cases integral with
  | null => exact ⟨_, _, rfl, by decide⟩
  | bool b => cases b <;> exact ⟨_, _, rfl, by decide⟩
  | int n =>
    obtain ⟨c, t, eq, begins⟩ := exists_ofInt_eq_cons n
    refine ⟨c, t, eq, ?_⟩
    rcases begins with digit | rfl
    · have other (a : CodePoint) (h : a.isDigit = false) : c ≠ a := by
        rintro rfl
        rw [h] at digit
        cases digit
      refine ⟨?_, other (CodePoint.ofChar ']') rfl, other (CodePoint.ofNat 0xFEFF) rfl⟩
      simp [isSpace, other (CodePoint.ofChar ' ') rfl, other (CodePoint.ofChar '\t') rfl,
        other (CodePoint.ofChar '\n') rfl, other (CodePoint.ofChar '\r') rfl]
    · exact by decide
  | string t => exact ⟨_, _, rfl, by decide⟩
  | @array items _ => cases items <;> exact ⟨_, _, rfl, by decide⟩
  | @object members _ => cases members <;> exact ⟨_, _, rfl, by decide⟩

theorem Integral.skipSpace_printAt {d : Document} (integral : d.Integral) (rest : Text) :
    skipSpace (printAt indent level d ++ rest) = printAt indent level d ++ rest := by
  obtain ⟨c, t, eq, begins, -⟩ := integral.exists_printAt_eq_cons indent level
  rw [eq, List.cons_append, skipSpace_cons begins]

/-- However deep it stands and whatever closes it, the document is read as it was printed. -/
def ReadsBack (indent : Option Int) (d : Document) : Prop :=
  ∀ (level fuel : Nat) (rest : Text), Closing rest → 2 * (printAt indent level d).length ≤ fuel →
    value fuel (printAt indent level d ++ rest) = .ok (d.joined, rest)

section Steps

variable {fuel : Nat} {t r r' : Text} {d : Document}

theorem items_last (first : value fuel t = .ok (d, r))
    (closed : skipSpace r = CodePoint.ofChar ']' :: rest) :
    items (fuel + 1) t = .ok ([d], rest) := by
  rw [items, first, ok_bind]
  simp only [closed]
  rfl

theorem items_more {ds : List Document} (first : value fuel t = .ok (d, r))
    (comma : skipSpace r = CodePoint.ofChar ',' :: r')
    (others : items fuel (skipSpace r') = .ok (ds, rest)) :
    items (fuel + 1) t = .ok (d :: ds, rest) := by
  have drop : Text.dropPrefix? "," (CodePoint.ofChar ',' :: r') = some r' := rfl
  have more : Text.dropPrefix? "]" (CodePoint.ofChar ',' :: r') = none := rfl
  rw [items, first, ok_bind]
  simp only [comma, drop, more, others]
  rfl

/-- The text of a member without its opening quote: its name, a colon and its value. -/
theorem members_last {key : Text} (first : value fuel (skipSpace r) = .ok (d, r'))
    (closed : skipSpace r' = CodePoint.ofChar '\x7d' :: rest) :
    members (fuel + 1) (CodePoint.ofChar '"' :: tail key (CodePoint.ofChar ':' :: r)) =
      .ok ([(joinSurrogates key, d)], rest) := by
  have quote (t : Text) : Text.dropPrefix? "\"" (CodePoint.ofChar '"' :: t) = some t := rfl
  have colon : Text.dropPrefix? ":" (CodePoint.ofChar ':' :: r) = some r := rfl
  have colon' : skipSpace (CodePoint.ofChar ':' :: r) = CodePoint.ofChar ':' :: r := rfl
  have drop : Text.dropPrefix? "\x7d" (CodePoint.ofChar '\x7d' :: rest) = some rest := rfl
  rw [members]
  simp only [quote, stringRest_tail, ok_bind, colon', colon, first, closed, drop]
  rfl

theorem members_more {key : Text} {ms : List (Text × Document)}
    (first : value fuel (skipSpace r) = .ok (d, r'))
    (comma : skipSpace r' = CodePoint.ofChar ',' :: t)
    (others : members fuel (skipSpace t) = .ok (ms, rest)) :
    members (fuel + 1) (CodePoint.ofChar '"' :: tail key (CodePoint.ofChar ':' :: r)) =
      .ok ((joinSurrogates key, d) :: ms, rest) := by
  have quote (t : Text) : Text.dropPrefix? "\"" (CodePoint.ofChar '"' :: t) = some t := rfl
  have colon : Text.dropPrefix? ":" (CodePoint.ofChar ':' :: r) = some r := rfl
  have colon' : skipSpace (CodePoint.ofChar ':' :: r) = CodePoint.ofChar ':' :: r := rfl
  have drop : Text.dropPrefix? "," (CodePoint.ofChar ',' :: t) = some t := rfl
  have more : Text.dropPrefix? "\x7d" (CodePoint.ofChar ',' :: t) = none := rfl
  rw [members]
  simp only [quote, stringRest_tail, ok_bind, colon', colon, first, comma, drop, more, others]
  rfl

end Steps

section Lists

variable {level' fuel : Nat} {d : Document}

theorem items_printItems {ds : List Document}
    (each : ∀ e ∈ d :: ds, Integral e ∧ ReadsBack indent e)
    (enough : 2 * (printAt indent level d ++ printItems indent level ds).length < fuel) :
    items fuel (printAt indent level d ++ (printItems indent level ds ++
        (lineBreak indent level' ++ CodePoint.ofChar ']' :: rest))) =
      .ok (joinedItems (d :: ds), rest) := by
  induction ds generalizing d fuel with
  | nil =>
    obtain ⟨-, reads⟩ := each d List.mem_cons_self
    obtain ⟨fuel, rfl⟩ : ∃ f, fuel = f + 1 := ⟨fuel - 1, by omega⟩
    rw [printItems, List.append_nil] at enough
    have first := reads level fuel _ (closing_lineBreak indent level' (.inl rfl) rest) (by omega)
    refine items_last first ?_
    rw [skipSpace_lineBreak]
    rfl
  | cons e ds ih =>
    obtain ⟨⟨-, reads⟩, others⟩ := List.forall_mem_cons.1 each
    obtain ⟨⟨integral, -⟩, -⟩ := List.forall_mem_cons.1 others
    obtain ⟨fuel, rfl⟩ : ∃ f, fuel = f + 1 := ⟨fuel - 1, by omega⟩
    obtain ⟨blank, eq, spaces⟩ := exists_separator_eq_cons indent level
    rw [printItems, List.append_assoc, List.append_assoc]
    simp only [printItems, eq, List.length_append, List.length_cons] at enough
    have first (r : Text) := reads level fuel _ (closing_separator indent level r) (by omega)
    have less : 2 * (printAt indent level e ++ printItems indent level ds).length < fuel := by
      rw [List.length_append]
      omega
    have comma (r : Text) : skipSpace (separator indent level ++ r) =
        CodePoint.ofChar ',' :: (blank ++ r) := by
      rw [eq]
      rfl
    exact items_more (first _) (comma _)
      (by rw [spaces, integral.skipSpace_printAt, ih others less])

theorem members_printMembers {key : Text} {ms : List (Text × Document)}
    (each : ∀ m ∈ (key, d) :: ms, Integral m.2 ∧ ReadsBack indent m.2)
    (enough : 2 * (printAt indent level d ++ printMembers indent level ms).length < fuel) :
    members fuel (printString key ++ (": " ++ (printAt indent level d ++
        (printMembers indent level ms ++
          (lineBreak indent level' ++ CodePoint.ofChar '\x7d' :: rest))))) =
      .ok (joinedMembers ((key, d) :: ms), rest) := by
  have value (d : Document) (integral : d.Integral) (r : Text) :
      skipSpace (CodePoint.ofChar ' ' :: (printAt indent level d ++ r)) =
        printAt indent level d ++ r := integral.skipSpace_printAt r
  induction ms generalizing key d fuel with
  | nil =>
    have reads : ReadsBack indent d := (each (key, d) List.mem_cons_self).2
    have integral : d.Integral := (each (key, d) List.mem_cons_self).1
    obtain ⟨fuel, rfl⟩ : ∃ f, fuel = f + 1 := ⟨fuel - 1, by omega⟩
    rw [printMembers, List.append_nil] at enough
    have first := reads level fuel _ (closing_lineBreak indent level' (.inr rfl) rest) (by omega)
    rw [printString_append]
    refine members_last ((congrArg _ (value d integral _)).trans first) ?_
    rw [skipSpace_lineBreak]
    rfl
  | cons m ms ih =>
    have reads : ReadsBack indent d := (each (key, d) List.mem_cons_self).2
    have integral : d.Integral := (each (key, d) List.mem_cons_self).1
    have others := (List.forall_mem_cons.1 each).2
    obtain ⟨fuel, rfl⟩ : ∃ f, fuel = f + 1 := ⟨fuel - 1, by omega⟩
    obtain ⟨key', e⟩ := m
    obtain ⟨blank, eq, spaces⟩ := exists_separator_eq_cons indent level
    simp only [printMembers, eq, List.length_append, List.length_cons] at enough
    rw [printMembers]
    simp only [List.append_assoc]
    have first (r : Text) := reads level fuel _ (closing_separator indent level r) (by omega)
    rw [printString_append]
    have less : 2 * (printAt indent level e ++ printMembers indent level ms).length < fuel := by
      rw [List.length_append]
      omega
    have comma (r : Text) : skipSpace (separator indent level ++ r) =
        CodePoint.ofChar ',' :: (blank ++ r) := by
      rw [eq]
      rfl
    have quoted (r : Text) : skipSpace (printString key' ++ r) = printString key' ++ r := by
      rw [printString_append]
      rfl
    exact members_more ((congrArg _ (value d integral _)).trans (first _)) (comma _)
      (by rw [spaces, quoted, ih others less])

end Lists

section Value

variable {fuel : Nat} {r : Text}

theorem value_string (t : Text) :
    value (fuel + 1) (printString t ++ rest) = .ok (string (joinSurrogates t), rest) := by
  rw [printString_append, value, if_pos rfl, stringRest_tail]
  rfl

theorem value_array {ds : List Document} (some_ : Text.dropPrefix? "]" (skipSpace r) = none)
    (read : items fuel (skipSpace r) = .ok (ds, rest)) :
    value (fuel + 1) (CodePoint.ofChar '[' :: r) = .ok (array ds, rest) := by
  rw [value, if_neg (by decide), if_pos rfl, some_]
  simp only [read]
  rfl

theorem value_object {ms : List (Text × Document)}
    (some_ : Text.dropPrefix? "\x7d" (skipSpace r) = none)
    (read : members fuel (skipSpace r) = .ok (ms, rest)) :
    value (fuel + 1) (CodePoint.ofChar '\x7b' :: r) = .ok (ofMembers ms, rest) := by
  rw [value, if_neg (by decide), if_neg (by decide), if_pos rfl, some_]
  simp only [read]
  rfl

theorem Integral.exists_fuel {d : Document} (integral : d.Integral)
    (enough : 2 * (printAt indent level d).length ≤ fuel) : ∃ left, fuel = left + 1 := by
  obtain ⟨c, t, eq, -⟩ := integral.exists_printAt_eq_cons indent level
  rw [eq, List.length_cons] at enough
  exact ⟨fuel - 1, by omega⟩

theorem readsBack_array {items : List Document}
    (each : ∀ d ∈ items, Integral d ∧ ReadsBack indent d) : ReadsBack indent (array items) := by
  intro level fuel rest closing enough
  obtain ⟨fuel, rfl⟩ := (Integral.array fun d hd => (each d hd).1).exists_fuel enough
  cases items with
  | nil => rfl
  | cons d ds =>
    have shape : printAt indent level (array (d :: ds)) ++ rest = CodePoint.ofChar '[' ::
        (lineBreak indent (level + 1) ++ (printAt indent (level + 1) d ++
          (printItems indent (level + 1) ds ++
            (lineBreak indent level ++ CodePoint.ofChar ']' :: rest)))) := by
      rw [printAt]
      simp only [List.append_assoc]
      rfl
    have length := congrArg List.length shape
    simp only [List.length_append, List.length_cons] at length
    have integral := (each d List.mem_cons_self).1
    obtain ⟨c, t, eq, -, noEnd, -⟩ :=
      integral.exists_printAt_eq_cons indent (level + 1)
    have less : 2 * (printAt indent (level + 1) d ++ printItems indent (level + 1) ds).length <
        fuel := by
      rw [List.length_append]
      omega
    have begins (r : Text) : Text.dropPrefix? "]" (printAt indent (level + 1) d ++ r) = none := by
      rw [eq]
      exact Text.dropPrefix?_cons_of_ne noEnd.symm _ _
    rw [shape, joined]
    refine value_array ?_ ?_ <;> rw [skipSpace_lineBreak, integral.skipSpace_printAt]
    · exact begins _
    · exact items_printItems each less

theorem readsBack_object {members : List (Text × Document)}
    (each : ∀ m ∈ members, Integral m.2 ∧ ReadsBack indent m.2) :
    ReadsBack indent (object members) := by
  intro level fuel rest closing enough
  obtain ⟨fuel, rfl⟩ := (Integral.object fun m hm => (each m hm).1).exists_fuel enough
  match members with
  | [] => rfl
  | (key, d) :: ms =>
    have shape : printAt indent level (object ((key, d) :: ms)) ++ rest = CodePoint.ofChar '\x7b' ::
        (lineBreak indent (level + 1) ++ (printString key ++ (": " ++
          (printAt indent (level + 1) d ++ (printMembers indent (level + 1) ms ++
            (lineBreak indent level ++ CodePoint.ofChar '\x7d' :: rest)))))) := by
      rw [printAt]
      simp only [List.append_assoc]
      rfl
    have length := congrArg List.length shape
    simp only [List.length_append, List.length_cons] at length
    have quoted (r : Text) : skipSpace (lineBreak indent (level + 1) ++ (printString key ++ r)) =
        CodePoint.ofChar '"' :: tail key r := by
      rw [skipSpace_lineBreak, printString_append]
      rfl
    have less : 2 * (printAt indent (level + 1) d ++ printMembers indent (level + 1) ms).length <
        fuel := by
      rw [List.length_append]
      omega
    rw [shape, joined]
    refine value_object ?_ ?_ <;> rw [quoted]
    · rfl
    · rw [← printString_append]
      exact members_printMembers each less

theorem Integral.readsBack {d : Document} (integral : d.Integral) : ReadsBack indent d := by
  induction integral with
  | null =>
    intro level fuel rest _ enough
    obtain ⟨fuel, rfl⟩ := Integral.null.exists_fuel enough
    rfl
  | bool b =>
    intro level fuel rest _ enough
    obtain ⟨fuel, rfl⟩ := (Integral.bool b).exists_fuel enough
    cases b <;> rfl
  | int n =>
    intro level fuel rest closing enough
    obtain ⟨fuel, rfl⟩ := (Integral.int n).exists_fuel enough
    exact value_ofInt fuel n closing
  | string t =>
    intro level fuel rest _ enough
    obtain ⟨fuel, rfl⟩ := (Integral.string t).exists_fuel enough
    exact value_string t
  | array each ih => exact readsBack_array fun d hd => ⟨each d hd, ih d hd⟩
  | object each ih => exact readsBack_object fun m hm => ⟨each m hm, ih m hm⟩

/-- A printed document is read as itself, its pairs of surrogates joined. -/
theorem Integral.parse_print {d : Document} (integral : d.Integral) (indent : Option Int) :
    parse (d.print indent) = .ok d.joined := by
  have space : skipSpace (printAt indent 0 d ++ []) = printAt indent 0 d ++ [] :=
    integral.skipSpace_printAt []
  have reads : ReadsBack indent d := integral.readsBack
  have read := reads 0 (2 * (d.print indent).length + 1) [] nofun (Nat.le_succ _)
  rw [List.append_nil] at space read
  have whole : whole (d.print indent) = .ok d.joined := by
    rw [Document.whole]
    unfold print at *
    rw [space, read]
    rfl
  have noMark : ¬(d.print indent).head? = some (CodePoint.ofNat 0xFEFF) := by
    obtain ⟨c, t, eq, -, -, other⟩ :=
      integral.exists_printAt_eq_cons indent 0
    rw [print, eq, List.head?_cons, Option.some.injEq]
    exact other
  rw [parse, if_neg noMark, ofDecoded, whole]
  rfl

end Value

end SchemaPlugin.Document
