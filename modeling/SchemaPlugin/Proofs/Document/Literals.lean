import SchemaPlugin.Proofs.Document.Joined

/-!
Numbers and strings read back. An integer is its digits, wherever no digit, point or exponent
follows. Of a string every code point is read from its escape, except that the units of a pair are
read as one code point.
-/

namespace SchemaPlugin

namespace Text

theorem isDigit_ofNat {d : Nat} (h : d < 10) : (CodePoint.ofNat (48 + d)).isDigit = true := by
  rw [CodePoint.isDigit, CodePoint.val_ofNat (by omega)]
  simp only [Bool.and_eq_true, decide_eq_true_eq]
  omega

theorem isDigit_of_mem_ofNat (n : Nat) : ∀ c ∈ ofNat n, c.isDigit = true := by
  induction n using Nat.strongRecOn with
  | _ n ih =>
    rw [ofNat]
    split_ifs with small
    · exact List.forall_mem_singleton.2 (isDigit_ofNat small)
    · exact forall_mem_concat (ih (n / 10) (by omega)) (isDigit_ofNat (by omega))

theorem digitsValue_concat (t : Text) {d : Nat} (h : d < 10) :
    digitsValue (t ++ [CodePoint.ofNat (48 + d)]) = 10 * digitsValue t + d := by
  rw [digitsValue, List.foldl_append, List.foldl_cons, List.foldl_nil,
    CodePoint.val_ofNat (by omega), digitsValue]
  omega

theorem digitsValue_ofNat (n : Nat) : digitsValue (ofNat n) = n := by
  induction n using Nat.strongRecOn with
  | _ n ih =>
    rw [ofNat]
    split_ifs with small
    · exact (digitsValue_concat [] small).trans (Nat.zero_add n)
    · rw [digitsValue_concat _ (by omega), ih (n / 10) (by omega)]
      omega

/-- No number but zero begins with a zero. -/
theorem exists_ofNat_eq_cons {n : Nat} (positive : 0 < n) :
    ∃ d ds, ofNat n = CodePoint.ofNat (48 + d) :: ds ∧ 0 < d ∧ d < 10 := by
  induction n using Nat.strongRecOn with
  | _ n ih =>
    rw [ofNat]
    split_ifs with small
    · exact ⟨n, [], rfl, positive, small⟩
    · obtain ⟨d, ds, eq, bounds⟩ := ih (n / 10) (by omega) (by omega)
      exact ⟨d, _, by rw [eq, List.cons_append], bounds⟩

theorem dropPrefix?_append (head rest : Text) : dropPrefix? head (head ++ rest) = some rest := by
  induction head with
  | nil => rfl
  | cons c head ih => rw [List.cons_append, dropPrefix?, if_pos rfl, ih]

theorem dropPrefix?_cons_of_ne {a c : CodePoint} (h : a ≠ c) (head rest : Text) :
    dropPrefix? (a :: head) (c :: rest) = none := if_neg h

end Text

namespace Document

open Encoding (joinSurrogates)
open CodePoint (Pair)

/-- What can stand after a value: nothing, or what ends or goes on with a list. -/
def Closing (rest : Text) : Prop :=
  ∀ c ∈ rest.head?, c = CodePoint.ofChar ',' ∨ c = CodePoint.ofChar '\n' ∨
    c = CodePoint.ofChar ']' ∨ c = CodePoint.ofChar '\x7d'

section Number

variable {rest : Text}

theorem Closing.fraction? (closing : Closing rest) : fraction? rest = none := by
  cases rest with
  | nil => rfl
  | cons c rest => rcases closing c rfl with rfl | rfl | rfl | rfl <;> rfl

theorem Closing.exponent? (closing : Closing rest) : exponent? rest = none := by
  cases rest with
  | nil => rfl
  | cons c rest => rcases closing c rfl with rfl | rfl | rfl | rfl <;> rfl

theorem Closing.takeWhile_isDigit (closing : Closing rest) : rest.takeWhile (·.isDigit) = [] := by
  cases rest with
  | nil => rfl
  | cons c rest => rcases closing c rfl with rfl | rfl | rfl | rfl <;> rfl

theorem Closing.dropWhile_isDigit (closing : Closing rest) : rest.dropWhile (·.isDigit) = rest := by
  cases rest with
  | nil => rfl
  | cons c rest => rcases closing c rfl with rfl | rfl | rfl | rfl <;> rfl

theorem digits?_append {ds : Text} (digits : ∀ c ∈ ds, c.isDigit = true) (some_ : ds ≠ [])
    (closing : Closing rest) : digits? (ds ++ rest) = some (ds, rest) := by
  have taken : (ds ++ rest).takeWhile (·.isDigit) = ds := by
    rw [List.takeWhile_append_of_pos digits, closing.takeWhile_isDigit, List.append_nil]
  have dropped : (ds ++ rest).dropWhile (·.isDigit) = rest := by
    rw [List.dropWhile_append_of_pos digits, closing.dropWhile_isDigit]
  rw [digits?, taken, dropped]
  cases ds with
  | nil => exact absurd rfl some_
  | cons d ds => rfl

theorem wholeDigits?_ofNat (n : Nat) (closing : Closing rest) :
    wholeDigits? (Text.ofNat n ++ rest) = some (Text.ofNat n, rest) := by
  rcases Nat.eq_zero_or_pos n with rfl | positive
  · rw [Text.ofNat]
    rfl
  · obtain ⟨d, ds, eq, bounds⟩ := Text.exists_ofNat_eq_cons positive
    have nonzero : CodePoint.ofChar '0' ≠ CodePoint.ofNat (48 + d) := by
      intro same
      have values := congrArg CodePoint.val same
      rw [CodePoint.val_ofNat (by omega)] at values
      change 48 = 48 + d at values
      omega
    have drop : Text.dropPrefix? "0" (Text.ofNat n ++ rest) = none := by
      rw [eq]
      exact Text.dropPrefix?_cons_of_ne nonzero _ _
    rw [wholeDigits?, drop]
    exact digits?_append (Text.isDigit_of_mem_ofNat n) (by simp [eq]) closing

theorem exists_digit_ofNat (n : Nat) : ∃ d ds, Text.ofNat n = d :: ds ∧ d.isDigit = true := by
  obtain ⟨d, ds, eq⟩ : ∃ d ds, Text.ofNat n = d :: ds := by
    rw [Text.ofNat]
    split_ifs with small
    · exact ⟨_, [], rfl⟩
    · exact List.exists_cons_of_ne_nil (by simp)
  exact ⟨d, ds, eq, Text.isDigit_of_mem_ofNat n d (by simp [eq])⟩

theorem dropPrefix?_cons_of_isDigit {a d : CodePoint} (digit : d.isDigit = true)
    (h : a.isDigit = false) (head t : Text) : Text.dropPrefix? (a :: head) (d :: t) = none := by
  refine Text.dropPrefix?_cons_of_ne ?_ head t
  rintro rfl
  rw [h] at digit
  cases digit

theorem dropPrefix?_minus_ofNat (n : Nat) (rest : Text) :
    Text.dropPrefix? "-" (Text.ofNat n ++ rest) = none := by
  obtain ⟨d, ds, eq, digit⟩ := exists_digit_ofNat n
  rw [eq]
  exact dropPrefix?_cons_of_isDigit digit rfl _ _

/-- After the sign, digits that nothing else of a number follows. -/
theorem number?_of_digits {t : Text} {n : Nat} (closing : Closing rest)
    (digits : (Text.dropPrefix? "-" t).getD t = Text.ofNat n ++ rest) :
    number? t = some (int (if (Text.dropPrefix? "-" t).isSome then -(n : Int) else n), rest) := by
  simp only [number?, digits, wholeDigits?_ofNat n closing, Option.bind_eq_bind, Option.bind_some,
    closing.fraction?, closing.exponent?, Option.map_none, Option.getD_none,
    Text.digitsValue_ofNat]
  rfl

theorem number?_ofInt (n : Int) (closing : Closing rest) :
    number? (Text.ofInt n ++ rest) = some (int n, rest) := by
  cases n with
  | ofNat n =>
    have sign := dropPrefix?_minus_ofNat n rest
    have digits : (Text.dropPrefix? "-" (Text.ofNat n ++ rest)).getD (Text.ofNat n ++ rest) =
        Text.ofNat n ++ rest := by rw [sign, Option.getD_none]
    have read := number?_of_digits closing digits
    rw [sign] at read
    exact read
  | negSucc n => exact number?_of_digits (n := n + 1) closing rfl

theorem constant?_ofInt (n : Int) (rest : Text) : constant? (Text.ofInt n ++ rest) = none := by
  rw [constant?, List.findSome?_eq_none_iff]
  intro w listed
  rw [Option.map_eq_none_iff]
  cases n with
  | ofNat n =>
    obtain ⟨d, ds, eq, digit⟩ := exists_digit_ofNat n
    rw [Text.ofInt, eq]
    simp only [constants, List.mem_cons, List.not_mem_nil, or_false] at listed
    rcases listed with rfl | rfl | rfl | rfl | rfl | rfl <;>
      exact dropPrefix?_cons_of_isDigit digit rfl _ _
  | negSucc n =>
    obtain ⟨d, ds, eq, digit⟩ := exists_digit_ofNat (n + 1)
    rw [Text.ofInt, eq]
    simp only [constants, List.mem_cons, List.not_mem_nil, or_false] at listed
    rcases listed with rfl | rfl | rfl | rfl | rfl | rfl
    case inr.inr.inr.inr.inr => exact dropPrefix?_cons_of_isDigit digit rfl _ _
    all_goals rfl

theorem exists_ofInt_eq_cons (n : Int) :
    ∃ c t, Text.ofInt n = c :: t ∧ (c.isDigit = true ∨ c = CodePoint.ofChar '-') := by
  cases n with
  | ofNat n =>
    obtain ⟨d, ds, eq, digit⟩ := exists_digit_ofNat n
    exact ⟨d, ds, eq, .inl digit⟩
  | negSucc n => exact ⟨_, _, rfl, .inr rfl⟩

theorem value_ofInt (fuel : Nat) (n : Int) (closing : Closing rest) :
    value (fuel + 1) (Text.ofInt n ++ rest) = .ok (int n, rest) := by
  have constant := constant?_ofInt n rest
  have number := number?_ofInt n closing
  obtain ⟨c, t, eq, begins⟩ := exists_ofInt_eq_cons n
  have other (a : Char) (h : (CodePoint.ofChar a).isDigit = false)
      (h' : CodePoint.ofChar a ≠ CodePoint.ofChar '-') : c ≠ CodePoint.ofChar a := by
    rintro rfl
    rcases begins with digit | minus
    · rw [h] at digit
      cases digit
    · exact h' minus
  rw [eq, List.cons_append] at constant number ⊢
  rw [value, if_neg (other '"' rfl (by decide)), if_neg (other '[' rfl (by decide)),
    if_neg (other '\x7b' rfl (by decide)), constant, Option.none_or, number]

end Number

section String

variable {opening : Nat} {c d : CodePoint} {rest : Text}

theorem hexValue?_hexDigit {n : Nat} (h : n < 16) : (CodePoint.hexDigit n).hexValue? = some n := by
  have all : ∀ n < 16, (CodePoint.hexDigit n).hexValue? = some n := by decide
  exact all n h

theorem unit?_hex {n : Nat} (h : n < 0x10000) (follows : rest ≠ []) :
    unit? (Text.hex 4 n ++ rest) = some (.ofNat n, rest) := by
  obtain ⟨c, rest, rfl⟩ := List.exists_cons_of_ne_nil follows
  have digit (n : Nat) := hexValue?_hexDigit (Nat.mod_lt n (by decide : 0 < 16))
  have sum : 0x1000 * (n / 16 / 16 / 16 % 16) + 0x100 * (n / 16 / 16 % 16) +
      0x10 * (n / 16 % 16) + n % 16 = n := by omega
  simp only [Text.hex, List.nil_append, List.cons_append, unit?, digit, Option.bind_eq_bind,
    Option.bind_some, sum]
  rfl

/-- What a code point makes of the string that follows it. -/
def prepend (c : CodePoint) (tail : Parse (Text × Text)) : Parse (Text × Text) := do
  let (s, rest) ← tail
  return (c :: s, rest)

theorem stringRest_plain (quote : c ≠ CodePoint.ofChar '"') (printed : 0x20 ≤ c.val)
    (backslash : c ≠ CodePoint.ofChar '\\') :
    stringRest opening (c :: rest) = prepend c (stringRest opening rest) := by
  rw [stringRest, if_neg quote, if_neg (by omega), if_neg backslash]
  rfl

theorem stringRest_escape {t : Text} (read : escape opening t = .ok (c, rest)) :
    stringRest opening (CodePoint.ofChar '\\' :: t) = prepend c (stringRest opening rest) := by
  rw [stringRest, if_neg (by decide), if_neg (by decide), if_pos rfl]
  split
  · rename_i failed
    rw [read] at failed
    cases failed
  · rename_i read'
    rw [read] at read'
    cases read'
    rfl

theorem stringRest_escape_error {t : Text} {fault : Fault}
    (read : escape opening t = .error fault) :
    stringRest opening (CodePoint.ofChar '\\' :: t) = .error fault := by
  rw [stringRest, if_neg (by decide), if_neg (by decide), if_pos rfl]
  split
  · rename_i read'
    rw [read] at read'
    cases read'
    rfl
  · rename_i read'
    rw [read] at read'
    cases read'

theorem stringRest_unit {n : Nat} (h : n < 0x10000) (follows : rest ≠ []) :
    stringRest opening (unitEscape n ++ rest) =
      prepend (joinUnits (.ofNat n) rest).1 (stringRest opening (joinUnits (.ofNat n) rest).2) := by
  have read : escape opening (CodePoint.ofChar 'u' :: (Text.hex 4 n ++ rest)) =
      .ok (joinUnits (.ofNat n) rest) := by
    rw [escape, if_pos rfl, unit?_hex h follows]
  exact stringRest_escape read

/-- How the code points of a string are written: as they stand, by a letter, or by their units. -/
theorem escaped_cases (c : CodePoint) :
    (escaped c = [c] ∧ c ≠ CodePoint.ofChar '"' ∧ 0x20 ≤ c.val ∧ c ≠ CodePoint.ofChar '\\') ∨
      (∃ letter, escaped c = [CodePoint.ofChar '\\', letter] ∧ letter ≠ CodePoint.ofChar 'u' ∧
        ∀ opening rest, escape opening (letter :: rest) = .ok (c, rest)) ∨
      (c.val < 0x10000 ∧ escaped c = unitEscape c.val) ∨
      (0x10000 ≤ c.val ∧ escaped c = unitEscape (0xD800 + (c.val - 0x10000) / 0x400) ++
        unitEscape (0xDC00 + (c.val - 0x10000) % 0x400)) := by
  by_cases slash : c = CodePoint.ofChar '/'
  · subst slash
    exact .inl ⟨rfl, by decide⟩
  · rw [escaped, if_neg slash]
    cases found : letterEscapes.find? fun e => CodePoint.ofChar e.2 = c with
    | some e =>
      have listed := List.mem_of_find?_eq_some found
      have same : CodePoint.ofChar e.2 = c := by simpa using List.find?_some found
      subst same
      refine .inr (.inl ⟨CodePoint.ofChar e.1, rfl, ?_⟩)
      simp only [letterEscapes, List.mem_cons, List.not_mem_nil, or_false] at listed
      rcases listed with rfl | rfl | rfl | rfl | rfl | rfl | rfl | rfl <;>
        exact ⟨by decide, fun _ _ => rfl⟩
    | none =>
      have unlisted := List.find?_eq_none.1 found
      simp only [decide_eq_true_eq] at unlisted
      simp only
      split_ifs with plain small
      · exact .inl ⟨rfl, fun h => unlisted ('"', '"') (by decide) h.symm, plain.1,
          fun h => unlisted ('\\', '\\') (by decide) h.symm⟩
      · exact .inr (.inr (.inl ⟨small, rfl⟩))
      · exact .inr (.inr (.inr ⟨by omega, rfl⟩))

theorem escaped_surrogate (h : c.isSurrogate = true) : escaped c = unitEscape c.val := by
  have other (a : Char) : CodePoint.ofChar a ≠ c := by
    rintro rfl
    rw [CodePoint.isSurrogate_ofChar] at h
    cases h
  have unlisted : (letterEscapes.find? fun e => CodePoint.ofChar e.2 = c) = none := by
    rw [List.find?_eq_none]
    intro e _
    simpa using other e.2
  have bounds : 0xD800 ≤ c.val ∧ c.val ≤ 0xDFFF := by simpa [CodePoint.isSurrogate] using h
  rw [escaped, if_neg (other '/').symm, unlisted]
  simp only
  rw [if_neg (by omega), if_pos (by omega)]

/-- The unit whose escape a text begins with. -/
def escapedUnit? (t : Text) : Option (CodePoint × Text) := (Text.dropPrefix? "\\u" t).bind unit?

theorem joinUnits_eq (c : CodePoint) (rest : Text) :
    joinUnits c rest = match escapedUnit? rest with
      | none => (c, rest)
      | some (low, after) => if Pair c low then (.ofSurrogates c low, after) else (c, rest) := by
  rw [joinUnits, escapedUnit?]
  cases Text.dropPrefix? "\\u" rest with
  | none =>
    rw [ite_self]
    rfl
  | some digits =>
    cases high : c.isHighSurrogate
    all_goals
      simp only [Option.bind_some, Pair, high, if_true, Bool.false_eq_true, if_false]
      cases unit? digits <;> simp

theorem joinUnits_of_no_unit (h : Text.dropPrefix? "\\u" rest = none) :
    joinUnits c rest = (c, rest) := by
  rw [joinUnits_eq, escapedUnit?, h]
  rfl

/-- The unit that follows is taken for the second half of a pair if it is one. -/
theorem joinUnits_unit {n : Nat} (h : n < 0x10000) (c : CodePoint) (follows : rest ≠ []) :
    joinUnits c (unitEscape n ++ rest) =
      if Pair c (.ofNat n) then (.ofSurrogates c (.ofNat n), rest)
      else (c, unitEscape n ++ rest) := by
  have unit : escapedUnit? (unitEscape n ++ rest) = some (.ofNat n, rest) := by
    rw [escapedUnit?, unitEscape, List.append_assoc, Text.dropPrefix?_append]
    exact unit?_hex h follows
  rw [joinUnits_eq, unit]

theorem stringRest_units {m n : Nat} (hm : m < 0x10000) (hn : n < 0x10000)
    (pair : Pair (.ofNat m) (.ofNat n)) (follows : rest ≠ []) :
    stringRest opening (unitEscape m ++ (unitEscape n ++ rest)) =
      prepend (.ofSurrogates (.ofNat m) (.ofNat n)) (stringRest opening rest) := by
  rw [stringRest_unit hm (by simp [follows]), joinUnits_unit hn _ follows, if_pos pair]

/-- The two units of a code point past the first 2^16. -/
theorem ofSurrogates_halves (large : 0x10000 ≤ c.val) :
    Pair (.ofNat (0xD800 + (c.val - 0x10000) / 0x400))
        (.ofNat (0xDC00 + (c.val - 0x10000) % 0x400)) ∧
      CodePoint.ofSurrogates (.ofNat (0xD800 + (c.val - 0x10000) / 0x400))
        (.ofNat (0xDC00 + (c.val - 0x10000) % 0x400)) = c := by
  have := c.isLt
  have high := CodePoint.val_ofNat (n := 0xD800 + (c.val - 0x10000) / 0x400) (by omega)
  have low := CodePoint.val_ofNat (n := 0xDC00 + (c.val - 0x10000) % 0x400) (by omega)
  refine ⟨⟨CodePoint.isHighSurrogate_iff.2 ?_, CodePoint.isLowSurrogate_iff.2 ?_⟩, ?_⟩
  · rw [high]
    omega
  · rw [low]
    omega
  · have whole : 0x10000 + (0xD800 + (c.val - 0x10000) / 0x400 - 0xD800) * 0x400 +
        (0xDC00 + (c.val - 0x10000) % 0x400 - 0xDC00) = c.val := by omega
    rw [CodePoint.ofSurrogates, high, low, whole, CodePoint.ofNat_val]

/-- A string that is written, without its opening quote, and what follows it. -/
def tail (t rest : Text) : Text := t.flatMap escaped ++ CodePoint.ofChar '"' :: rest

theorem tail_cons (c : CodePoint) (t rest : Text) :
    tail (c :: t) rest = escaped c ++ tail t rest := by
  rw [tail, List.flatMap_cons, List.append_assoc]
  rfl

theorem tail_ne_nil (t rest : Text) : tail t rest ≠ [] := by
  simp [tail]

theorem joinUnits_tail {t : Text} (alone : ∀ d ∈ t.head?, ¬Pair c d) (rest : Text) :
    joinUnits c (tail t rest) = (c, tail t rest) := by
  cases t with
  | nil => exact joinUnits_of_no_unit rfl
  | cons d t =>
    rw [tail_cons]
    have follows := tail_ne_nil t rest
    rcases escaped_cases d with ⟨plain, -, -, backslash⟩ | ⟨letter, escape, unit, -⟩ |
      ⟨small, units⟩ | ⟨large, units⟩
    · rw [plain]
      exact joinUnits_of_no_unit (Text.dropPrefix?_cons_of_ne backslash.symm _ _)
    · rw [escape]
      refine joinUnits_of_no_unit ?_
      exact (if_pos rfl).trans (Text.dropPrefix?_cons_of_ne unit.symm _ _)
    · rw [units, joinUnits_unit small _ follows, CodePoint.ofNat_val, if_neg (alone d rfl)]
    · -- The first unit of the two is a high surrogate, so it ends no pair.
      have := d.isLt
      obtain ⟨⟨high, -⟩, -⟩ := ofSurrogates_halves large
      rw [units, List.append_assoc, joinUnits_unit (by omega) _ (by simp [follows]), if_neg]
      rintro ⟨-, low⟩
      have := CodePoint.isHighSurrogate_iff.1 high
      have := CodePoint.isLowSurrogate_iff.1 low
      omega

/-- A code point that is not the first half of a pair is read from its escape. -/
theorem stringRest_alone {t : Text} (alone : ∀ d ∈ t.head?, ¬Pair c d) (rest : Text) :
    stringRest opening (tail (c :: t) rest) = prepend c (stringRest opening (tail t rest)) := by
  rw [tail_cons]
  have follows := tail_ne_nil t rest
  rcases escaped_cases c with ⟨plain, quote, printed, backslash⟩ | ⟨letter, escape, -, read⟩ |
    ⟨small, units⟩ | ⟨large, units⟩
  · rw [plain]
    exact stringRest_plain quote printed backslash
  · rw [escape]
    exact stringRest_escape (read _ _)
  · rw [units, stringRest_unit small follows, CodePoint.ofNat_val, joinUnits_tail alone]
  · have := c.isLt
    obtain ⟨pair, whole⟩ := ofSurrogates_halves large
    rw [units, List.append_assoc, stringRest_units (by omega) (by omega) pair follows, whole]

theorem stringRest_pair (pair : Pair c d) (t rest : Text) :
    stringRest opening (tail (c :: d :: t) rest) =
      prepend (.ofSurrogates c d) (stringRest opening (tail t rest)) := by
  have high := CodePoint.isHighSurrogate_iff.1 pair.1
  have low := CodePoint.isLowSurrogate_iff.1 pair.2
  have whole : Pair (.ofNat c.val) (.ofNat d.val) := by
    rwa [CodePoint.ofNat_val, CodePoint.ofNat_val]
  rw [tail_cons, tail_cons, escaped_surrogate pair.isSurrogate.1,
    escaped_surrogate pair.isSurrogate.2,
    stringRest_units (by omega) (by omega) whole (tail_ne_nil t rest), CodePoint.ofNat_val,
    CodePoint.ofNat_val]

/-- A string that is written reads back with its pairs joined. -/
theorem stringRest_tail (t rest : Text) :
    stringRest opening (tail t rest) = .ok (joinSurrogates t, rest) := by
  induction t using Text.pairs_induction with
  | nil =>
    rw [tail, List.flatMap_nil, List.nil_append, stringRest, if_pos rfl]
    rfl
  | pair c d t pair ih =>
    rw [stringRest_pair pair, ih, Text.joinSurrogates_cons_cons, if_pos pair]
    rfl
  | alone c t alone ih =>
    rw [stringRest_alone alone, ih, Text.joinSurrogates_cons alone]
    rfl

end String

end Document

end SchemaPlugin
