import SchemaPlugin.Document.Printer

/-!
Documents from JSON texts. Three constants are read besides those of JSON, for the numbers that are
not finite, and a surrogate may be spelled alone. An error says what was expected and where: at the
first code point that cannot stand there, or at the opening quote of a string that does not end.
-/

namespace SchemaPlugin.Document

inductive Complaint
  | value
  | extraData
  | propertyName
  | colon
  | comma
  | unterminatedString
  | controlCharacter
  | escape
  | unitEscape
  | byteOrderMark
  deriving DecidableEq

def Complaint.text : Complaint → Text
  | .value => "Expecting value"
  | .extraData => "Extra data"
  | .propertyName => "Expecting property name enclosed in double quotes"
  | .colon => "Expecting ':' delimiter"
  | .comma => "Expecting ',' delimiter"
  | .unterminatedString => "Unterminated string starting at"
  | .controlCharacter => "Invalid control character at"
  | .escape => "Invalid \\escape"
  | .unitEscape => "Invalid \\uXXXX escape"
  | .byteOrderMark => "Unexpected UTF-8 BOM (decode using utf-8-sig)"

/-- A complaint about the place that has `left` code points from it to the end. -/
structure Fault where
  complaint : Complaint
  left : Nat
  deriving DecidableEq

/-- Reading at the beginning of a text gives what was read and the text after it. -/
abbrev Parse := Except Fault

def isSpace (c : CodePoint) : Bool := c = ' ' || c = '\t' || c = '\n' || c = '\r'

def skipSpace (t : Text) : Text := t.dropWhile isSpace

/-- The unit that four hexadecimal digits spell; something must follow them. -/
def unit? : Text → Option (CodePoint × Text)
  | a :: b :: c :: d :: e :: rest => do
    let n := 0x1000 * (← a.hexValue?) + 0x100 * (← b.hexValue?) + 0x10 * (← c.hexValue?) +
      (← d.hexValue?)
    return (.ofNat n, e :: rest)
  | _ => none

/-- A high surrogate and the escape of a low one that follows it are one code point. -/
def joinUnits (first : CodePoint) (rest : Text) : CodePoint × Text :=
  match if first.isHighSurrogate then Text.dropPrefix? "\\u" rest else none with
  | none => (first, rest)
  | some digits =>
    match unit? digits with
    | none => (first, rest)
    | some (second, after) =>
      if second.isLowSurrogate then (.ofSurrogates first second, after) else (first, rest)

/-- The code point of an escape, after its backslash. `opening` is what is left at the opening
quote. -/
def escape (opening : Nat) (t : Text) : Parse (CodePoint × Text) :=
  match t with
  | [] => .error ⟨.unterminatedString, opening⟩
  | c :: rest =>
    if c = 'u' then
      match unit? rest with
      | none => .error ⟨.unitEscape, t.length⟩
      | some (first, after) => .ok (joinUnits first after)
    else match letterEscapes.find? fun e => CodePoint.ofChar e.1 = c with
      | none => .error ⟨.escape, t.length + 1⟩
      | some (_, d) => .ok (d, rest)

theorem length_lt_of_unit? {t after : Text} {c : CodePoint} (h : unit? t = some (c, after)) :
    after.length < t.length := by
  unfold unit? at h
  split at h
  · simp only [Option.pure_def, Option.bind_eq_bind, Option.bind_eq_some_iff, Option.some.injEq,
      Prod.mk.injEq] at h
    obtain ⟨_, _, _, _, _, _, _, _, _, h⟩ := h
    rw [← h]
    simp only [List.length_cons]
    omega
  · simp at h

theorem length_of_dropPrefix? {head t rest : Text} (h : Text.dropPrefix? head t = some rest) :
    rest.length ≤ t.length := by
  induction head generalizing t with
  | nil => cases h; exact Nat.le_refl _
  | cons a head ih =>
    cases t with
    | nil => simp [Text.dropPrefix?] at h
    | cons c t =>
      simp only [Text.dropPrefix?] at h
      split at h
      · have := ih h
        simp only [List.length_cons]
        omega
      · simp at h

theorem length_joinUnits_le (first : CodePoint) (rest : Text) :
    (joinUnits first rest).2.length ≤ rest.length := by
  unfold joinUnits
  split
  · exact Nat.le_refl _
  · rename_i digits h
    split
    · exact Nat.le_refl _
    · rename_i second after hunit
      split
      · have hdigits : digits.length ≤ rest.length := by
          split at h
          · exact length_of_dropPrefix? h
          · simp at h
        have := length_lt_of_unit? hunit
        simp only
        omega
      · exact Nat.le_refl _

theorem length_lt_of_escape {opening : Nat} {t after : Text} {c : CodePoint}
    (h : escape opening t = .ok (c, after)) : after.length < t.length := by
  unfold escape at h
  split at h
  · simp at h
  · split at h
    · split at h
      · simp at h
      · rename_i first after' hunit
        have hlt := length_lt_of_unit? hunit
        have hle := length_joinUnits_le first after'
        rw [Except.ok.injEq] at h
        rw [h] at hle
        simp only [List.length_cons]
        simp only at hle
        omega
    · split at h
      · simp at h
      · simp only [Except.ok.injEq, Prod.mk.injEq] at h
        simp [h.2]

/-- The rest of a string, after its opening quote. -/
def stringRest (opening : Nat) (t : Text) : Parse (Text × Text) :=
  match t with
  | [] => .error ⟨.unterminatedString, opening⟩
  | c :: rest =>
    if c = '"' then .ok ([], rest)
    else if c.val < 0x20 then .error ⟨.controlCharacter, t.length⟩
    else if c = '\\' then
      match _h : escape opening rest with
      | .error fault => .error fault
      | .ok (d, after) => do
        let (s, after) ← stringRest opening after
        return (d :: s, after)
    else do
      let (s, after) ← stringRest opening rest
      return (c :: s, after)
termination_by t.length
decreasing_by
  · have := length_lt_of_escape _h
    simp only [List.length_cons]
    omega
  · simp

/-- The digits at the beginning of a text; none if there is no digit. -/
def digits? (t : Text) : Option (Text × Text) :=
  match t.takeWhile (·.isDigit) with
  | [] => none
  | d :: ds => some (d :: ds, t.dropWhile (·.isDigit))

/-- The digits of the integer part. Nothing but a zero begins with a zero. -/
def wholeDigits? (t : Text) : Option (Text × Text) :=
  match Text.dropPrefix? "0" t with
  | some rest => some ("0", rest)
  | none => digits? t

/-- A point and digits. -/
def fraction? (t : Text) : Option (Text × Text) := (Text.dropPrefix? "." t).bind digits?

/-- The letter `e`, perhaps a sign, and digits. -/
def exponent? (t : Text) : Option (Int × Text) := do
  let t ← (Text.dropPrefix? "e" t).or (Text.dropPrefix? "E" t)
  match Text.dropPrefix? "-" t with
  | some t =>
    let (ds, rest) ← digits? t
    return (-(Text.digitsValue ds : Int), rest)
  | none =>
    let (ds, rest) ← digits? ((Text.dropPrefix? "+" t).getD t)
    return (Text.digitsValue ds, rest)

/-- A number with a fraction or an exponent is a double, any other an integer. -/
def number? (t : Text) : Option (Document × Text) := do
  let negative := (Text.dropPrefix? "-" t).isSome
  let (whole, t) ← wholeDigits? ((Text.dropPrefix? "-" t).getD t)
  let (fraction, t) := ((fraction? t).map fun (ds, rest) => (some ds, rest)).getD (none, t)
  let (exponent, t) := ((exponent? t).map fun (e, rest) => (some e, rest)).getD (none, t)
  match fraction, exponent with
  | none, none =>
    let n : Int := Text.digitsValue whole
    return (int (if negative then -n else n), t)
  | _, _ =>
    let ds := fraction.getD []
    let power := exponent.getD 0 - ds.length
    return (double (.ofDecimal negative (Text.digitsValue (whole ++ ds)) power), t)

def constants : List (Text × Document) :=
  [("null", null), ("true", bool true), ("false", bool false), ("NaN", double .nan),
    ("Infinity", double (.infinite false)), ("-Infinity", double (.infinite true))]

def constant? (t : Text) : Option (Document × Text) :=
  constants.findSome? fun (word, d) => (Text.dropPrefix? word t).map fun rest => (d, rest)

/-- The members of an object. A key that comes again keeps its place and takes the later value. -/
def ofMembers (members : List (Text × Document)) : Document :=
  object (OrderedMap.ofList members).entries

mutual

/-- A value; `fuel` bounds the calls, of which each two take a code point. -/
def value : (fuel : Nat) → Text → Parse (Document × Text)
  | 0, t => .error ⟨.value, t.length⟩
  | _ + 1, [] => .error ⟨.value, 0⟩
  | fuel + 1, c :: rest =>
    if c = '"' then do
      let (s, rest) ← stringRest (rest.length + 1) rest
      return (string s, rest)
    else if c = '[' then
      match Text.dropPrefix? "]" (skipSpace rest) with
      | some rest => .ok (array [], rest)
      | none => do
        let (ds, rest) ← items fuel (skipSpace rest)
        return (array ds, rest)
    else if c = '{' then
      match Text.dropPrefix? "\x7d" (skipSpace rest) with
      | some rest => .ok (object [], rest)
      | none => do
        let (ms, rest) ← members fuel (skipSpace rest)
        return (ofMembers ms, rest)
    else match (constant? (c :: rest)).or (number? (c :: rest)) with
      | some (d, rest) => .ok (d, rest)
      | none => .error ⟨.value, rest.length + 1⟩

/-- The items of an array that has some, and its closing bracket. -/
def items : (fuel : Nat) → Text → Parse (List Document × Text)
  | 0, t => .error ⟨.value, t.length⟩
  | fuel + 1, t => do
    let (d, rest) ← value fuel t
    let rest := skipSpace rest
    match Text.dropPrefix? "]" rest with
    | some rest => return ([d], rest)
    | none =>
      match Text.dropPrefix? "," rest with
      | none => .error ⟨.comma, rest.length⟩
      | some rest => do
        let (ds, rest) ← items fuel (skipSpace rest)
        return (d :: ds, rest)

/-- The members of an object that has some, and its closing brace. -/
def members : (fuel : Nat) → Text → Parse (List (Text × Document) × Text)
  | 0, t => .error ⟨.value, t.length⟩
  | fuel + 1, t => do
    match Text.dropPrefix? "\"" t with
    | none => .error ⟨.propertyName, t.length⟩
    | some rest => do
      let (key, rest) ← stringRest t.length rest
      let rest := skipSpace rest
      match Text.dropPrefix? ":" rest with
      | none => .error ⟨.colon, rest.length⟩
      | some rest => do
        let (d, rest) ← value fuel (skipSpace rest)
        let rest := skipSpace rest
        match Text.dropPrefix? "\x7d" rest with
        | some rest => return ([(key, d)], rest)
        | none =>
          match Text.dropPrefix? "," rest with
          | none => .error ⟨.comma, rest.length⟩
          | some rest => do
            let (ms, rest) ← members fuel (skipSpace rest)
            return ((key, d) :: ms, rest)

end

/-- A document with nothing but space around it. -/
def whole (t : Text) : Except Fault Document := do
  let (d, rest) ← value (2 * t.length + 1) (skipSpace t)
  let rest := skipSpace rest
  if rest = [] then return d else .error ⟨.extraData, rest.length⟩

/-- A complaint about a place of a text. -/
structure SyntaxError where
  complaint : Complaint
  source : Text
  position : Nat
  deriving DecidableEq

def SyntaxError.message (e : SyntaxError) : Text :=
  let before := e.source.take e.position
  e.complaint.text ++ ": line " ++ Text.ofNat (before.count (CodePoint.ofChar '\n') + 1) ++
    " column " ++ Text.ofNat ((before.reverse.takeWhile (· ≠ CodePoint.ofChar '\n')).length + 1) ++
    " (char " ++ Text.ofNat e.position ++ ")"

/-- Reads a document from what bytes were decoded to. -/
def ofDecoded (t : Text) : Except SyntaxError Document :=
  (whole t).mapError fun fault => ⟨fault.complaint, t, t.length - fault.left⟩

/-- Reads a document. A text has no byte order mark. -/
def parse (t : Text) : Except SyntaxError Document :=
  if t.head? = some (CodePoint.ofNat 0xFEFF) then .error ⟨.byteOrderMark, t, 0⟩ else ofDecoded t

end SchemaPlugin.Document
