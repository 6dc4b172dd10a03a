import SchemaPlugin.OrderedMap
import SchemaPlugin.Text.Utf8

/-!
Parameters, written like a query: pairs between `&`, each a key and a value around its first `=`,
with escapes in both. A key that ends in `[]` collects its values, joined with commas, under the key
without the brackets.
-/

namespace SchemaPlugin.Parameters

/-- The byte that a percent sign and two hexadecimal digits stand for, and what follows them. -/
def escape? : Text → Option (UInt8 × Text)
  | c :: high :: low :: rest =>
    if c = '%' then
      match high.hexValue?, low.hexValue? with
      | some high, some low => some (.ofNat (16 * high + low), rest)
      | _, _ => none
    else none
  | _ => none

theorem length_lt_of_escape? {t rest : Text} {b : UInt8} (h : escape? t = some (b, rest)) :
    rest.length < t.length := by
  unfold escape? at h
  split at h
  · split at h
    · split at h
      · simp only [Option.some.injEq, Prod.mk.injEq] at h
        rw [← h.2]
        simp only [List.length_cons]
        omega
      · simp at h
    · simp at h
  · simp at h

/-- The text with its escapes read as UTF-8, a run of ASCII at a time; `run` holds the bytes of the
run so far, last one first. A percent sign that begins no escape stays. -/
def unescapeAfter (run : Bytes) (t : Text) : Text :=
  match _h : escape? t with
  | some (b, rest) => unescapeAfter (b :: run) rest
  | none =>
    match t with
    | [] => Utf8.decodeLossy run.reverse
    | c :: rest =>
      if c.val < 0x80 then unescapeAfter (.ofNat c.val :: run) rest
      else Utf8.decodeLossy run.reverse ++ c :: unescapeAfter [] rest
termination_by t.length
decreasing_by
  · exact length_lt_of_escape? _h
  · simp
  · simp

def unescape (t : Text) : Text :=
  unescapeAfter [] (t.map fun (c : CodePoint) => if c = '+' then ' ' else c)

/-- The pairs of a query in order. Empty pieces are none; a piece without `=` has an empty value. -/
def pairs (query : Text) : List (Text × Text) :=
  ((Text.split '&' query).filter (· ≠ [])).map fun piece =>
    match Text.cut? '=' piece with
    | some (key, value) => (unescape key, unescape value)
    | none => (unescape piece, [])

/-- The parameters so far, and the values that each list key has collected. -/
structure Collected where
  values : OrderedMap Text := ∅
  lists : OrderedMap (List Text) := ∅

def Collected.add (c : Collected) (pair : Text × Text) : Collected :=
  match Text.dropSuffix? "[]" pair.1 with
  | none => { c with values := c.values.insert pair.1 pair.2 }
  | some key =>
    let list := (c.lists.get? key).getD [] ++ [pair.2]
    ⟨c.values.insert key (Text.join "," list), c.lists.insert key list⟩

def ofPairs (pairs : List (Text × Text)) : OrderedMap Text :=
  (pairs.foldl Collected.add {}).values

def ofQuery (query : Text) : OrderedMap Text := ofPairs (pairs query)

end SchemaPlugin.Parameters
