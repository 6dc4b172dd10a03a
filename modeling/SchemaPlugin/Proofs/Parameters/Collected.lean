import SchemaPlugin.Proofs.Document.Inherited
import SchemaPlugin.Proofs.OrderedMap
import SchemaPlugin.Proofs.Parameters.Query
import SchemaPlugin.Request

/-!
What pairs come to. The keys without their brackets come in the order in which they were first met;
the last pair of such a key decides: its value is taken, or, if it is a list key, all that the list
key has been given, plain values in between apart.
-/

namespace SchemaPlugin

theorem Text.dropSuffix?_eq_some_iff {tail t front : Text} :
    dropSuffix? tail t = some front ↔ t = front ++ tail := by
  rw [dropSuffix?, Option.map_eq_some_iff]
  constructor
  · rintro ⟨rest, dropped, rfl⟩
    rw [← List.reverse_reverse t, eq_append_of_dropPrefix? dropped, List.reverse_append,
      List.reverse_reverse]
  · rintro rfl
    exact ⟨front.reverse, by rw [List.reverse_append, dropPrefix?_append], List.reverse_reverse _⟩

namespace Parameters

/-- What a list key ends in. -/
def brackets : Text := "[]"

def IsList (key : Text) : Prop := brackets <:+ key

/-- The key without the brackets at its end, if it has any; one pair of them at most is left out. -/
def base (key : Text) : Text := (Text.dropSuffix? brackets key).getD key

/-- The values that the list key of a base has been given, in order. -/
def listed (b : Text) (ps : List (Text × Text)) : List Text :=
  (ps.filter fun p => p.1 = b ++ brackets).map Prod.snd

/-- The pair is the last of those whose keys have its base. -/
def IsLast (ps : List (Text × Text)) (p : Text × Text) : Prop :=
  ∃ front back, ps = front ++ p :: back ∧ ∀ q ∈ back, base q.1 ≠ base p.1

/-- The map is what the pairs come to. -/
structure Collects (ps : List (Text × Text)) (map : OrderedMap Text) : Prop where
  keys : map.keys = (ps.map fun p => base p.1).eraseDups
  plain : ∀ key value, IsLast ps (key, value) → ¬IsList key → map.get? (base key) = some value
  list : ∀ key value, IsLast ps (key, value) → IsList key →
    map.get? (base key) = some (Text.join "," (listed (base key) ps))

variable {ps : List (Text × Text)} {key value b : Text}

theorem dropSuffix?_of_not_isList (plain : ¬IsList key) : Text.dropSuffix? brackets key = none := by
  cases dropped : Text.dropSuffix? brackets key with
  | none => rfl
  | some front => exact absurd ⟨front, (Text.dropSuffix?_eq_some_iff.1 dropped).symm⟩ plain

theorem base_of_not_isList (plain : ¬IsList key) : base key = key := by
  rw [base, dropSuffix?_of_not_isList plain]
  rfl

@[simp] theorem base_append_brackets (b : Text) : base (b ++ brackets) = b := by
  rw [base, Text.dropSuffix?_eq_some_iff.2 rfl]
  rfl

theorem listed_concat_of_ne (other : key ≠ b ++ brackets) :
    listed b (ps ++ [(key, value)]) = listed b ps := by
  simp [listed, other]

theorem listed_concat (b value : Text) (ps : List (Text × Text)) :
    listed b (ps ++ [(b ++ brackets, value)]) = listed b ps ++ [value] := by
  simp [listed]

section Add

variable {c : Collected}

theorem add_of_not_isList (plain : ¬IsList key) :
    c.add (key, value) = { c with values := c.values.insert (base key) value } := by
  rw [base_of_not_isList plain, Collected.add]
  simp only
  rw [show Text.dropSuffix? "[]" key = none from dropSuffix?_of_not_isList plain]

theorem add_brackets (c : Collected) (b value : Text) :
    c.add (b ++ brackets, value) =
      ⟨c.values.insert b (Text.join "," ((c.lists.get? b).getD [] ++ [value])),
        c.lists.insert b ((c.lists.get? b).getD [] ++ [value])⟩ := by
  rw [Collected.add]
  simp only
  rw [show Text.dropSuffix? "[]" (b ++ brackets) = some b from Text.dropSuffix?_eq_some_iff.2 rfl]

end Add

/-- The lists that have been collected are those of the pairs. -/
theorem lists_foldl_add (ps : List (Text × Text)) (b : Text) :
    ((ps.foldl Collected.add {}).lists.get? b).getD [] = listed b ps := by
  induction ps using List.reverseRecOn with
  | nil => rfl
  | append_singleton ps p ih =>
    obtain ⟨key, value⟩ := p
    rw [List.foldl_concat]
    by_cases list : IsList key
    · obtain ⟨key, rfl⟩ := list
      rw [add_brackets, OrderedMap.get?_insert]
      by_cases same : b = key
      · subst same
        rw [if_pos rfl, listed_concat, ih]
        rfl
      · rw [if_neg same, ih, listed_concat_of_ne]
        exact fun eq => same (List.append_cancel_right eq).symm
    · have other : key ≠ b ++ brackets := fun eq => list ⟨b, eq.symm⟩
      rw [add_of_not_isList list, listed_concat_of_ne other]
      exact ih

theorem values_add (c : Collected) (key value : Text) :
    ∃ v, (c.add (key, value)).values = c.values.insert (base key) v ∧ (¬IsList key → v = value) ∧
      (IsList key → v = Text.join "," ((c.lists.get? (base key)).getD [] ++ [value])) := by
  by_cases list : IsList key
  · obtain ⟨b, rfl⟩ := list
    rw [add_brackets, base_append_brackets]
    exact ⟨_, rfl, fun plain => absurd ⟨b, rfl⟩ plain, fun _ => rfl⟩
  · rw [add_of_not_isList list]
    exact ⟨value, rfl, fun _ => rfl, fun isList => absurd isList list⟩

/-- What has been met before is not met for the first time. -/
theorem eraseDups_concat (bs : List Text) (b : Text) :
    (bs ++ [b]).eraseDups = if b ∈ bs.eraseDups then bs.eraseDups else bs.eraseDups ++ [b] := by
  rw [List.eraseDups_append]
  by_cases old : b ∈ bs
  · rw [if_pos (List.mem_eraseDups.2 old)]
    simp [old, List.removeAll]
  · rw [if_neg fun mem => old (List.mem_eraseDups.1 mem)]
    simp [old, List.removeAll, List.eraseDups_cons]

theorem IsLast.of_concat {p q : Text × Text} (last : IsLast (ps ++ [q]) p) :
    p = q ∨ base q.1 ≠ base p.1 ∧ IsLast ps p := by
  obtain ⟨front, back, eq, others⟩ := last
  rcases List.eq_nil_or_concat' back with rfl | ⟨back, r, rfl⟩
  · exact .inl (List.append_singleton_inj.1 eq).2.symm
  · rw [← List.cons_append, ← List.append_assoc] at eq
    obtain ⟨rfl, rfl⟩ := List.append_singleton_inj.1 eq
    rw [List.forall_mem_append] at others
    exact .inr ⟨others.2 q List.mem_cons_self, front, back, rfl, others.1⟩

/-- The pairs are collected one by one. -/
theorem collects_ofPairs (ps : List (Text × Text)) : Collects ps (ofPairs ps) := by
  rw [ofPairs]
  induction ps using List.reverseRecOn with
  | nil => exact ⟨rfl, by simp [IsLast], by simp [IsLast]⟩
  | append_singleton ps p ih =>
    obtain ⟨key, value⟩ := p
    obtain ⟨v, added, plainValue, listValue⟩ := values_add (ps.foldl Collected.add {}) key value
    rw [List.foldl_concat, added]
    refine ⟨?_, fun key' value' last plain => ?_, fun key' value' last list => ?_⟩
    · rw [OrderedMap.keys_insert, List.map_append, List.map_singleton, eraseDups_concat, ih.keys]
    · rw [OrderedMap.get?_insert]
      rcases last.of_concat with same | ⟨other, last⟩
      · cases same
        rw [if_pos rfl, plainValue plain]
      · rw [if_neg other.symm, ih.plain key' value' last plain]
    · rw [OrderedMap.get?_insert]
      rcases last.of_concat with same | ⟨other, last⟩
      · cases same
        obtain ⟨b, rfl⟩ := list
        rw [if_pos rfl, listValue ⟨b, rfl⟩, lists_foldl_add, base_append_brackets, listed_concat]
      · have elsewhere : key ≠ base key' ++ brackets := by
          rintro rfl
          exact other (base_append_brackets _)
        rw [if_neg other.symm, ih.list key' value' last list, listed_concat_of_ne elsewhere]

end Parameters

namespace Request

open Parameters

/-- Empty pieces have no pairs. -/
theorem flatMap_pairs_filter (pieces : List Text) :
    (pieces.filter (· ≠ [])).flatMap pairs = pieces.flatMap pairs := by
  induction pieces with
  | nil => rfl
  | cons piece pieces ih =>
    by_cases empty : piece = []
    · subst empty
      exact ih
    · rw [List.filter_cons_of_pos (by simpa using empty), List.flatMap_cons, ih, List.flatMap_cons]

/-- A key alone is read like the key with nothing behind its `=`. -/
theorem pairs_key {key : Text} (some_ : key ≠ []) (whole : CodePoint.ofChar '&' ∉ key)
    (bare : CodePoint.ofChar '=' ∉ key) : pairs key = pairs (key ++ "=") := by
  have inKey : ∀ d ∈ key, d ≠ CodePoint.ofChar '&' ∧ d ≠ CodePoint.ofChar '=' := fun d mem =>
    ⟨fun same => whole (same ▸ mem), fun same => bare (same ▸ mem)⟩
  have nothing : unescape [] = [] := Written.nil.unescape Text.encodable_nil
  have around : pairs (key ++ Text.ofString "=") = [(unescape key, unescape [])] :=
    pairs_pair inKey List.not_mem_nil
  rw [pairs_bare inKey some_, around, nothing]

def withParameter (r : Request) (query : Text) : Request := { r with parameter := some query }

theorem parameters_withParameter (r : Request) (pieces : List Text) :
    (r.withParameter (Text.join "&" pieces)).parameters = ofPairs (pieces.flatMap pairs) := by
  rw [← pairs_join]
  rfl

/-- The parameters are what the pairs come to, however these are written in the query. Whatever the
pieces of a query are, the empty ones change nothing, and a key alone has an empty value. -/
theorem parameters_collects (r : Request) {ps : List (Text × Text)} {pieces : List Text}
    (written : Pieces ps pieces) (encodable : ∀ p ∈ ps, p.1.Encodable ∧ p.2.Encodable) :
    Collects ps (r.withParameter (Text.join "&" pieces)).parameters ∧
      (∀ pieces : List Text, (r.withParameter (Text.join "&" pieces)).parameters =
        (r.withParameter (Text.join "&" (pieces.filter (· ≠ [])))).parameters) ∧
      ∀ (front back : List Text) (key : Text), key ≠ [] → CodePoint.ofChar '&' ∉ key →
        CodePoint.ofChar '=' ∉ key →
        (r.withParameter (Text.join "&" (front ++ key :: back))).parameters =
          (r.withParameter (Text.join "&" (front ++ (key ++ "=") :: back))).parameters := by
  refine ⟨?_, fun pieces => ?_, fun front back key some_ whole bare => ?_⟩
  · rw [parameters_withParameter, ← pairs_join, written.pairs_eq encodable]
    exact collects_ofPairs ps
  · rw [parameters_withParameter, parameters_withParameter, flatMap_pairs_filter]
  · rw [parameters_withParameter, parameters_withParameter, List.flatMap_append,
      List.flatMap_append, List.flatMap_cons, List.flatMap_cons, pairs_key some_ whole bare]

/-- A list key is given a value before and after a plain one of its base. -/
theorem parameters_collects_mixed :
    Pieces [("tag[]", "a"), ("tag", "p q"), ("key", ""), ("tag[]", "\u00e9")]
        ["tag[]=a", "", "tag=p+q", "key", "tag%5B%5d=%C3%a9"] ∧
      (withParameter {} "tag[]=a&&tag=p+q&key&tag%5B%5d=%C3%a9").parameters.keys =
        ["tag", "key"] ∧
      (withParameter {} "tag[]=a&&tag=p+q&key&tag%5B%5d=%C3%a9").parameters.get? "tag" =
        some (Text.ofString "a,\u00e9") := by
  have plain (t : Text) (free : ∀ c ∈ t, c ∉ reserved) : Written t t := written_self free
  have opening : Escaped [0x5B] "%5B" := .cons rfl rfl rfl .nil
  have closing : Escaped [0x5D] "%5d" := .cons rfl rfl rfl .nil
  have accent : Escaped [0xC3, 0xA9] "%C3%a9" := .cons rfl rfl rfl (.cons rfl rfl rfl .nil)
  have openingBracket : Spells (CodePoint.ofChar '[') "%5B" := .escaped opening
  have closingBracket : Spells (CodePoint.ofChar ']') "%5d" := .escaped closing
  have accented : Spells (CodePoint.ofChar '\u00e9') "%C3%a9" := .escaped accent
  have escapedKey : Written "tag[]" "tag%5B%5d" :=
    (plain "tag" (by decide)).append (openingBracket.written.append closingBracket.written)
  have spaced : Written "p q" "p+q" :=
    (plain "p" (by decide)).append ((Spells.space rfl).written.append (plain "q" (by decide)))
  have written : Pieces [("tag[]", "a"), ("tag", "p q"), ("key", ""), ("tag[]", "\u00e9")]
      ["tag[]=a", "", "tag=p+q", "key", "tag%5B%5d=%C3%a9"] :=
    .pair (plain "tag[]" (by decide)) (plain "a" (by decide)) (.empty
      (.pair (plain "tag" (by decide)) spaced
        (.bare (plain "key" (by decide)) (by decide) (.pair escapedKey accented.written .nil))))
  have collects := (parameters_collects {} written (by decide)).1
  have last : IsLast [("tag[]", "a"), ("tag", "p q"), ("key", ""), ("tag[]", "\u00e9")]
      ("tag[]", "\u00e9") := ⟨[("tag[]", "a"), ("tag", "p q"), ("key", "")], [], rfl, nofun⟩
  exact ⟨written, collects.keys.trans (by decide), collects.list "tag[]" "\u00e9" last ⟨"tag", rfl⟩⟩

end Request

end SchemaPlugin
