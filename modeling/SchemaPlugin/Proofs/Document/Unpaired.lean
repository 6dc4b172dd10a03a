import SchemaPlugin.Proofs.Document.Inherited

/-!
Where surrogate pairs come from. Escapes of a pair are read as the code point that it stands for, so
that of a text without surrogates no string or name is read in which a high one stands before a low
one.
-/

namespace SchemaPlugin

theorem CodePoint.Pair.isSurrogate_ofSurrogates {high low : CodePoint} (pair : Pair high low) :
    (ofSurrogates high low).isSurrogate = false := by
  have left := isHighSurrogate_iff.1 pair.1
  have right := isLowSurrogate_iff.1 pair.2
  have val := val_ofNat (n := 0x10000 + (high.val - 0xD800) * 0x400 + (low.val - 0xDC00)) (by omega)
  have above : ¬(ofSurrogates high low).val ≤ 0xDFFF := by
    rw [ofSurrogates, val]
    omega
  simp [CodePoint.isSurrogate, above]

theorem Text.Encodable.of_suffix {t rest : Text} (encodable : t.Encodable) (suffix : rest <:+ t) :
    rest.Encodable :=
  fun c hc => encodable c (suffix.subset hc)

namespace Document

open CodePoint (Pair)

/-- No high surrogate stands before a low one in the strings and names of the document. -/
inductive Unpaired : Document → Prop
  | null : Unpaired null
  | bool (b : Bool) : Unpaired (bool b)
  | int (n : Int) : Unpaired (int n)
  | double (x : Double) : Unpaired (double x)
  | string {t : Text} (unpaired : t.Unpaired) : Unpaired (string t)
  | array {items : List Document} (each : ∀ d ∈ items, Unpaired d) : Unpaired (array items)
  | object {members : List (Text × Document)} (names : ∀ m ∈ members, m.1.Unpaired)
      (each : ∀ m ∈ members, Unpaired m.2) : Unpaired (object members)

section String

variable {opening : Nat} {c d : CodePoint} {s t rest after : Text}

theorem suffix_of_unit? (h : unit? t = some (c, rest)) : rest <:+ t := by
  unfold unit? at h
  split at h
  · rename_i a b c d e rest
    simp only [Option.pure_def, Option.bind_eq_bind, Option.bind_eq_some_iff, Option.some.injEq,
      Prod.mk.injEq] at h
    obtain ⟨_, _, _, _, _, _, _, _, _, rfl⟩ := h
    exact List.suffix_append [a, b, c, d] (e :: rest)
  · cases h

theorem suffix_of_escapedUnit? (h : escapedUnit? t = some (c, rest)) : rest <:+ t := by
  obtain ⟨digits, dropped, unit⟩ := Option.bind_eq_some_iff.1 h
  exact (suffix_of_unit? unit).trans (Text.suffix_of_dropPrefix? dropped)

/-- A unit stands alone if no other one makes it a pair; a pair is no surrogate. -/
theorem joinUnits_cases (h : joinUnits c rest = (d, after)) :
    after <:+ rest ∧ (d.isSurrogate = false ∨ (d = c ∧ after = rest ∧
      ∀ low more, escapedUnit? rest = some (low, more) → ¬Pair c low)) := by
  rw [joinUnits_eq] at h
  cases unit : escapedUnit? rest with
  | none =>
    rw [unit] at h
    cases h
    exact ⟨List.suffix_refl _, .inr ⟨rfl, rfl, by rintro _ _ ⟨⟩⟩⟩
  | some p =>
    rw [unit] at h
    simp only at h
    split_ifs at h with pair
    · obtain ⟨rfl, rfl⟩ := Prod.mk.inj h
      exact ⟨suffix_of_escapedUnit? unit, .inl pair.isSurrogate_ofSurrogates⟩
    · cases h
      exact ⟨List.suffix_refl _, .inr ⟨rfl, rfl, by rintro _ _ ⟨⟩; exact pair⟩⟩

theorem escape_cases (h : escape opening t = .ok (d, after)) :
    after <:+ t ∧ (d.isSurrogate = false ∨
      (escapedUnit? (CodePoint.ofChar '\\' :: t) = some (d, after) ∧
        ∀ low more, escapedUnit? after = some (low, more) → ¬Pair d low)) := by
  unfold escape at h
  split at h
  · cases h
  · rename_i c rest
    split_ifs at h with unit
    · subst unit
      split at h
      · cases h
      · rename_i first more read
        obtain ⟨suffix, cases⟩ := joinUnits_cases (Except.ok.inj h)
        refine ⟨(suffix.trans (suffix_of_unit? read)).trans (List.suffix_cons _ _), ?_⟩
        rcases cases with plain | ⟨rfl, rfl, alone⟩
        · exact .inl plain
        · exact .inr ⟨read, alone⟩
    · split at h
      · cases h
      · rename_i listed
        cases h
        exact ⟨List.suffix_cons _ _, .inl (CodePoint.isSurrogate_ofChar _)⟩

theorem prepend_eq_ok_iff {x : Parse (Text × Text)} :
    prepend c x = .ok (s, rest) ↔ ∃ s', x = .ok (s', rest) ∧ s = c :: s' := by
  rw [prepend, bind_eq_ok_iff]
  constructor
  · rintro ⟨⟨s', rest'⟩, read, eq⟩
    cases eq
    exact ⟨s', read, rfl⟩
  · rintro ⟨s', read, rfl⟩
    exact ⟨(s', rest), read, rfl⟩

/-- If a string begins with a low surrogate, then its text begins with the escape of that. -/
theorem unpaired_of_stringRest (plain : t.Encodable) (h : stringRest opening t = .ok (s, rest)) :
    rest <:+ t ∧ s.Unpaired ∧ ∀ c ∈ s.head?, c.isLowSurrogate →
      ∃ more, escapedUnit? t = some (c, more) := by
  induction hn : t.length using Nat.strongRecOn generalizing t s with
  | _ n ih =>
    cases t with
    | nil =>
      rw [stringRest] at h
      cases h
    | cons c t =>
      obtain ⟨head, tail⟩ := Text.encodable_cons.1 plain
      by_cases quote : c = CodePoint.ofChar '"'
      · rw [stringRest, if_pos quote] at h
        cases h
        exact ⟨List.suffix_cons _ _, .nil, by simp⟩
      by_cases control : c.val < 0x20
      · rw [stringRest, if_neg quote, if_pos control] at h
        cases h
      by_cases backslash : c = CodePoint.ofChar '\\'
      · subst backslash
        cases read : escape opening t with
        | error fault =>
          rw [stringRest_escape_error read] at h
          cases h
        | ok p =>
          obtain ⟨d, after⟩ := p
          rw [stringRest_escape read] at h
          obtain ⟨u, others, rfl⟩ := prepend_eq_ok_iff.1 h
          obtain ⟨suffix, cases⟩ := escape_cases read
          have shorter := length_lt_of_escape read
          obtain ⟨suffix', unpaired, begins⟩ := ih after.length
            (by rw [← hn, List.length_cons]; omega) (tail.of_suffix suffix) others rfl
          refine ⟨(suffix'.trans suffix).trans (List.suffix_cons _ _), ?_, ?_⟩
          · refine List.isChain_cons.2 ⟨fun e he pair => ?_, unpaired⟩
            rcases cases with plain | ⟨-, alone⟩
            · exact CodePoint.not_pair_left plain pair
            · obtain ⟨more, unit⟩ := begins e he pair.2
              exact alone e more unit pair
          · rintro _ ⟨⟩ low
            rcases cases with plain | ⟨unit, -⟩
            · rw [CodePoint.isSurrogate_of_isLowSurrogate low] at plain
              cases plain
            · exact ⟨after, unit⟩
      · rw [stringRest_plain quote (by omega) backslash] at h
        obtain ⟨u, others, rfl⟩ := prepend_eq_ok_iff.1 h
        obtain ⟨suffix, unpaired, -⟩ := ih t.length (by rw [← hn]; simp) tail others rfl
        refine ⟨suffix.trans (List.suffix_cons _ _),
          List.isChain_cons.2 ⟨fun e _ => CodePoint.not_pair_left head, unpaired⟩, ?_⟩
        rintro _ ⟨⟩ low
        rw [CodePoint.isSurrogate_of_isLowSurrogate low] at head
        cases head

end String

theorem inherited_unpaired : Inherited Text.Encodable Text.Unpaired Unpaired where
  suffix := Text.Encodable.of_suffix
  stringRest plain read :=
    have ⟨suffix, unpaired, _⟩ := unpaired_of_stringRest plain read
    ⟨plain.of_suffix suffix, unpaired⟩
  atom := by
    rintro _ (_ | b | n | x)
    · exact .null
    · exact .bool b
    · exact .int n
    · exact .double x
  ofString := .string
  array := .array
  ofMembers each :=
    have entries := OrderedMap.forall_entries_ofList each
    .object (fun m hm => (entries m hm).1) fun m hm => (entries m hm).2

theorem unpaired_of_ofDecoded {t : Text} {d : Document} (plain : t.Encodable)
    (h : ofDecoded t = .ok d) : d.Unpaired :=
  inherited_unpaired.of_ofDecoded plain h

theorem unpaired_of_parse {t : Text} {d : Document} (plain : t.Encodable)
    (h : parse t = .ok d) : d.Unpaired :=
  unpaired_of_ofDecoded plain (ofDecoded_of_parse h)

end Document

end SchemaPlugin
