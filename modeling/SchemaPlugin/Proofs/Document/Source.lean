import SchemaPlugin.Document.Encoded
import SchemaPlugin.Proofs.Document.Inherited
import SchemaPlugin.Proofs.Text.WellFormed

/-!
Objects in UTF-8. The text of an object begins with ASCII and has no zero among its first two code
points, so that its bytes are taken for UTF-8 and decoded to it.
-/

namespace SchemaPlugin.Document

variable {c : CodePoint} {t rest : Text} {ms : List (Text × Document)}

section Begin

/-- What an object begins with, after any of which another may come. -/
def leading : List CodePoint := [' ', '\t', '\n', '\r', '\x7b', '\x7d', '"']

theorem mem_leading_of_isSpace (h : isSpace c = true) : c ∈ leading := by
  simp only [isSpace, Bool.or_eq_true, decide_eq_true_eq, or_assoc] at h
  rcases h with rfl | rfl | rfl | rfl <;> decide

/-- If the space at its beginning is followed by a leading code point, a text begins with one. -/
theorem mem_leading_of_skipSpace {d : CodePoint} (h : skipSpace t = d :: rest) (hd : d ∈ leading) :
    ∀ c ∈ t.head?, c ∈ leading := by
  cases t with
  | nil => exact nofun
  | cons c t =>
    rintro _ ⟨⟩
    cases space : isSpace c with
    | true => exact mem_leading_of_isSpace space
    | false =>
      rw [skipSpace, List.dropWhile_cons_of_neg (by simp [space])] at h
      cases h
      exact hd

theorem exists_eq_brace_of_value {fuel : Nat} (h : value fuel t = .ok (object ms, rest)) :
    ∃ more, t = CodePoint.ofChar '\x7b' :: more ∧ ∀ c ∈ more.head?, c ∈ leading := by
  cases fuel with
  | zero => cases h
  | succ fuel =>
    cases t with
    | nil => cases h
    | cons c t =>
      rw [value] at h
      split_ifs at h with quote bracket brace
      · obtain ⟨_, -, eq⟩ := bind_eq_ok_iff.1 h
        cases eq
      · split at h
        · cases h
        · obtain ⟨_, -, eq⟩ := bind_eq_ok_iff.1 h
          cases eq
      · refine ⟨t, congrArg (· :: t) brace, ?_⟩
        split at h
        · rename_i closed
          exact mem_leading_of_skipSpace (Text.eq_append_of_dropPrefix? closed) (by decide)
        · obtain ⟨_, read, -⟩ := bind_eq_ok_iff.1 h
          cases fuel with
          | zero => cases read
          | succ fuel =>
            rw [members] at read
            split at read
            · cases read
            · rename_i quoted
              exact mem_leading_of_skipSpace (Text.eq_append_of_dropPrefix? quoted) (by decide)
      · split at h
        · rename_i read
          cases h
          rcases Option.or_eq_some_iff.1 read with constant | ⟨-, number⟩
          · cases (of_constant? constant).2
          · cases (of_number? number).2
        · cases h

theorem exists_leading_of_ofDecoded (h : ofDecoded t = .ok (object ms)) :
    ∃ c more, t = c :: more ∧ c ∈ leading ∧ ∀ d ∈ more.head?, d ∈ leading := by
  obtain ⟨⟨d, after⟩, read, ends⟩ := bind_eq_ok_iff.1 (mapError_eq_ok_iff.1 h)
  simp only at ends
  split_ifs at ends
  cases ends
  obtain ⟨more, begins, second⟩ := exists_eq_brace_of_value read
  cases t with
  | nil => cases begins
  | cons c t =>
    cases space : isSpace c with
    | true =>
      rw [skipSpace, List.dropWhile_cons_of_pos space] at begins
      exact ⟨c, t, rfl, mem_leading_of_isSpace space, mem_leading_of_skipSpace begins (by decide)⟩
    | false =>
      rw [skipSpace, List.dropWhile_cons_of_neg (by simp [space])] at begins
      cases begins
      exact ⟨_, _, rfl, by decide, second⟩

end Begin

theorem encodingOfZeros_cons {a : UInt8} {bytes : Bytes} (first : a ≠ 0)
    (second : ∀ b ∈ bytes.head?, b ≠ 0) : encodingOfZeros (a :: bytes) = .utf8 := by
  match bytes, second with
  | [], _ => rfl
  | [b], second => simp [encodingOfZeros, first, second b rfl]
  | [b, c], _ => rfl
  | b :: c :: d :: _, second => simp [encodingOfZeros, first, second b rfl]

theorem exists_bytesOf_leading (h : c ∈ leading) :
    ∃ b, Utf8.bytesOf c = [b] ∧ b ≠ 0 ∧ b < 0x80 := by
  have each : ∀ c ∈ leading, Utf8.bytesOf c = [.ofNat c.val] ∧ UInt8.ofNat c.val ≠ 0 ∧
      UInt8.ofNat c.val < 0x80 := by decide
  exact ⟨_, each c h⟩

/-- UTF-8 that is taken for UTF-8: without a byte order mark, and without a zero where a wider unit
would have one. -/
structure PlainUtf8 (source : Bytes) : Prop where
  wellFormed : Utf8.WellFormed source
  unmarked : ¬[0xEF, 0xBB, 0xBF] <+: source
  nonzero : ∀ b ∈ source.take 2, b ≠ 0

theorem plainUtf8_flatMap (encodable : t.Encodable) (h : ofDecoded t = .ok (object ms)) :
    PlainUtf8 (t.flatMap Utf8.bytesOf) := by
  obtain ⟨c, more, rfl, first, second⟩ := exists_leading_of_ofDecoded h
  obtain ⟨a, single, nonzero, ascii⟩ := exists_bytesOf_leading first
  have bytes : (c :: more).flatMap Utf8.bytesOf = a :: more.flatMap Utf8.bytesOf := by
    rw [List.flatMap_cons, single, List.singleton_append]
  have next : ∀ b ∈ (more.flatMap Utf8.bytesOf).head?, b ≠ 0 := by
    cases more with
    | nil => exact nofun
    | cons d more =>
      obtain ⟨b, single, nonzero, -⟩ := exists_bytesOf_leading (second d rfl)
      rw [List.flatMap_cons, single]
      rintro _ ⟨⟩
      exact nonzero
  refine ⟨⟨_, encodable, rfl⟩, ?_, ?_⟩
  · rw [bytes]
    intro marked
    obtain rfl : 0xEF = a := (List.cons_prefix_cons.1 marked).1
    exact absurd ascii (by decide)
  · rw [bytes, List.take_succ_cons, List.forall_mem_cons]
    refine ⟨nonzero, fun b mem => next b ?_⟩
    rw [List.take_one] at mem
    exact Option.mem_toList.1 mem

/-- No code point begins with the first byte of a mark of UTF-16. -/
theorem not_wellFormed_cons {b : UInt8} (h : b = 0xFE ∨ b = 0xFF) (bytes : Bytes) :
    ¬Utf8.WellFormed (b :: bytes) := by
  rintro ⟨t, encodable, eq⟩
  have decoded := Utf8.decode_eq_ok_iff.2 ⟨encodable, eq⟩
  have begins : Utf8.begin? false b.toNat = none ∧ ¬b.toNat < 0x80 := by
    rcases h with rfl | rfl <;> decide
  rw [Utf8.decode, Utf8.pieces, Utf8.piecesAfter, Utf8.piecesAfter.first, if_neg begins.2,
    begins.1] at decoded
  cases decoded

theorem PlainUtf8.decodeSource_eq {source : Bytes} (plain : PlainUtf8 source)
    (decoded : Utf8.decode source = .ok t) : decodeSource source = .ok t := by
  obtain ⟨encodable, rfl⟩ := Utf8.decode_eq_ok_iff.1 decoded
  have decoded := Utf8.decodeWithSurrogates_flatMap encodable
  generalize t.flatMap Utf8.bytesOf = source at plain decoded
  have unmarked : (byteOrderMarks.find? fun mark => mark.1.isPrefixOf source) = none := by
    have marks : ∀ mark ∈ byteOrderMarks, mark.1 = [0xEF, 0xBB, 0xBF] ∨
        ∃ m ∈ mark.1.head?, m = 0 ∨ m = 0xFE ∨ m = 0xFF := by decide
    refine List.find?_eq_none.2 fun (mark, encoding) listed begins => ?_
    have begins := List.isPrefixOf_iff_prefix.1 begins
    rcases marks _ listed with utf8 | ⟨m, first, other⟩
    · exact plain.unmarked (utf8 ▸ begins)
    · obtain ⟨rest, rfl⟩ : ∃ rest, mark = m :: rest := List.head?_eq_some_iff.1 first
      obtain ⟨tail, rfl⟩ := begins
      rcases other with zero | high
      · exact plain.nonzero m (by simp) zero
      · exact not_wellFormed_cons high _ plain.wellFormed
  have utf8 : encodingOfZeros source = .utf8 := by
    cases source with
    | nil => rfl
    | cons a bytes =>
      refine encodingOfZeros_cons (plain.nonzero a (by simp)) fun b head => plain.nonzero b ?_
      rw [List.take_succ_cons, List.take_one]
      exact List.mem_cons_of_mem a (Option.mem_toList.2 head)
  rw [decodeSource, unmarked]
  simp only [utf8]
  rw [Encoding.decode, decoded]
  rfl

end SchemaPlugin.Document
