import SchemaPlugin.Parameters
import SchemaPlugin.Proofs.Document.Literals
import SchemaPlugin.Proofs.Text.Pieces
import SchemaPlugin.Proofs.Text.WellFormed

/-!
Queries read back. A text can be written in a query in many ways, each code point as it is or
escaped; whichever is taken, the text is read. The pieces between `&` are read one by one, and the
empty ones are none.
-/

namespace SchemaPlugin

namespace Parameters

open Utf8 (bytesOf decodeLossy)

/-- The code points that mean something else in a query than themselves. -/
def reserved : Text := "%&=+"

/-- Bytes as escapes: each a percent sign and two hexadecimal digits, small or capital. -/
inductive Escaped : Bytes → Text → Prop
  | nil : Escaped [] []
  | cons {b : UInt8} {bytes : Bytes} {high low : CodePoint} {h l : Nat} {w : Text}
      (highDigit : high.hexValue? = some h) (lowDigit : low.hexValue? = some l)
      (value : b.toNat = 16 * h + l) (rest : Escaped bytes w) :
      Escaped (b :: bytes) (CodePoint.ofChar '%' :: high :: low :: w)

/-- A code point in a query: as it is, a space as a plus sign, or its UTF-8 in escapes. -/
inductive Spells (c : CodePoint) : Text → Prop
  | plain (free : c ∉ reserved) : Spells c [c]
  | space (same : c = CodePoint.ofChar ' ') : Spells c [CodePoint.ofChar '+']
  | escaped {w : Text} (escapes : Escaped (bytesOf c) w) : Spells c w

/-- A text in a query. -/
inductive Written : Text → Text → Prop
  | nil : Written [] []
  | cons {c : CodePoint} {t w v : Text} (first : Spells c w) (rest : Written t v) :
      Written (c :: t) (w ++ v)

section Write

variable {b : UInt8} {bytes run : Bytes} {t u v w : Text} {c d : CodePoint}

theorem exists_escaped (bytes : Bytes) : ∃ w, Escaped bytes w := by
  induction bytes with
  | nil => exact ⟨[], .nil⟩
  | cons b bytes ih =>
    obtain ⟨w, rest⟩ := ih
    have := b.toNat_lt
    have high : b.toNat / 16 < 16 := by omega
    have low : b.toNat % 16 < 16 := by omega
    exact ⟨_, .cons (Document.hexValue?_hexDigit high) (Document.hexValue?_hexDigit low)
      (Nat.div_add_mod _ _).symm rest⟩

/-- Every text can be written. -/
theorem exists_written (t : Text) : ∃ w, Written t w := by
  induction t with
  | nil => exact ⟨[], .nil⟩
  | cons c t ih =>
    obtain ⟨w, escapes⟩ := exists_escaped (bytesOf c)
    obtain ⟨v, rest⟩ := ih
    exact ⟨w ++ v, .cons (.escaped escapes) rest⟩

theorem Written.append (written : Written t w) (written' : Written u v) :
    Written (t ++ u) (w ++ v) := by
  induction written with
  | nil => exact written'
  | cons first _ ih =>
    rw [List.append_assoc]
    exact .cons first ih

theorem Spells.written (spells : Spells c w) : Written [c] w := by
  have alone := Written.cons spells .nil
  rwa [List.append_nil] at alone

theorem written_self (free : ∀ c ∈ t, c ∉ reserved) : Written t t := by
  induction t with
  | nil => exact .nil
  | cons c t ih =>
    obtain ⟨first, others⟩ := List.forall_mem_cons.1 free
    exact .cons (.plain first) (ih others)

theorem ne_of_free (free : c ∉ reserved) : c ≠ CodePoint.ofChar '%' ∧ c ≠ CodePoint.ofChar '&' ∧
    c ≠ CodePoint.ofChar '=' ∧ c ≠ CodePoint.ofChar '+' := by
  refine ⟨?_, ?_, ?_, ?_⟩ <;> rintro rfl <;> exact free (by decide)

/-- A hexadecimal digit means nothing but itself. -/
theorem notMem_of_hexValue? {n : Nat} (digit : d.hexValue? = some n) : d ∉ reserved := by
  intro mem
  have none : ∀ d ∈ reserved, d.hexValue? = none := by decide
  rw [none d mem] at digit
  cases digit

/-- Escapes hold nothing that ends a piece or a key, and no plus sign. -/
theorem Escaped.ne_of_mem (escapes : Escaped bytes w) :
    ∀ d ∈ w, d ≠ CodePoint.ofChar '&' ∧ d ≠ CodePoint.ofChar '=' ∧ d ≠ CodePoint.ofChar '+' := by
  induction escapes with
  | nil => nofun
  | cons highDigit lowDigit _ _ ih =>
    have high := (ne_of_free (notMem_of_hexValue? highDigit)).2
    have low := (ne_of_free (notMem_of_hexValue? lowDigit)).2
    exact List.forall_mem_cons.2
      ⟨by decide, List.forall_mem_cons.2 ⟨high, List.forall_mem_cons.2 ⟨low, ih⟩⟩⟩

/-- What a text is written as has nothing that ends a piece or a key. -/
theorem Written.ne_of_mem (written : Written t w) :
    ∀ d ∈ w, d ≠ CodePoint.ofChar '&' ∧ d ≠ CodePoint.ofChar '=' := by
  induction written with
  | nil => nofun
  | cons first _ ih =>
    refine List.forall_mem_append.2 ⟨?_, ih⟩
    cases first with
    | plain free =>
      obtain ⟨-, ampersand, equals, -⟩ := ne_of_free free
      exact List.forall_mem_singleton.2 ⟨ampersand, equals⟩
    | space => exact List.forall_mem_singleton.2 (by decide)
    | escaped escapes =>
      intro d mem
      obtain ⟨ampersand, equals, -⟩ := escapes.ne_of_mem d mem
      exact ⟨ampersand, equals⟩

/-- Plus signs are read as spaces, before escapes are. -/
def ofPlus (c : CodePoint) : CodePoint :=
  if c = CodePoint.ofChar '+' then CodePoint.ofChar ' ' else c

theorem unescapeAfter_of_escape (run : Bytes) {rest : Text} (found : escape? t = some (b, rest)) :
    unescapeAfter run t = unescapeAfter (b :: run) rest := by
  rw [unescapeAfter]
  split
  · rename_i found'
    cases found.symm.trans found'
    rfl
  · rename_i none
    cases found.symm.trans none

theorem unescapeAfter_nil (run : Bytes) : unescapeAfter run [] = decodeLossy run.reverse := by
  rw [unescapeAfter]
  rfl

theorem escape?_eq_none (other : c ≠ CodePoint.ofChar '%') : escape? (c :: t) = none := by
  rw [escape?.eq_def]
  split
  · rename_i eq
    cases eq
    exact if_neg other
  · rfl

theorem unescapeAfter_small (run : Bytes) (other : c ≠ CodePoint.ofChar '%')
    (small : c.val < 0x80) :
    unescapeAfter run (c :: t) = unescapeAfter (.ofNat c.val :: run) t := by
  rw [unescapeAfter]
  split
  · rename_i found
    rw [escape?_eq_none other] at found
    cases found
  · exact if_pos small

theorem unescapeAfter_large (run : Bytes) (other : c ≠ CodePoint.ofChar '%')
    (large : ¬c.val < 0x80) :
    unescapeAfter run (c :: t) = decodeLossy run.reverse ++ c :: unescapeAfter [] t := by
  rw [unescapeAfter]
  split
  · rename_i found
    rw [escape?_eq_none other] at found
    cases found
  · exact if_neg large

/-- Escapes go on with the run of bytes. -/
theorem Escaped.unescapeAfter (escapes : Escaped bytes w) (run : Bytes) (rest : Text) :
    unescapeAfter run (w ++ rest) = Parameters.unescapeAfter (bytes.reverse ++ run) rest := by
  induction escapes generalizing run with
  | nil => rfl
  | @cons b bytes high low h l w highDigit lowDigit value _ ih =>
    have found : escape? (CodePoint.ofChar '%' :: high :: low :: (w ++ rest)) =
        some (b, w ++ rest) := by
      rw [escape?, if_pos rfl, highDigit, lowDigit]
      simp only [← value, UInt8.ofNat_toNat]
    rw [List.cons_append, List.cons_append, List.cons_append, unescapeAfter_of_escape run found, ih,
      List.reverse_cons, List.append_assoc]
    rfl

theorem Escaped.map_ofPlus (escapes : Escaped bytes w) : w.map ofPlus = w := by
  refine (List.map_congr_left fun d mem => ?_).trans (List.map_id _)
  exact if_neg (escapes.ne_of_mem d mem).2.2

theorem decodeLossy_flatMap (encodable : t.Encodable) : decodeLossy (t.flatMap bytesOf) = t := by
  rw [decodeLossy, Utf8.pieces_flatMap encodable, List.map_map]
  exact List.map_id _

/-- What a text is written as, after a run of bytes that spells a text, is read as that text. -/
theorem Written.unescapeAfter (written : Written t w) (encodable : t.Encodable)
    (before : u.Encodable) :
    unescapeAfter (u.flatMap bytesOf).reverse (w.map ofPlus) = u ++ t := by
  induction written generalizing u with
  | nil => rw [List.map_nil, unescapeAfter_nil, List.reverse_reverse, decodeLossy_flatMap before,
      List.append_nil]
  | @cons c t w v first rest ih =>
    obtain ⟨scalar, encodable⟩ := Text.encodable_cons.1 encodable
    have longer : Text.Encodable (u ++ [c]) :=
      Text.encodable_append.2 ⟨before, Text.encodable_cons.2 ⟨scalar, Text.encodable_nil⟩⟩
    have spelled : ((u ++ [c]).flatMap bytesOf).reverse =
        (bytesOf c).reverse ++ (u.flatMap bytesOf).reverse := by simp
    have next := ih encodable longer
    rw [List.append_assoc, List.singleton_append, spelled] at next
    -- A code point below 0x80, or a plus sign, adds its one byte to the run.
    have plain (other : c ≠ CodePoint.ofChar '%') :
        Parameters.unescapeAfter (u.flatMap bytesOf).reverse (c :: v.map ofPlus) = u ++ c :: t := by
      by_cases small : c.val < 0x80
      · rw [unescapeAfter_small _ other small, ← next, bytesOf, if_pos small]
        rfl
      · have alone := ih encodable Text.encodable_nil
        rw [unescapeAfter_large _ other small, List.reverse_reverse, decodeLossy_flatMap before]
        exact congrArg (fun rest => u ++ c :: rest) alone
    rw [List.map_append]
    cases first with
    | plain free =>
      obtain ⟨percent, -, -, plus⟩ := ne_of_free free
      rw [List.map_singleton, ofPlus, if_neg plus]
      exact plain percent
    | space same =>
      subst same
      exact plain (by decide)
    | escaped escapes => rw [escapes.map_ofPlus, escapes.unescapeAfter, next]

/-- Whichever way a text is written, it is read. -/
theorem Written.unescape (written : Written t w) (encodable : t.Encodable) : unescape w = t :=
  written.unescapeAfter encodable Text.encodable_nil

end Write

section Pieces

/-- What stands between `&` is read by itself. -/
theorem pairs_append (front back : Text) :
    pairs (front ++ CodePoint.ofChar '&' :: back) = pairs front ++ pairs back := by
  simp only [pairs, Text.split_append, List.filter_append, List.map_append]

theorem pairs_join (pieces : List Text) : pairs (Text.join "&" pieces) = pieces.flatMap pairs := by
  induction pieces using Text.join.induct with
  | case1 => rfl
  | case2 piece => simp [Text.join]
  | case3 piece next rest ih =>
    have glued : Text.join "&" (piece :: next :: rest) =
        piece ++ CodePoint.ofChar '&' :: Text.join "&" (next :: rest) := List.append_assoc _ _ _
    rw [glued, pairs_append, ih]
    rfl

/-- The pair of a piece that is not empty. -/
def pairOf (piece : Text) : Text × Text :=
  match Text.cut? '=' piece with
  | some (key, value) => (unescape key, unescape value)
  | none => (unescape piece, [])

theorem pairs_piece {piece : Text} (whole : CodePoint.ofChar '&' ∉ piece) (some_ : piece ≠ []) :
    pairs piece = [pairOf piece] := by
  have kept : [piece].filter (· ≠ []) = [piece] := List.filter_cons_of_pos (by simpa using some_)
  rw [pairs, Text.split_of_notMem whole, kept]
  rfl

variable {key value : Text}

theorem pairs_pair (inKey : ∀ d ∈ key, d ≠ CodePoint.ofChar '&' ∧ d ≠ CodePoint.ofChar '=')
    (inValue : CodePoint.ofChar '&' ∉ value) :
    pairs (key ++ CodePoint.ofChar '=' :: value) = [(unescape key, unescape value)] := by
  have whole : CodePoint.ofChar '&' ∉ key ++ CodePoint.ofChar '=' :: value := by
    rw [List.mem_append, List.mem_cons]
    rintro (mem | same | mem)
    · exact (inKey _ mem).1 rfl
    · cases same
    · exact inValue mem
  rw [pairs_piece whole (List.append_ne_nil_of_right_ne_nil key (List.cons_ne_nil _ _)), pairOf,
    Text.cut?_append fun mem => (inKey _ mem).2 rfl]

theorem pairs_bare (inKey : ∀ d ∈ key, d ≠ CodePoint.ofChar '&' ∧ d ≠ CodePoint.ofChar '=')
    (some_ : key ≠ []) : pairs key = [(unescape key, [])] := by
  rw [pairs_piece (fun mem => (inKey _ mem).1 rfl) some_, pairOf,
    Text.cut?_of_notMem fun mem => (inKey _ mem).2 rfl]

/-- The pieces of a query for some pairs: each a key and a value around `=`, or a key alone for an
empty value, and among them any empty ones. -/
inductive Pieces : List (Text × Text) → List Text → Prop
  | nil : Pieces [] []
  | empty {ps : List (Text × Text)} {pieces : List Text} (rest : Pieces ps pieces) :
      Pieces ps ([] :: pieces)
  | pair {ps : List (Text × Text)} {pieces : List Text} {key value k v : Text}
      (writtenKey : Written key k) (writtenValue : Written value v) (rest : Pieces ps pieces) :
      Pieces ((key, value) :: ps) ((k ++ CodePoint.ofChar '=' :: v) :: pieces)
  | bare {ps : List (Text × Text)} {pieces : List Text} {key k : Text}
      (writtenKey : Written key k) (some_ : k ≠ []) (rest : Pieces ps pieces) :
      Pieces ((key, []) :: ps) (k :: pieces)

/-- The pairs are read from the pieces. -/
theorem Pieces.pairs_eq {ps : List (Text × Text)} {pieces : List Text} (written : Pieces ps pieces)
    (encodable : ∀ p ∈ ps, p.1.Encodable ∧ p.2.Encodable) :
    pairs (Text.join "&" pieces) = ps := by
  rw [pairs_join]
  induction written with
  | nil => rfl
  | empty _ ih => exact ih encodable
  | pair writtenKey writtenValue _ ih =>
    obtain ⟨⟨inKey, inValue⟩, others⟩ := List.forall_mem_cons.1 encodable
    have apart := fun mem => (writtenValue.ne_of_mem _ mem).1 rfl
    rw [List.flatMap_cons, pairs_pair writtenKey.ne_of_mem apart, writtenKey.unescape inKey,
      writtenValue.unescape inValue, ih others]
    rfl
  | bare writtenKey some_ _ ih =>
    obtain ⟨⟨inKey, -⟩, others⟩ := List.forall_mem_cons.1 encodable
    rw [List.flatMap_cons, pairs_bare writtenKey.ne_of_mem some_, writtenKey.unescape inKey,
      ih others]
    rfl

end Pieces

end Parameters

end SchemaPlugin
