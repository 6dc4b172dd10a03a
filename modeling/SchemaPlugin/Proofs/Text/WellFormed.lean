import Mathlib.Data.List.TakeWhile
import SchemaPlugin.Text.Utf8

/-!
Well-formed UTF-8 is what texts without surrogates are encoded as. Decoding accepts exactly that,
and gives the text back.
-/

namespace SchemaPlugin.Utf8

/-- Bytes that encode a text. -/
def WellFormed (bytes : Bytes) : Prop := ∃ t : Text, t.Encodable ∧ bytes = t.flatMap bytesOf

theorem unencodable?_eq_none_iff (t : Text) : unencodable? t = none ↔ t.Encodable := by
  have all : t.dropWhile (!·.isSurrogate) = [] ↔ t.Encodable := by
    simp [List.dropWhile_eq_nil_iff, Text.Encodable]
  rw [← all, unencodable?]
  split <;> simp_all

theorem encode_eq_ok_iff {t : Text} {bytes : Bytes} :
    encode t = .ok bytes ↔ t.Encodable ∧ bytes = t.flatMap bytesOf := by
  rw [← unencodable?_eq_none_iff, encode]
  cases h : unencodable? t <;> simp [eq_comm]

theorem textOf_eq_ok_iff {start : Nat} {ps : List Piece} {t : Text} :
    textOf start ps = .ok t ↔ ps = t.map .point := by
  induction ps generalizing start t with
  | nil => cases t <;> simp [textOf]
  | cons p ps ih =>
    cases p with
    | malformed length reason => cases t <;> simp [textOf]
    | point c =>
      cases h : textOf (start + width c) ps with
      | error e =>
        cases t with
        | nil => simp [textOf, h, bind, Except.bind]
        | cons d t =>
          have ne : ps ≠ t.map .point := fun eq => by simp [ih.2 eq] at h
          simp [textOf, h, bind, Except.bind, ne]
      | ok u =>
        have eq := ih.1 h
        cases t with
        | nil => simp [textOf, h, bind, Except.bind, pure, Except.pure]
        | cons d t =>
          subst eq
          have inj : u.map Piece.point = t.map Piece.point ↔ u = t :=
            List.map_inj_right fun a b e => by injection e
          simp [textOf, h, bind, Except.bind, pure, Except.pure, inj]

/-- The bytes that complete a sequence, and the number that it then spells. -/
inductive Completes : Begun → Bytes → Nat → Prop
  | last {s : Begun} {b : UInt8} (owed : s.owed = 1) (low : s.low ≤ b.toNat)
      (high : b.toNat ≤ s.high) : Completes s [b] (s.bits * 64 + b.toNat % 64)
  | more {s : Begun} {b : UInt8} {bytes : Bytes} {n : Nat} (owed : s.owed ≠ 1)
      (low : s.low ≤ b.toNat) (high : b.toNat ≤ s.high)
      (rest : Completes ⟨s.taken + 1, s.owed - 1, 0x80, 0xBF, s.bits * 64 + b.toNat % 64⟩ bytes n) :
      Completes s (b :: bytes) n

theorem piecesAfter_append {surrogates : Bool} {s : Begun} {bytes : Bytes} {n : Nat}
    (h : Completes s bytes n) (rest : Bytes) :
    piecesAfter surrogates (some s) (bytes ++ rest) =
      .point (.ofNat n) :: piecesAfter surrogates none rest := by
  induction h with
  | last owed low high => simp [piecesAfter, owed, low, high]
  | more owed low high _ ih => simp [piecesAfter, owed, low, high, ih]

theorem completes_of_piecesAfter {surrogates : Bool} {s : Begun} {bytes : Bytes} {c : CodePoint}
    {ps : List Piece} (h : piecesAfter surrogates (some s) bytes = .point c :: ps) :
    ∃ front n rest, Completes s front n ∧ c = .ofNat n ∧ bytes = front ++ rest ∧
      ps = piecesAfter surrogates none rest := by
  have broken (s : Begun) (reason : Reason) (more : List Piece) :
      s.broken reason ++ more ≠ .point c :: ps := by
    rw [Begun.broken]
    split <;> simp
  induction bytes generalizing s with
  | nil => exact absurd (by simpa [piecesAfter] using h) (broken s .endOfData [])
  | cons b bytes ih =>
    rw [piecesAfter] at h
    split at h
    · rename_i range
      split at h
      · rename_i owed
        obtain ⟨rfl, rfl⟩ : _ ∧ _ := by simpa using h
        exact ⟨[b], _, bytes, .last owed range.1 range.2, rfl, rfl, rfl⟩
      · rename_i owed
        obtain ⟨front, n, rest, hc, rfl, rfl, rfl⟩ := ih h
        exact ⟨b :: front, n, rest, .more owed range.1 range.2 hc, rfl, rfl, rfl⟩
    · exact absurd h (broken s .continuationByte _)

theorem completes_one_iff {taken low high bits n : Nat} {bytes : Bytes} :
    Completes ⟨taken, 1, low, high, bits⟩ bytes n ↔
      ∃ b, bytes = [b] ∧ low ≤ b.toNat ∧ b.toNat ≤ high ∧ n = bits * 64 + b.toNat % 64 := by
  constructor
  · intro h
    cases h with
    | last _ low high => exact ⟨_, rfl, low, high, rfl⟩
    | more owed => exact absurd rfl owed
  · rintro ⟨b, rfl, low, high, rfl⟩
    exact .last rfl low high

theorem completes_succ_iff {taken owed low high bits n : Nat} {bytes : Bytes} :
    Completes ⟨taken, owed + 2, low, high, bits⟩ bytes n ↔
      ∃ b rest, bytes = b :: rest ∧ low ≤ b.toNat ∧ b.toNat ≤ high ∧
        Completes ⟨taken + 1, owed + 1, 0x80, 0xBF, bits * 64 + b.toNat % 64⟩ rest n := by
  constructor
  · intro h
    cases h with
    | last owed => simp at owed
    | more _ low high rest => exact ⟨_, _, rfl, low, high, rest⟩
  · rintro ⟨b, rest, rfl, low, high, h⟩
    exact .more (by simp) low high h

/-- A number that is a code point and no surrogate. -/
def Scalar (n : Nat) : Prop := n < 0xD800 ∨ 0xDFFF < n ∧ n < 0x110000

theorem scalar_val_iff (c : CodePoint) : Scalar c.val ↔ c.isSurrogate = false := by
  have := c.isLt
  simp only [Scalar, CodePoint.isSurrogate, Bool.and_eq_false_iff, decide_eq_false_iff_not]
  omega

theorem continuation_toNat (n : Nat) : (bytesOf.continuation n).toNat = 0x80 + n % 64 := by
  simp only [bytesOf.continuation, UInt8.toNat_ofNat']
  omega

theorem continuation_eq {b : UInt8} {n : Nat} (low : 0x80 ≤ b.toNat) (high : b.toNat ≤ 0xBF)
    (h : n % 64 = b.toNat % 64) : bytesOf.continuation n = b := by
  apply UInt8.toNat_inj.1
  rw [continuation_toNat]
  omega

theorem ofNat_of_eq_toNat {b : UInt8} {n : Nat} (h : n = b.toNat) : UInt8.ofNat n = b := by
  rw [h, UInt8.ofNat_toNat]

theorem bytesOf_two {n : Nat} {a b : UInt8} (low : 0x80 ≤ n) (high : n < 0x800)
    (hb : 0x80 ≤ b.toNat ∧ b.toNat ≤ 0xBF) (ha : 0xC0 ≤ a.toNat)
    (h : n = (a.toNat - 0xC0) * 64 + b.toNat % 64) : bytesOf (.ofNat n) = [a, b] := by
  rw [bytesOf, CodePoint.val_ofNat (by omega), if_neg (by omega), if_pos high,
    ofNat_of_eq_toNat (b := a) (by omega), continuation_eq hb.1 hb.2 (by omega)]

theorem bytesOf_three {n : Nat} {a b c : UInt8} (low : 0x800 ≤ n) (high : n < 0x10000)
    (hb : 0x80 ≤ b.toNat ∧ b.toNat ≤ 0xBF) (hc : 0x80 ≤ c.toNat ∧ c.toNat ≤ 0xBF)
    (ha : 0xE0 ≤ a.toNat)
    (h : n = ((a.toNat - 0xE0) * 64 + b.toNat % 64) * 64 + c.toNat % 64) :
    bytesOf (.ofNat n) = [a, b, c] := by
  rw [bytesOf, CodePoint.val_ofNat (by omega), if_neg (by omega), if_neg (by omega), if_pos high,
    ofNat_of_eq_toNat (b := a) (by omega), continuation_eq hb.1 hb.2 (by omega),
    continuation_eq hc.1 hc.2 (by omega)]

theorem bytesOf_four {n : Nat} {a b c d : UInt8} (low : 0x10000 ≤ n) (high : n < 0x110000)
    (hb : 0x80 ≤ b.toNat ∧ b.toNat ≤ 0xBF) (hc : 0x80 ≤ c.toNat ∧ c.toNat ≤ 0xBF)
    (hd : 0x80 ≤ d.toNat ∧ d.toNat ≤ 0xBF) (ha : 0xF0 ≤ a.toNat)
    (h : n = (((a.toNat - 0xF0) * 64 + b.toNat % 64) * 64 + c.toNat % 64) * 64 + d.toNat % 64) :
    bytesOf (.ofNat n) = [a, b, c, d] := by
  rw [bytesOf, CodePoint.val_ofNat high, if_neg (by omega), if_neg (by omega), if_neg (by omega),
    ofNat_of_eq_toNat (b := a) (by omega), continuation_eq hb.1 hb.2 (by omega),
    continuation_eq hc.1 hc.2 (by omega), continuation_eq hd.1 hd.2 (by omega)]

/-- A sequence that is begun and completed is that of a code point, and no surrogate's. -/
theorem bytesOf_of_completes {b : UInt8} {s : Begun} {bytes : Bytes} {n : Nat}
    (hs : begin? false b.toNat = some s) (h : Completes s bytes n) :
    Scalar n ∧ bytesOf (.ofNat n) = b :: bytes := by
  simp only [begin?, Bool.not_false, Bool.and_true, decide_eq_true_eq] at hs
  split_ifs at hs with _ _ _ surrogate <;> cases hs <;>
    simp only [completes_one_iff, completes_succ_iff, Nat.reduceAdd, Nat.zero_mul,
      Nat.zero_add] at h
  · obtain ⟨c, rfl, low, high, hn⟩ := h
    exact ⟨.inl (by omega), bytesOf_two (by omega) (by omega) ⟨low, high⟩ (by omega) hn⟩
  -- Of the leads of three bytes, one keeps out the overlong forms and one the surrogates.
  iterate 2
    obtain ⟨c, _, rfl, low, high, d, rfl, low', high', hn⟩ := h
    exact ⟨.inl (by omega), bytesOf_three (by omega) (by omega) ⟨by omega, by omega⟩
      ⟨low', high'⟩ (by omega) (by omega)⟩
  · obtain ⟨c, _, rfl, low, high, d, rfl, low', high', hn⟩ := h
    refine ⟨?_, bytesOf_three (by omega) (by omega) ⟨low, high⟩ ⟨low', high'⟩ (by omega) hn⟩
    rcases Nat.lt_or_gt_of_ne surrogate with below | above
    · exact .inl (by omega)
    · exact .inr ⟨by omega, by omega⟩
  all_goals
    obtain ⟨c, _, rfl, low, high, d, _, rfl, low', high', e, rfl, low'', high'', hn⟩ := h
    refine ⟨.inr ⟨by omega, by omega⟩, bytesOf_four (by omega) (by omega) ⟨by omega, by omega⟩
      ⟨low', high'⟩ ⟨low'', high''⟩ (by omega) (by omega)⟩

theorem begin?_two {a : Nat} (low : 0xC2 ≤ a) (high : a < 0xE0) :
    begin? false a = some ⟨1, 1, 0x80, 0xBF, a - 0xC0⟩ := by
  rw [begin?, if_neg (by omega), if_pos high]

theorem begin?_three {a : Nat} (low : 0xE0 ≤ a) (high : a < 0xF0) :
    begin? false a = some ⟨1, 2, if a = 0xE0 then 0xA0 else 0x80,
      if a = 0xED then 0x9F else 0xBF, a - 0xE0⟩ := by
  by_cases overlong : a = 0xE0
  · subst overlong
    rfl
  by_cases surrogate : a = 0xED
  · subst surrogate
    rfl
  · rw [begin?, if_neg (by omega), if_neg (by omega), if_neg overlong, if_neg (by simp [surrogate]),
      if_pos high, if_neg overlong, if_neg surrogate]

theorem begin?_four {a : Nat} (low : 0xF0 ≤ a) (high : a < 0xF5) :
    begin? false a = some ⟨1, 3, if a = 0xF0 then 0x90 else 0x80,
      if a = 0xF4 then 0x8F else 0xBF, a - 0xF0⟩ := by
  have third : ¬(a = 0xED && !false) = true := by
    rw [Bool.and_eq_true, decide_eq_true_eq]
    omega
  rw [begin?, if_neg (by omega), if_neg (by omega), if_neg (by omega), if_neg third,
    if_neg (by omega)]
  by_cases overlong : a = 0xF0
  · subst overlong
    rfl
  rw [if_neg overlong, if_neg overlong]
  by_cases below : a < 0xF4
  · rw [if_pos below, if_neg (by omega)]
  · have last : a = 0xF4 := by omega
    subst last
    rfl

theorem completes_bytesOf {c : CodePoint} (scalar : Scalar c.val) (large : 0x80 ≤ c.val) :
    ∃ b s rest, bytesOf c = b :: rest ∧ 0x80 ≤ b.toNat ∧ begin? false b.toNat = some s ∧
      Completes s rest c.val := by
  have bound := c.isLt
  have lead {n : Nat} (h : n < 256) : (UInt8.ofNat n).toNat = n := by
    rw [UInt8.toNat_ofNat', Nat.mod_eq_of_lt h]
  rw [bytesOf, if_neg (by omega)]
  split_ifs with two three
  · refine ⟨_, _, _, rfl, ?_, begin?_two ?_ ?_, ?_⟩
    iterate 3
      rw [lead (by omega)]
      omega
    rw [lead (by omega), completes_one_iff]
    refine ⟨_, rfl, ?_, ?_, ?_⟩ <;> rw [continuation_toNat] <;> omega
  · refine ⟨_, _, _, rfl, ?_, begin?_three ?_ ?_, ?_⟩
    iterate 3
      rw [lead (by omega)]
      omega
    rw [lead (by omega)]
    refine completes_succ_iff.2 ⟨_, _, rfl, ?_, ?_, completes_one_iff.2 ⟨_, rfl, ?_, ?_, ?_⟩⟩
    all_goals simp only [continuation_toNat, Scalar] at *
    iterate 2
      · split_ifs <;> omega
    all_goals omega
  · refine ⟨_, _, _, rfl, ?_, begin?_four ?_ ?_, ?_⟩
    iterate 3
      rw [lead (by omega)]
      omega
    rw [lead (by omega)]
    refine completes_succ_iff.2 ⟨_, _, rfl, ?_, ?_, completes_succ_iff.2 ⟨_, _, rfl, ?_, ?_,
      completes_one_iff.2 ⟨_, rfl, ?_, ?_, ?_⟩⟩⟩
    all_goals simp only [continuation_toNat, Scalar] at *
    iterate 2
      · split_ifs <;> omega
    all_goals omega

theorem piecesAfter_bytesOf_ascii (surrogates : Bool) (c : CodePoint) (rest : Bytes)
    (small : c.val < 0x80) : piecesAfter surrogates none (bytesOf c ++ rest) =
      .point c :: piecesAfter surrogates none rest := by
  have lead : (UInt8.ofNat c.val).toNat = c.val := by
    rw [UInt8.toNat_ofNat', Nat.mod_eq_of_lt (by omega)]
  simp [bytesOf, small, piecesAfter, piecesAfter.first, lead]

theorem piecesAfter_bytesOf {c : CodePoint} (h : c.isSurrogate = false) (rest : Bytes) :
    piecesAfter false none (bytesOf c ++ rest) = .point c :: piecesAfter false none rest := by
  by_cases small : c.val < 0x80
  · exact piecesAfter_bytesOf_ascii false c rest small
  · obtain ⟨b, s, tail, eq, large, hs, hc⟩ :=
      completes_bytesOf ((scalar_val_iff c).2 h) (Nat.le_of_not_lt small)
    rw [eq, List.cons_append, piecesAfter, piecesAfter.first, if_neg (by omega), hs]
    simpa using piecesAfter_append hc rest

theorem pieces_flatMap {t : Text} (h : t.Encodable) :
    pieces false (t.flatMap bytesOf) = t.map .point := by
  induction t with
  | nil => simp [pieces, piecesAfter]
  | cons c t ih =>
    have tail := ih fun d hd => h d (List.mem_cons_of_mem c hd)
    rw [pieces] at tail ⊢
    rw [List.flatMap_cons, piecesAfter_bytesOf (h c List.mem_cons_self), tail, List.map_cons]

theorem broken_ne_nil (s : Begun) (reason : Reason) : s.broken reason ≠ [] := by
  rw [Begun.broken]
  split <;> simp

theorem piecesAfter_some_ne_nil (surrogates : Bool) (s : Begun) (bytes : Bytes) :
    piecesAfter surrogates (some s) bytes ≠ [] := by
  induction bytes generalizing s with
  | nil => simp [piecesAfter, broken_ne_nil]
  | cons b bytes ih =>
    rw [piecesAfter]
    split_ifs
    · simp
    · exact ih _
    · simp [broken_ne_nil]

/-- Bytes whose first piece is a code point begin with the bytes of that code point. -/
theorem bytesOf_of_piecesAfter {c : CodePoint} {bytes : Bytes} {ps : List Piece}
    (h : piecesAfter false none bytes = .point c :: ps) :
    c.isSurrogate = false ∧
      ∃ rest, bytes = bytesOf c ++ rest ∧ ps = piecesAfter false none rest := by
  cases bytes with
  | nil => simp [piecesAfter] at h
  | cons b bytes =>
    rw [piecesAfter, piecesAfter.first] at h
    split_ifs at h with small
    · obtain ⟨rfl, rfl⟩ : _ ∧ _ := by simpa using h
      have val : (CodePoint.ofNat b.toNat).val = b.toNat := CodePoint.val_ofNat (by omega)
      refine ⟨(scalar_val_iff _).1 (.inl (by omega)), bytes, ?_, rfl⟩
      rw [bytesOf, val, if_pos small, UInt8.ofNat_toNat, List.singleton_append]
    · cases hs : begin? false b.toNat with
      | none => simp [hs] at h
      | some s =>
        rw [hs] at h
        obtain ⟨front, n, rest, complete, rfl, rfl, rfl⟩ := completes_of_piecesAfter h
        obtain ⟨scalar, eq⟩ := bytesOf_of_completes hs complete
        have val : (CodePoint.ofNat n).val = n :=
          CodePoint.val_ofNat (by rcases scalar with below | above <;> omega)
        refine ⟨(scalar_val_iff _).1 (val.symm ▸ scalar), rest, ?_, rfl⟩
        rw [eq, List.cons_append]

theorem eq_flatMap_of_pieces {t : Text} {bytes : Bytes}
    (h : piecesAfter false none bytes = t.map .point) :
    t.Encodable ∧ bytes = t.flatMap bytesOf := by
  induction t generalizing bytes with
  | nil =>
    refine ⟨by simp [Text.Encodable], ?_⟩
    cases bytes with
    | nil => rfl
    | cons b bytes =>
      rw [piecesAfter, piecesAfter.first] at h
      split_ifs at h
      · simp at h
      · cases hs : begin? false b.toNat with
        | none => simp [hs] at h
        | some s => exact absurd (by simpa [hs] using h) (piecesAfter_some_ne_nil false s bytes)
  | cons c t ih =>
    obtain ⟨scalar, rest, rfl, tail⟩ := bytesOf_of_piecesAfter h
    obtain ⟨encodable, rfl⟩ := ih tail.symm
    exact ⟨List.forall_mem_cons.2 ⟨scalar, encodable⟩, rfl⟩

theorem decode_eq_ok_iff {bytes : Bytes} {t : Text} :
    decode bytes = .ok t ↔ t.Encodable ∧ bytes = t.flatMap bytesOf := by
  rw [decode, textOf_eq_ok_iff]
  constructor
  · exact eq_flatMap_of_pieces
  · rintro ⟨h, rfl⟩
    exact pieces_flatMap h

/-- Decoding succeeds on well-formed bytes alone. -/
theorem decode_isOk_iff {bytes : Bytes} : (∃ t, decode bytes = .ok t) ↔ WellFormed bytes := by
  simp only [decode_eq_ok_iff, WellFormed]

section Surrogates

theorem Completes.widen {s : Begun} {bytes : Bytes} {n high : Nat} (h : Completes s bytes n)
    (wider : s.high ≤ high) : Completes { s with high } bytes n := by
  cases h with
  | last owed low high => exact .last owed low (high.trans wider)
  | more owed low high rest => exact .more owed low (high.trans wider) rest

/-- With surrogates, only the range of a second byte becomes wider. -/
theorem begin?_surrogates {b : Nat} {s : Begun} (h : begin? false b = some s) :
    ∃ high, s.high ≤ high ∧ begin? true b = some { s with high } := by
  by_cases surrogate : b = 0xED
  · subst surrogate
    cases h
    exact ⟨0xBF, by decide, rfl⟩
  · refine ⟨s.high, Nat.le_refl _, ?_⟩
    have same : begin? true b = begin? false b := by simp [begin?, surrogate]
    rw [same, h]

theorem piecesAfter_bytesOf_surrogates {c : CodePoint} (h : c.isSurrogate = false) (rest : Bytes) :
    piecesAfter true none (bytesOf c ++ rest) = .point c :: piecesAfter true none rest := by
  by_cases small : c.val < 0x80
  · exact piecesAfter_bytesOf_ascii true c rest small
  · obtain ⟨b, s, tail, eq, large, hs, hc⟩ :=
      completes_bytesOf ((scalar_val_iff c).2 h) (Nat.le_of_not_lt small)
    obtain ⟨high, wider, hs⟩ := begin?_surrogates hs
    rw [eq, List.cons_append, piecesAfter, piecesAfter.first, if_neg (by omega), hs]
    simpa using piecesAfter_append (hc.widen wider) rest

/-- A text without surrogates is decoded alike, whether or not surrogates are let through. -/
theorem decodeWithSurrogates_flatMap {t : Text} (h : t.Encodable) :
    decodeWithSurrogates (t.flatMap bytesOf) = .ok t := by
  rw [decodeWithSurrogates, textOf_eq_ok_iff, pieces]
  induction t with
  | nil => simp [piecesAfter]
  | cons c t ih =>
    obtain ⟨head, tail⟩ := List.forall_mem_cons.1 h
    rw [List.flatMap_cons, piecesAfter_bytesOf_surrogates head, ih tail, List.map_cons]

end Surrogates

theorem decode_of_encode {t : Text} {bytes : Bytes} (h : encode t = .ok bytes) :
    decode bytes = .ok t :=
  decode_eq_ok_iff.2 (encode_eq_ok_iff.1 h)

end SchemaPlugin.Utf8
