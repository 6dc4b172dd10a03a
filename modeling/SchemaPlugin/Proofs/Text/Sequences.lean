import SchemaPlugin.Proofs.Text.WellFormed

/-!
UTF-8 by its sequences. A sequence is a lead byte and as many continuation bytes as its high bits
say, and spells a number that needs them all and is no surrogate. Bytes that are no row of sequences
are refused where the row breaks off, for one of three reasons.
-/

namespace SchemaPlugin.Utf8

/-- The bytes 10xxxxxx. -/
def Continues (b : UInt8) : Prop := b.toNat / 64 = 2

/-- A sequence of one, two, three or four bytes. -/
inductive Sequence : Bytes → Prop
  | one {a : UInt8} (lead : a.toNat < 0x80) : Sequence [a]
  | two {a b : UInt8} {n : Nat} (lead : a.toNat / 32 = 6) (hb : Continues b)
      (spells : n = a.toNat % 32 * 64 + b.toNat % 64) (least : 0x80 ≤ n) : Sequence [a, b]
  | three {a b c : UInt8} {n : Nat} (lead : a.toNat / 16 = 14) (hb : Continues b) (hc : Continues c)
      (spells : n = (a.toNat % 16 * 64 + b.toNat % 64) * 64 + c.toNat % 64) (least : 0x800 ≤ n)
      (scalar : ¬(0xD800 ≤ n ∧ n ≤ 0xDFFF)) : Sequence [a, b, c]
  | four {a b c d : UInt8} {n : Nat} (lead : a.toNat / 8 = 30) (hb : Continues b)
      (hc : Continues c) (hd : Continues d)
      (spells : n = ((a.toNat % 8 * 64 + b.toNat % 64) * 64 + c.toNat % 64) * 64 + d.toNat % 64)
      (least : 0x10000 ≤ n) (largest : n ≤ 0x10FFFF) : Sequence [a, b, c, d]

/-- Bytes that are one sequence after the other. -/
def Sequences (bytes : Bytes) : Prop :=
  ∃ parts : List Bytes, (∀ part ∈ parts, Sequence part) ∧ bytes = parts.flatten

/-- Bytes that end inside a sequence, whole sequences before it. -/
def EndsInside (bytes : Bytes) : Prop :=
  ∃ good front more, bytes = good ++ front ∧ Sequences good ∧ front ≠ [] ∧ more ≠ [] ∧
    Sequence (front ++ more)

/-- Bytes in which a byte that begins no sequence stands behind whole sequences. -/
def StartsWrong (bytes : Bytes) : Prop :=
  ∃ good b rest, bytes = good ++ b :: rest ∧ Sequences good ∧ ∀ tail, ¬Sequence (b :: tail)

theorem Continues.iff {b : UInt8} : Continues b ↔ 0x80 ≤ b.toNat ∧ b.toNat ≤ 0xBF := by
  rw [Continues]
  omega

theorem continues_continuation (n : Nat) : Continues (bytesOf.continuation n) := by
  rw [Continues, continuation_toNat]
  omega

theorem sequence_bytesOf {c : CodePoint} (h : c.isSurrogate = false) : Sequence (bytesOf c) := by
  have scalar := (scalar_val_iff c).2 h
  have bound := c.isLt
  have lead {n : Nat} (h : n < 256) : (UInt8.ofNat n).toNat = n := by
    rw [UInt8.toNat_ofNat', Nat.mod_eq_of_lt h]
  rw [bytesOf]
  split_ifs with one two three
  · exact .one (by rwa [lead (by omega)])
  · refine .two (n := c.val) ?_ (continues_continuation _) ?_ (by omega) <;>
      rw [lead (by omega)]
    · omega
    · rw [continuation_toNat]
      omega
  · refine .three (n := c.val) ?_ (continues_continuation _) (continues_continuation _) ?_
      (by omega) (by rw [Scalar] at scalar; omega) <;> rw [lead (by omega)]
    · omega
    · rw [continuation_toNat, continuation_toNat]
      omega
  · refine .four (n := c.val) ?_ (continues_continuation _) (continues_continuation _)
      (continues_continuation _) ?_ (by omega) (by omega) <;> rw [lead (by omega)]
    · omega
    · rw [continuation_toNat, continuation_toNat, continuation_toNat]
      omega

theorem Sequence.eq_bytesOf {bytes : Bytes} (h : Sequence bytes) :
    ∃ c : CodePoint, c.isSurrogate = false ∧ bytes = bytesOf c := by
  have scalar {n : Nat} (h : Scalar n) : (CodePoint.ofNat n).isSurrogate = false := by
    rw [← scalar_val_iff, CodePoint.val_ofNat (by rcases h with below | above <;> omega)]
    exact h
  cases h with
  | @one a lead =>
    refine ⟨.ofNat a.toNat, scalar (.inl (by omega)), ?_⟩
    rw [bytesOf, CodePoint.val_ofNat (by omega), if_pos lead, UInt8.ofNat_toNat]
  | @two a b n lead hb spells least =>
    exact ⟨.ofNat n, scalar (.inl (by omega)), (bytesOf_two least (by omega)
      (Continues.iff.1 hb) (by omega) (by omega)).symm⟩
  | @three a b c n lead hb hc spells least surrogate =>
    exact ⟨.ofNat n, scalar (by rw [Scalar]; omega), (bytesOf_three least (by omega)
      (Continues.iff.1 hb) (Continues.iff.1 hc) (by omega) (by omega)).symm⟩
  | @four a b c d n lead hb hc hd spells least largest =>
    exact ⟨.ofNat n, scalar (.inr ⟨by omega, by omega⟩), (bytesOf_four least (by omega)
      (Continues.iff.1 hb) (Continues.iff.1 hc) (Continues.iff.1 hd) (by omega) (by omega)).symm⟩

/-- A byte of 0x80 or more begins a sequence of which the rest completes what the byte begins. -/
theorem sequence_cons_iff {b : UInt8} {tail : Bytes} (large : 0x80 ≤ b.toNat) :
    Sequence (b :: tail) ↔ ∃ s n, begin? false b.toNat = some s ∧ Completes s tail n := by
  constructor
  · intro h
    obtain ⟨c, hc, eq⟩ := h.eq_bytesOf
    by_cases small : c.val < 0x80
    · rw [bytesOf, if_pos small] at eq
      cases eq
      rw [UInt8.toNat_ofNat', Nat.mod_eq_of_lt (by omega)] at large
      omega
    · obtain ⟨_, s, _, eq', -, hs, complete⟩ :=
        completes_bytesOf ((scalar_val_iff c).2 hc) (Nat.le_of_not_lt small)
      rw [eq'] at eq
      cases eq
      exact ⟨s, _, hs, complete⟩
  · rintro ⟨s, n, hs, complete⟩
    obtain ⟨scalar, eq⟩ := bytesOf_of_completes hs complete
    rw [← eq]
    refine sequence_bytesOf ((scalar_val_iff _).1 ?_)
    rwa [CodePoint.val_ofNat (by rcases scalar with below | above <;> omega)]

theorem sequences_iff_wellFormed {bytes : Bytes} : Sequences bytes ↔ WellFormed bytes := by
  constructor
  · rintro ⟨parts, each, rfl⟩
    induction parts with
    | nil => exact ⟨[], nofun, rfl⟩
    | cons part parts ih =>
      obtain ⟨head, tail⟩ := List.forall_mem_cons.1 each
      obtain ⟨c, hc, rfl⟩ := head.eq_bytesOf
      obtain ⟨t, ht, eq⟩ := ih tail
      exact ⟨c :: t, List.forall_mem_cons.2 ⟨hc, ht⟩, by rw [List.flatten_cons, eq]; rfl⟩
  · rintro ⟨t, ht, rfl⟩
    exact ⟨t.map bytesOf, List.forall_mem_map.2 fun c hc => sequence_bytesOf (ht c hc), rfl⟩

section Broken

/-- What holds of every sequence that has begun, so that some bytes complete it and none that it
still takes spell a surrogate. -/
structure Begun.Sound (s : Begun) : Prop where
  taken : 1 ≤ s.taken
  owed : 1 ≤ s.owed
  low : 0x80 ≤ s.low
  range : s.low ≤ s.high
  high : s.high ≤ 0xBF
  next : s.taken = 1 → s.owed ≠ 1 → ∀ b, s.low ≤ b → b ≤ s.high →
    (s.bits * 64 + b % 64) / 32 ≠ 0x1B
  bits : s.taken = 2 → s.bits / 32 ≠ 0x1B

variable {s : Begun}

theorem sound_of_begin? {b : Nat} (h : begin? false b = some s) : s.Sound := by
  simp only [begin?, Bool.not_false, Bool.and_true, decide_eq_true_eq] at h
  split_ifs at h <;> cases h <;> constructor <;> dsimp only <;> omega

theorem Begun.Sound.step (h : s.Sound) {b : Nat} (more : s.owed ≠ 1) (low : s.low ≤ b)
    (high : b ≤ s.high) :
    Sound ⟨s.taken + 1, s.owed - 1, 0x80, 0xBF, s.bits * 64 + b % 64⟩ where
  taken := Nat.le_add_left 1 _
  owed := by have := h.owed; dsimp only; omega
  low := Nat.le_refl _
  range := by dsimp only; omega
  high := Nat.le_refl _
  next first := by have := h.taken; dsimp only at first; omega
  bits second := h.next (by dsimp only at second; omega) more b low high

theorem Begun.Sound.broken_eq (h : s.Sound) (reason : Reason) :
    s.broken reason = [.malformed s.taken reason] := by
  rw [Begun.broken, if_neg]
  rintro ⟨two, low, high⟩
  exact h.bits two (by omega)

theorem completes_cons_iff {b : UInt8} {tail : Bytes} {n : Nat} :
    Completes s (b :: tail) n ↔ (s.low ≤ b.toNat ∧ b.toNat ≤ s.high) ∧
      (s.owed = 1 ∧ tail = [] ∧ n = s.bits * 64 + b.toNat % 64 ∨
        s.owed ≠ 1 ∧
          Completes ⟨s.taken + 1, s.owed - 1, 0x80, 0xBF, s.bits * 64 + b.toNat % 64⟩ tail n) := by
  constructor
  · intro h
    cases h with
    | last owed low high => exact ⟨⟨low, high⟩, .inl ⟨owed, rfl, rfl⟩⟩
    | more owed low high rest => exact ⟨⟨low, high⟩, .inr ⟨owed, rest⟩⟩
  · rintro ⟨⟨low, high⟩, ⟨owed, rfl, rfl⟩ | ⟨owed, rest⟩⟩
    · exact .last owed low high
    · exact .more owed low high rest

theorem Begun.Sound.exists_completes (h : s.Sound) : ∃ tail n, tail ≠ [] ∧ Completes s tail n := by
  obtain ⟨taken, owed, low, high, bits⟩ := s
  have pos := h.owed
  obtain ⟨b, hb⟩ : ∃ b : UInt8, b.toNat = low := ⟨.ofNat low, by
    have := h.range
    have := h.high
    rw [UInt8.toNat_ofNat', Nat.mod_eq_of_lt (by dsimp only at *; omega)]⟩
  induction owed generalizing taken low high bits b with
  | zero => cases pos
  | succ owed ih =>
    by_cases last : owed = 0
    · subst last
      exact ⟨[b], _, List.cons_ne_nil _ _, .last rfl hb.ge (hb.le.trans h.range)⟩
    · have more := h.step (b := b.toNat) (by simpa using last) hb.ge (hb.le.trans h.range)
      obtain ⟨tail, n, -, complete⟩ := ih _ _ _ _ more more.owed 0x80 rfl
      exact ⟨b :: tail, n, List.cons_ne_nil _ _,
        .more (by simpa using last) hb.ge (hb.le.trans h.range) complete⟩

/-- Where bytes break off a sequence that has begun, they end in it if more of them complete it. -/
theorem Begun.Sound.endOfData_iff (h : s.Sound) {bytes : Bytes} :
    (∃ length rest, piecesAfter false (some s) bytes = .malformed length .endOfData :: rest) ↔
      ∃ more n, more ≠ [] ∧ Completes s (bytes ++ more) n := by
  induction bytes generalizing s with
  | nil =>
    simp only [piecesAfter, h.broken_eq, List.nil_append]
    exact iff_of_true ⟨_, _, rfl⟩ h.exists_completes
  | cons b bytes ih =>
    rw [piecesAfter]
    simp only [List.cons_append, completes_cons_iff]
    split_ifs with range last
    · simp +contextual [last]
    · simp only [ih (h.step last range.1 range.2), range, last, true_and, false_and, false_or,
        ne_eq, not_false_eq_true]
    · simp [range, h.broken_eq]

theorem Begun.Sound.not_startByte (h : s.Sound) {bytes : Bytes} {length : Nat} {rest : List Piece} :
    piecesAfter false (some s) bytes ≠ .malformed length .startByte :: rest := by
  induction bytes generalizing s with
  | nil => simp [piecesAfter, h.broken_eq]
  | cons b bytes ih =>
    rw [piecesAfter]
    split_ifs with range last
    · simp
    · exact ih (h.step last range.1 range.2)
    · simp [h.broken_eq]

variable {bytes : Bytes}

theorem pieces_endOfData_iff :
    (∃ length rest, pieces false bytes = .malformed length .endOfData :: rest) ↔
      bytes ≠ [] ∧ ∃ more, more ≠ [] ∧ Sequence (bytes ++ more) := by
  cases bytes with
  | nil => simp [pieces, piecesAfter]
  | cons b bytes =>
    rw [pieces, piecesAfter, piecesAfter.first]
    simp only [ne_eq, reduceCtorEq, not_false_eq_true, true_and, List.cons_append]
    by_cases small : b.toNat < 0x80
    · rw [if_pos small]
      refine iff_of_false (by rintro ⟨_, _, eq⟩; cases eq) ?_
      rintro ⟨more, ne, h⟩
      have bare : bytes ++ more = [] := by
        generalize bytes ++ more = tail at h
        cases h with
        | one => rfl
        | two lead => omega
        | three lead => omega
        | four lead => omega
      exact ne (List.append_eq_nil_iff.1 bare).2
    · rw [if_neg small]
      simp only [sequence_cons_iff (Nat.le_of_not_lt small)]
      cases hs : begin? false b.toNat with
      | none => simp
      | some s =>
        simp only [(sound_of_begin? hs).endOfData_iff, Option.some.injEq, ← exists_and_left]
        exact exists_congr fun more => by simp [exists_and_left]

theorem pieces_startByte_iff :
    (∃ length rest, pieces false bytes = .malformed length .startByte :: rest) ↔
      ∃ b rest, bytes = b :: rest ∧ ∀ tail, ¬Sequence (b :: tail) := by
  cases bytes with
  | nil => simp [pieces, piecesAfter]
  | cons b bytes =>
    have same : (∃ c rest, b :: bytes = c :: rest ∧ ∀ tail, ¬Sequence (c :: tail)) ↔
        ∀ tail, ¬Sequence (b :: tail) := by simp
    rw [same, pieces, piecesAfter, piecesAfter.first]
    by_cases small : b.toNat < 0x80
    · rw [if_pos small]
      exact iff_of_false (by rintro ⟨_, _, eq⟩; cases eq) fun none => none [] (.one small)
    · rw [if_neg small]
      simp only [sequence_cons_iff (Nat.le_of_not_lt small)]
      cases hs : begin? false b.toNat with
      | none => simp
      | some s =>
        have sound := sound_of_begin? hs
        obtain ⟨tail, n, -, complete⟩ := sound.exists_completes
        refine iff_of_false ?_ fun none => none tail ⟨s, n, rfl, complete⟩
        rintro ⟨_, _, eq⟩
        exact sound.not_startByte eq

end Broken

section Refused

theorem textOf_eq_error_iff {start : Nat} {ps : List Piece} {reason : Reason} :
    (∃ m, textOf start ps = .error m ∧ m.reason = reason) ↔
      ∃ (t : Text) (length : Nat) (rest : List Piece),
        ps = t.map .point ++ .malformed length reason :: rest := by
  induction ps generalizing start with
  | nil => simp [textOf]
  | cons p ps ih =>
    cases p with
    | malformed length reason' =>
      constructor
      · rintro ⟨m, eq, rfl⟩
        cases eq
        exact ⟨[], length, ps, rfl⟩
      · rintro ⟨t, length', rest, eq⟩
        cases t with
        | nil =>
          cases eq
          exact ⟨_, rfl, rfl⟩
        | cons c t => cases eq
    | point c =>
      have step : (∃ m, textOf start (.point c :: ps) = .error m ∧ m.reason = reason) ↔
          ∃ m, textOf (start + width c) ps = .error m ∧ m.reason = reason := by
        cases h : textOf (start + width c) ps <;>
          simp [textOf, h, bind, Except.bind, pure, Except.pure]
      rw [step, ih]
      constructor
      · rintro ⟨t, length, rest, rfl⟩
        exact ⟨c :: t, length, rest, rfl⟩
      · rintro ⟨t, length, rest, eq⟩
        cases t with
        | nil => cases eq
        | cons d t =>
          obtain ⟨-, rfl⟩ := List.cons.inj eq
          exact ⟨t, length, rest, rfl⟩

/-- The pieces of bytes begin with code points where the bytes begin with whole sequences. -/
theorem pieces_eq_append_iff {bytes : Bytes} {ps : List Piece} :
    (∃ t : Text, pieces false bytes = t.map .point ++ ps) ↔
      ∃ good bad, bytes = good ++ bad ∧ Sequences good ∧ pieces false bad = ps := by
  simp only [sequences_iff_wellFormed]
  constructor
  · rintro ⟨t, eq⟩
    induction t generalizing bytes with
    | nil => exact ⟨[], bytes, rfl, ⟨[], nofun, rfl⟩, eq⟩
    | cons c t ih =>
      obtain ⟨hc, rest, rfl, tail⟩ := bytesOf_of_piecesAfter eq
      obtain ⟨_, bad, rfl, ⟨u, hu, rfl⟩, last⟩ := ih tail.symm
      exact ⟨bytesOf c ++ u.flatMap bytesOf, bad, by rw [List.append_assoc],
        ⟨c :: u, List.forall_mem_cons.2 ⟨hc, hu⟩, rfl⟩, last⟩
  · rintro ⟨_, bad, rfl, ⟨t, ht, rfl⟩, rfl⟩
    refine ⟨t, ?_⟩
    induction t with
    | nil => rfl
    | cons c t ih =>
      obtain ⟨hc, tail⟩ := List.forall_mem_cons.1 ht
      have ih := ih tail
      rw [pieces] at ih ⊢
      rw [List.flatMap_cons, List.append_assoc, piecesAfter_bytesOf hc, ih]
      rfl

variable {bytes : Bytes}

/-- Bytes are refused for a reason where it is that of the first piece behind whole sequences. -/
theorem decode_error_iff {reason : Reason} :
    (∃ m, decode bytes = .error m ∧ m.reason = reason) ↔
      ∃ good bad, bytes = good ++ bad ∧ Sequences good ∧
        ∃ length rest, pieces false bad = .malformed length reason :: rest := by
  rw [decode, textOf_eq_error_iff]
  constructor
  · rintro ⟨t, length, rest, eq⟩
    obtain ⟨good, bad, split, whole, first⟩ := pieces_eq_append_iff.1 ⟨t, eq⟩
    exact ⟨good, bad, split, whole, length, rest, first⟩
  · rintro ⟨good, bad, split, whole, length, rest, first⟩
    obtain ⟨t, eq⟩ := pieces_eq_append_iff.2 ⟨good, bad, split, whole, first⟩
    exact ⟨t, length, rest, eq⟩

theorem decode_endOfData_iff :
    (∃ m, decode bytes = .error m ∧ m.reason = .endOfData) ↔ EndsInside bytes := by
  simp only [decode_error_iff, pieces_endOfData_iff, EndsInside]
  constructor
  · rintro ⟨good, front, split, whole, ne, more, ne', h⟩
    exact ⟨good, front, more, split, whole, ne, ne', h⟩
  · rintro ⟨good, front, more, split, whole, ne, ne', h⟩
    exact ⟨good, front, split, whole, ne, more, ne', h⟩

theorem decode_startByte_iff :
    (∃ m, decode bytes = .error m ∧ m.reason = .startByte) ↔ StartsWrong bytes := by
  simp only [decode_error_iff, pieces_startByte_iff, StartsWrong]
  constructor
  · rintro ⟨good, _, split, whole, b, rest, rfl, none⟩
    exact ⟨good, b, rest, split, whole, none⟩
  · rintro ⟨good, b, rest, split, whole, none⟩
    exact ⟨good, _, split, whole, b, rest, rfl, none⟩

end Refused

end SchemaPlugin.Utf8
