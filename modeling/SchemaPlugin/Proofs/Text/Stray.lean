import Mathlib.Tactic.Tauto
import SchemaPlugin.Proofs.Text.Markup

/-!
Brackets that begin no tag. In a text with another one after it, such a bracket may begin a tag that
reaches into the other one, which breaks it if the tag closes one that is not open.
-/

namespace SchemaPlugin.Markup

variable {c : CodePoint} {t u v y z rest body after : Text} {n k : Nat}

section Runs

theorem backslashes_append_backslashes (n k : Nat) (t : Text) :
    backslashes n ++ (backslashes k ++ t) = backslashes (n + k) ++ t := by
  rw [← List.append_assoc, backslashes, backslashes, List.replicate_append_replicate]
  rfl

/-- How many backslashes a text begins with, and what follows them. -/
theorem backslashes_append_inj (stop : ∀ c ∈ u.head?, isBackslash c = false)
    (stop' : ∀ c ∈ v.head?, isBackslash c = false) :
    backslashes n ++ u = backslashes k ++ v ↔ n = k ∧ u = v := by
  constructor
  · intro same
    have count := congrArg (fun t => (t.takeWhile isBackslash).length) same
    have left := congrArg (fun t => t.dropWhile isBackslash) same
    simp only [length_takeWhile_backslashes _ stop, length_takeWhile_backslashes _ stop'] at count
    simp only [dropWhile_backslashes _ stop, dropWhile_backslashes _ stop'] at left
    exact ⟨count, left⟩
  · rintro ⟨rfl, rfl⟩
    rfl

theorem backslashes_cons_inj {d : CodePoint} (plain : isBackslash c = false)
    (plain' : isBackslash d = false) :
    backslashes n ++ c :: u = backslashes k ++ d :: v ↔ n = k ∧ c = d ∧ u = v := by
  rw [backslashes_append_inj (by simpa using plain) (by simpa using plain'), List.cons.injEq]

theorem backslashes_ne (plain : isBackslash c = false) :
    backslashes n ≠ backslashes k ++ c :: t := by
  intro same
  rw [← List.append_nil (backslashes n),
    backslashes_append_inj (by simp) (by simpa using plain)] at same
  cases same.2

/-- How many backslashes a text ends with. -/
def trailing (t : Text) : Nat := (t.reverse.takeWhile isBackslash).length

theorem trailing_backslashes (n : Nat) : trailing (backslashes n) = n := by
  have taken := length_takeWhile_backslashes (u := []) n (by simp)
  rwa [List.append_nil, backslashes, ← List.reverse_replicate, ← backslashes] at taken

theorem trailing_append_cons (plain : isBackslash c = false) (u t : Text) :
    trailing (u ++ c :: t) = trailing t := by
  rw [trailing, List.reverse_append, List.reverse_cons, List.append_assoc, List.takeWhile_append]
  split_ifs with all
  · rw [List.singleton_append, List.takeWhile_cons_of_neg (by simp [plain]), List.append_nil,
      trailing, all]
  · rfl

theorem append_bracketed (u body after : Text) : u ++ (bracketed body ++ after) =
    u ++ bracket :: (body ++ CodePoint.ofChar ']' :: after) := by
  simp [bracketed]

theorem trailing_tag (u body after : Text) :
    trailing (u ++ (bracketed body ++ after)) = trailing after := by
  have shape : u ++ (bracketed body ++ after) =
      (u ++ bracket :: body) ++ CodePoint.ofChar ']' :: after := by
    rw [append_bracketed, List.append_assoc, List.cons_append]
  rw [shape, trailing_append_cons (by decide)]

end Runs

section Stray

/-- A bracket of a text that begins no tag, with the backslashes before it and the text after it. -/
inductive Stray : Text → Nat → Text → Prop
  | here {n : Nat} {rest : Text} (notTag : tag? (bracket :: rest) = none) :
      Stray (backslashes n ++ bracket :: rest) n rest
  | later {t : Text} {n : Nat} {rest : Text} (k : Nat) {c : CodePoint}
      (plain : isBackslash c = false) (stray : Stray t n rest) :
      Stray (backslashes k ++ c :: t) n rest

theorem not_stray_backslashes : ¬Stray (backslashes n) k rest := by
  generalize same : backslashes n = t
  intro stray
  cases stray with
  | here notTag => exact backslashes_ne (by decide) same
  | later k plain stray => exact backslashes_ne plain same

theorem stray_cons (plain : isBackslash c = false) : Stray (backslashes n ++ c :: t) k rest ↔
    (c = bracket ∧ tag? (c :: t) = none ∧ k = n ∧ rest = t) ∨ Stray t k rest := by
  constructor
  · generalize same : backslashes n ++ c :: t = u
    intro stray
    cases stray with
    | here notTag =>
      obtain ⟨rfl, rfl, rfl⟩ := (backslashes_cons_inj plain (by decide)).1 same
      exact .inl ⟨rfl, notTag, rfl, rfl⟩
    | later _ plain' stray =>
      obtain ⟨rfl, rfl, rfl⟩ := (backslashes_cons_inj plain plain').1 same
      exact .inr stray
  · rintro (⟨rfl, notTag, rfl, rfl⟩ | stray)
    · exact .here notTag
    · exact .later n plain stray

/-- Up to a code point that is none, there may be no bracket. -/
theorem stray_append_cons (noBracket : ∀ d ∈ u, d ≠ bracket) (other : c ≠ bracket)
    (plain : isBackslash c = false) :
    Stray (backslashes n ++ (u ++ c :: t)) k rest ↔ Stray t k rest := by
  induction u generalizing n with
  | nil => rw [List.nil_append, stray_cons plain, or_iff_right fun h => other h.1]
  | cons d u ih =>
    obtain ⟨first, others⟩ := List.forall_mem_cons.1 noBracket
    by_cases slash : isBackslash d = true
    · have longer : backslashes n ++ (d :: u ++ c :: t) = backslashes (n + 1) ++ (u ++ c :: t) := by
        rw [← backslashes_append_backslashes, of_decide_eq_true slash]
        rfl
      rw [longer, ih others]
    · rw [List.cons_append, stray_cons (by simpa using slash), or_iff_right fun h => first h.1]
      exact ih (n := 0) others

theorem ne_bracket_of_isTagBody (inside : isTagBody c = true) : c ≠ bracket := by
  rintro rfl
  cases inside

theorem IsTag.inside (isTag : IsTag body) : ∀ d ∈ body, isTagBody d = true := by
  cases isTag with
  | mk starts inside => exact List.forall_mem_cons.2 ⟨isTagBody_of_isTagStart starts, inside⟩

theorem stray_tag (isTag : IsTag body) :
    Stray (backslashes n ++ (bracketed body ++ after)) k rest ↔ Stray after k rest := by
  have begins : tag? (bracket :: (body ++ CodePoint.ofChar ']' :: after)) ≠ none := by
    have found := tag?_bracketed isTag after
    rw [← List.nil_append (bracketed body ++ after), append_bracketed] at found
    exact ne_of_eq_of_ne found (Option.some_ne_none _)
  rw [append_bracketed, stray_cons (by decide), or_iff_right fun h => begins h.2.1]
  exact stray_append_cons (n := 0) (fun d hd => ne_bracket_of_isTagBody (isTag.inside d hd))
    (by decide) (by decide)

/-- A backslash stands before a bracket that begins no tag. -/
def Slashed (t : Text) : Prop := ∃ n rest, Stray t (n + 1) rest

/-- A bracket that begins no tag in a text does with what follows. -/
def Reaches (t v : Text) : Prop :=
  ∃ n rest, Stray t n rest ∧ tag? (bracket :: (rest ++ v)) ≠ none

/-- A bracket that begins no tag in a text begins a closing tag with what follows. -/
def Breaks (t v : Text) : Prop :=
  ∃ n rest, Stray t (2 * n) rest ∧ slash ∈ rest.head? ∧ tag? (bracket :: (rest ++ v)) ≠ none

theorem not_slashed_backslashes : ¬Slashed (backslashes n) := fun ⟨_, _, stray⟩ =>
  not_stray_backslashes stray

theorem slashed_other (plain : isBackslash c = false) (notTag : tag? (c :: rest) = none) :
    Slashed (backslashes n ++ c :: rest) ↔ (c = bracket ∧ n ≠ 0) ∨ Slashed rest := by
  simp only [Slashed, stray_cons plain, notTag, true_and, exists_or]
  refine or_congr_left ?_
  cases n <;> simp

theorem slashed_tag (isTag : IsTag body) :
    Slashed (backslashes n ++ (bracketed body ++ after)) ↔ Slashed after := by
  simp only [Slashed, stray_tag isTag]

theorem reaches_other (plain : isBackslash c = false) (notTag : tag? (c :: rest) = none) :
    Reaches (backslashes n ++ c :: rest) v ↔
      tag? (c :: (rest ++ v)) ≠ none ∨ Reaches rest v := by
  have here : tag? (c :: (rest ++ v)) ≠ none → c = bracket := by
    rw [ne_eq, tag?_cons_eq_none_iff]
    tauto
  simp only [Reaches, stray_cons plain, notTag, true_and, or_and_right, exists_or]
  refine or_congr_left ⟨?_, fun begins => ?_⟩
  · rintro ⟨_, _, ⟨rfl, rfl, rfl⟩, begins⟩
    exact begins
  · obtain rfl := here begins
    exact ⟨n, rest, ⟨rfl, rfl, rfl⟩, begins⟩

theorem reaches_tag (isTag : IsTag body) :
    Reaches (backslashes n ++ (bracketed body ++ after)) v ↔ Reaches after v := by
  simp only [Reaches, stray_tag isTag]

theorem breaks_other (plain : isBackslash c = false) (notTag : tag? (c :: rest) = none) :
    Breaks (backslashes n ++ c :: rest) v ↔
      (n % 2 = 0 ∧ slash ∈ rest.head? ∧ tag? (c :: (rest ++ v)) ≠ none) ∨ Breaks rest v := by
  have here : tag? (c :: (rest ++ v)) ≠ none → c = bracket := by
    rw [ne_eq, tag?_cons_eq_none_iff]
    tauto
  simp only [Breaks, stray_cons plain, notTag, true_and, or_and_right, exists_or]
  refine or_congr_left ⟨?_, fun ⟨even, closes, begins⟩ => ?_⟩
  · rintro ⟨m, _, ⟨rfl, rfl, rfl⟩, closes, begins⟩
    exact ⟨by omega, closes, begins⟩
  · obtain rfl := here begins
    exact ⟨n / 2, rest, ⟨rfl, by omega, rfl⟩, closes, begins⟩

theorem breaks_tag (isTag : IsTag body) :
    Breaks (backslashes n ++ (bracketed body ++ after)) v ↔ Breaks after v := by
  simp only [Breaks, stray_tag isTag]

theorem Breaks.reaches (h : Breaks t v) : Reaches t v :=
  let ⟨n, rest, stray, _, begins⟩ := h
  ⟨2 * n, rest, stray, begins⟩

/-- Whether a bracket begins a tag with what follows depends on the first code point and the first
bracket of that. -/
theorem tag?_append_eq_none_iff_of_alike (first : u.head? = v.head?)
    (next : u.find? (!isTagBody ·) = v.find? (!isTagBody ·)) :
    tag? (c :: (rest ++ u)) = none ↔ tag? (c :: (rest ++ v)) = none := by
  simp only [tag?_cons_eq_none_iff, List.head?_append, List.find?_append, first, next]

theorem reaches_iff_of_alike (first : u.head? = v.head?)
    (next : u.find? (!isTagBody ·) = v.find? (!isTagBody ·)) : Reaches t u ↔ Reaches t v := by
  simp only [Reaches, ne_eq, tag?_append_eq_none_iff_of_alike first next]

theorem breaks_iff_of_alike (first : u.head? = v.head?)
    (next : u.find? (!isTagBody ·) = v.find? (!isTagBody ·)) : Breaks t u ↔ Breaks t v := by
  simp only [Breaks, ne_eq, tag?_append_eq_none_iff_of_alike first next]

/-- Nothing reaches what begins with nothing that a tag may begin with and closes no bracket. -/
theorem not_reaches (beyond : ∀ e ∈ v.head?, isTagStart e = false)
    (opens : v.find? (!isTagBody ·) ≠ some (CodePoint.ofChar ']')) : ¬Reaches t v := by
  rintro ⟨n, rest, stray, begins⟩
  have notTag : tag? (bracket :: rest) = none := by
    induction stray with
    | here notTag => exact notTag
    | later _ _ _ ih => exact ih begins
  refine begins (tag?_cons_eq_none_iff.2 ?_)
  rintro ⟨first, ⟨d, hd, starts⟩, closes⟩
  refine tag?_cons_eq_none_iff.1 notTag ⟨first, ⟨d, ?_, starts⟩, ?_⟩
  · rw [List.head?_append] at hd
    rcases Option.or_eq_some_iff.1 hd with own | ⟨-, other⟩
    · exact own
    · rw [beyond d other] at starts
      cases starts
  · rw [List.find?_append] at closes
    rcases Option.or_eq_some_iff.1 closes with own | ⟨-, other⟩
    · exact own
    · exact absurd other opens

end Stray

end SchemaPlugin.Markup
