import Mathlib.Data.List.TakeWhile
import SchemaPlugin.Console
import SchemaPlugin.Proofs.Basic

/-!
Marked-up texts, lexeme by lexeme, and what escaping makes of them. A markup can be shown if it has
no closing tag with nothing to close.
-/

namespace SchemaPlugin.Markup

/-- What stands between the brackets of a tag. -/
inductive IsTag : Text → Prop
  | mk {c : CodePoint} {rest : Text} (starts : isTagStart c = true)
      (inside : ∀ d ∈ rest, isTagBody d = true) : IsTag (c :: rest)

section Lexemes

variable {c : CodePoint} {t u body after rest : Text}

theorem tag?_bracketed (isTag : IsTag body) (after : Text) :
    tag? (bracketed body ++ after) = some (body, after) := by
  cases isTag with
  | @mk c rest starts inside =>
    have shape : bracketed (c :: rest) ++ after =
        bracket :: c :: (rest ++ CodePoint.ofChar ']' :: after) := by
      simp [bracketed]
    have closing : isTagBody (CodePoint.ofChar ']') = false := rfl
    rw [shape, tag?, if_pos ⟨rfl, starts⟩, List.dropWhile_append_of_pos inside,
      List.dropWhile_cons_of_neg (by simp [closing]), List.takeWhile_append_of_pos inside,
      List.takeWhile_cons_of_neg (by simp [closing]), List.append_nil]
    rfl

theorem eq_bracketed_of_tag? (h : tag? t = some (body, after)) :
    IsTag body ∧ t = bracketed body ++ after := by
  unfold tag? at h
  split at h
  · rename_i c d rest
    split at h
    · obtain ⟨rfl, starts⟩ := ‹c = bracket ∧ _›
      split at h
      · cases h
      · rename_i e tail found
        split at h
        · obtain rfl := ‹e = _›
          cases h
          refine ⟨.mk starts fun x hx => List.all_eq_true.1 List.all_takeWhile x hx, ?_⟩
          rw [bracketed, List.cons_append, List.cons_append, List.cons_append, List.cons_append,
            List.append_assoc, List.singleton_append, ← found, List.takeWhile_append_dropWhile]
        · cases h
    · cases h
  · cases h

theorem isTagBody_of_isTagStart (starts : isTagStart c = true) : isTagBody c = true := by
  have notOpening : c ≠ CodePoint.ofChar '[' := ne_of_apply_ne isTagStart (by rw [starts]; decide)
  have notClosing : c ≠ CodePoint.ofChar ']' := ne_of_apply_ne isTagStart (by rw [starts]; decide)
  simp [isTagBody, notOpening, notClosing]

/-- A bracket begins a tag if what follows it can begin one and the next bracket closes it. -/
theorem tag?_cons_eq_none_iff : tag? (c :: rest) = none ↔
    ¬(c = bracket ∧ (∃ d ∈ rest.head?, isTagStart d = true) ∧
      rest.find? (!isTagBody ·) = some (CodePoint.ofChar ']')) := by
  cases rest with
  | nil => simp [tag?]
  | cons d rest =>
    rw [tag?]
    split_ifs with begins
    · have inside : (!isTagBody d) = false := by rw [isTagBody_of_isTagStart begins.2]; rfl
      rw [List.find?_cons_of_neg (by simp [inside]), List.find?_not_eq_head?_dropWhile]
      split
      · rename_i none_
        simp [none_]
      · rename_i e after found
        rw [found]
        simp only [List.head?_cons, Option.mem_some_iff, exists_eq_left', begins, true_and,
          Option.some.injEq]
        split_ifs with closes <;> simp [closes]
    · simp only [List.head?_cons, Option.mem_some_iff, exists_eq_left', true_iff]
      exact fun h => begins ⟨h.1, h.2.1⟩

theorem isBackslash_of_mem_backslashes {n : Nat} : ∀ c ∈ backslashes n, isBackslash c = true := by
  intro c hc
  rw [List.eq_of_mem_replicate hc]
  rfl

theorem length_takeWhile_backslashes (n : Nat) (stop : ∀ c ∈ u.head?, isBackslash c = false) :
    ((backslashes n ++ u).takeWhile isBackslash).length = n := by
  rw [List.takeWhile_append_of_pos isBackslash_of_mem_backslashes]
  cases u with
  | nil => simp [backslashes]
  | cons c rest => simp [List.takeWhile_cons_of_neg, stop c rfl, backslashes]

theorem dropWhile_backslashes (n : Nat) (stop : ∀ c ∈ u.head?, isBackslash c = false) :
    (backslashes n ++ u).dropWhile isBackslash = u := by
  rw [List.dropWhile_append_of_pos isBackslash_of_mem_backslashes]
  cases u with
  | nil => rfl
  | cons c rest => simp [List.dropWhile_cons_of_neg, stop c rfl]

theorem lexemes_tag (isTag : IsTag body) (n : Nat) (after : Text) :
    lexemes (backslashes n ++ (bracketed body ++ after)) = .tag n body :: lexemes after := by
  have stop : ∀ c ∈ (bracketed body ++ after).head?, isBackslash c = false := by
    rintro _ ⟨⟩
    rfl
  have found : tag? ((backslashes n ++ (bracketed body ++ after)).dropWhile isBackslash) =
      some (body, after) := by
    rw [dropWhile_backslashes n stop, tag?_bracketed isTag]
  rw [lexemes]
  split
  · rename_i body' after' h
    cases h.symm.trans found
    rw [length_takeWhile_backslashes n stop]
  · rename_i h
    cases h.symm.trans found

theorem lexemes_other (notTag : tag? (c :: rest) = none) (plain : isBackslash c = false) (n : Nat) :
    lexemes (backslashes n ++ c :: rest) = .other n c :: lexemes rest := by
  have stop : ∀ d ∈ (c :: rest).head?, isBackslash d = false := by
    rintro _ ⟨⟩
    exact plain
  have dropped := dropWhile_backslashes n stop
  rw [lexemes]
  split
  · rename_i h
    rw [dropped, notTag] at h
    cases h
  · split
    · rename_i h
      cases h.symm.trans dropped
    · rename_i h
      cases h.symm.trans dropped
      rw [length_takeWhile_backslashes n stop]

theorem lexemes_ending (n : Nat) : lexemes (backslashes n) = [.ending n] := by
  have stop : ∀ d ∈ ([] : Text).head?, isBackslash d = false := nofun
  have taken := length_takeWhile_backslashes n stop
  have dropped := dropWhile_backslashes n stop
  rw [List.append_nil] at taken dropped
  rw [lexemes]
  split
  · rename_i h
    rw [dropped] at h
    cases h
  · split
    · rw [taken]
    · rename_i h
      cases h.symm.trans dropped

/-- A text is read lexeme by lexeme. -/
@[elab_as_elim]
theorem lexemes_induction {P : Text → Prop} (ending : ∀ n, P (backslashes n))
    (other : ∀ n c rest, isBackslash c = false → tag? (c :: rest) = none → P rest →
      P (backslashes n ++ c :: rest))
    (tag : ∀ n body after, IsTag body → P after → P (backslashes n ++ (bracketed body ++ after)))
    (t : Text) : P t := by
  -- A tag and any other lexeme take code points, so that less is left after them.
  induction h : t.length using Nat.strongRecOn generalizing t with
  | _ n ih =>
    have slashes : t.takeWhile isBackslash = backslashes (t.takeWhile isBackslash).length := by
      refine List.eq_replicate_iff.2 ⟨rfl, fun c hc => ?_⟩
      have all := List.all_eq_true.1 List.all_takeWhile c hc
      simpa [isBackslash] using all
    have whole : t = backslashes (t.takeWhile isBackslash).length ++ t.dropWhile isBackslash := by
      rw [← slashes, List.takeWhile_append_dropWhile]
    generalize (t.takeWhile isBackslash).length = k at whole
    cases found : tag? (t.dropWhile isBackslash) with
    | some parts =>
      obtain ⟨body, after⟩ := parts
      obtain ⟨isTag, eq⟩ := eq_bracketed_of_tag? found
      rw [eq] at whole
      rw [whole]
      refine tag k body after isTag (ih after.length ?_ after rfl)
      rw [← h, whole]
      simp only [bracketed, List.length_append, List.length_cons]
      omega
    | none =>
      cases left : t.dropWhile isBackslash with
      | nil =>
        rw [left, List.append_nil] at whole
        rw [whole]
        exact ending k
      | cons c rest =>
        rw [left] at whole found
        have plain : isBackslash c = false := by
          have := List.head_dropWhile_not isBackslash (l := t) (by simp [left])
          simpa [left] using this
        rw [whole]
        refine other k c rest plain found (ih rest.length ?_ rest rfl)
        rw [← h, whole, List.length_append, List.length_cons]
        omega

end Lexemes

section Escaped

variable {t u v rest body after : Text} {openTags : List Text}

/-- The text with its tags made to show. -/
def escapedTags (t : Text) : Text := (lexemes t).flatMap Lexeme.escaped

theorem escapedTags_ending (n : Nat) : escapedTags (backslashes n) = backslashes n := by
  rw [escapedTags, lexemes_ending]
  exact List.append_nil _

theorem escapedTags_other {c : CodePoint} (notTag : tag? (c :: rest) = none)
    (plain : isBackslash c = false) (n : Nat) :
    escapedTags (backslashes n ++ c :: rest) = backslashes n ++ c :: escapedTags rest := by
  rw [escapedTags, lexemes_other notTag plain, List.flatMap_cons, Lexeme.escaped, List.append_assoc]
  rfl

theorem escapedTags_tag (isTag : IsTag body) (n : Nat) (after : Text) :
    escapedTags (backslashes n ++ (bracketed body ++ after)) =
      backslashes (2 * n + 1) ++ (bracketed body ++ escapedTags after) := by
  rw [escapedTags, lexemes_tag isTag, List.flatMap_cons, Lexeme.escaped, List.append_assoc]
  rfl

theorem find?_backslashes (n : Nat) (t : Text) :
    (backslashes n ++ t).find? (!isTagBody ·) = t.find? (!isTagBody ·) := by
  have none_ : (backslashes n).find? (!isTagBody ·) = none := by
    refine List.find?_eq_none.2 fun c hc => ?_
    rw [List.eq_of_mem_replicate hc]
    decide
  rw [List.find?_append, none_, Option.none_or]

/-- The brackets of a text are those of its escaped form. -/
theorem find?_escapedTags (t : Text) :
    (escapedTags t).find? (!isTagBody ·) = t.find? (!isTagBody ·) := by
  induction t using lexemes_induction with
  | ending n => rw [escapedTags_ending]
  | other n c rest plain notTag ih =>
    rw [escapedTags_other notTag plain, find?_backslashes, find?_backslashes, List.find?_cons,
      List.find?_cons, ih]
  | tag n body after isTag ih =>
    rw [escapedTags_tag isTag, find?_backslashes, find?_backslashes]
    rfl

theorem not_isTagStart_of_backslashes {n : Nat} {d : CodePoint}
    (hd : d ∈ (backslashes (n + 1) ++ u).head?) : isTagStart d = false := by
  cases hd
  rfl

/-- What can begin a tag at the beginning of the escaped form does so in the text. -/
theorem mem_head?_of_escapedTags {d : CodePoint} (beyond : ∀ e ∈ u.head?, isTagStart e = false)
    (hd : d ∈ (escapedTags t ++ u).head?) (starts : isTagStart d = true) : d ∈ t.head? := by
  have never (h : isTagStart d = false) : d ∈ t.head? := by
    rw [h] at starts
    cases starts
  induction t using lexemes_induction with
  | ending n =>
    rw [escapedTags_ending] at hd
    cases n with
    | zero => exact never (beyond d hd)
    | succ n => exact never (not_isTagStart_of_backslashes hd)
  | other n c rest plain notTag _ =>
    rw [escapedTags_other notTag plain, List.append_assoc] at hd
    cases n with
    | zero => exact hd
    | succ n => exact never (not_isTagStart_of_backslashes hd)
  | tag n body after isTag _ =>
    rw [escapedTags_tag isTag, List.append_assoc] at hd
    exact never (not_isTagStart_of_backslashes hd)

/-- Whatever its position, the markup shows with these tags open. -/
def Shows (openTags : List Text) (markup : Text) : Prop :=
  ∀ position, ∃ t, shown position openTags (lexemes markup) = .ok t

theorem shows_ending (n : Nat) : Shows openTags (backslashes n) := by
  intro position
  rw [lexemes_ending]
  exact ⟨_, rfl⟩

theorem Shows.other {c : CodePoint} (shows : Shows openTags rest) (notTag : tag? (c :: rest) = none)
    (plain : isBackslash c = false) (n : Nat) : Shows openTags (backslashes n ++ c :: rest) := by
  intro position
  obtain ⟨t, eq⟩ := shows (position + n + 1)
  rw [lexemes_other notTag plain, shown, eq]
  exact ⟨_, rfl⟩

/-- After an odd number of backslashes a tag shows; after an even number it counts. -/
theorem Shows.tag (isTag : IsTag body) {n : Nat} (odd : n % 2 = 1 → Shows openTags after)
    (even : n % 2 = 0 → ∃ openTags', (∀ position, afterTag openTags body position = .ok openTags') ∧
      Shows openTags' after) :
    Shows openTags (backslashes n ++ (bracketed body ++ after)) := by
  intro position
  rw [lexemes_tag isTag, shown]
  split_ifs with parity
  · obtain ⟨t, eq⟩ := odd parity (position + n + body.length + 2)
    rw [eq]
    exact ⟨_, rfl⟩
  · obtain ⟨openTags', next, shows⟩ := even (by omega)
    obtain ⟨t, eq⟩ := shows (position + n + body.length + 2)
    rw [next, ok_bind, eq]
    exact ⟨_, rfl⟩

/-- A tag with no backslash before it counts. -/
theorem Shows.bracketed {openTags' : List Text} (isTag : IsTag body)
    (next : ∀ position, afterTag openTags body position = .ok openTags')
    (shows : Shows openTags' after) : Shows openTags (bracketed body ++ after) :=
  have even : Shows openTags (backslashes 0 ++ (Markup.bracketed body ++ after)) :=
    .tag isTag nofun fun _ => ⟨openTags', next, shows⟩
  even

/-- Where a bracket begins no tag with a text and what follows it, it begins none either when the
text is escaped, and backslashes follow it. -/
theorem tag?_cons_escapedTags {c : CodePoint} (notTag : tag? (c :: (t ++ v)) = none)
    (beyond : ∀ e ∈ v.head?, isTagStart e = false) (n : Nat) :
    tag? (c :: (escapedTags t ++ (backslashes n ++ v))) = none := by
  have beyond' : ∀ e ∈ (backslashes n ++ v).head?, isTagStart e = false := by
    cases n with
    | zero => exact beyond
    | succ n => exact fun e he => not_isTagStart_of_backslashes he
  rw [tag?_cons_eq_none_iff] at notTag ⊢
  rintro ⟨first, ⟨d, hd, starts⟩, closes⟩
  -- To escape adds nothing but backslashes, so that the next bracket is the one that it was.
  rw [List.find?_append, find?_escapedTags, find?_backslashes, ← List.find?_append] at closes
  have own : d ∈ t.head? := mem_head?_of_escapedTags beyond' hd starts
  exact notTag ⟨first, ⟨d, List.mem_head?_append_of_mem_head? own, starts⟩, closes⟩

/-- A text without an opening bracket or a backslash. -/
def Unmarked (t : Text) : Prop := ∀ c ∈ t, c ≠ bracket ∧ isBackslash c = false

instance (t : Text) : Decidable (Unmarked t) := inferInstanceAs (Decidable (∀ c ∈ t, _))

theorem Unmarked.shows_append (unmarked : Unmarked u) (shows : Shows openTags t) :
    Shows openTags (u ++ t) := by
  induction u with
  | nil => exact shows
  | cons c u ih =>
    obtain ⟨⟨noTag, plain⟩, others⟩ := List.forall_mem_cons.1 unmarked
    have notTag : tag? (c :: (u ++ t)) = none := tag?_cons_eq_none_iff.2 fun h => noTag h.1
    exact (ih others).other notTag plain 0

theorem Unmarked.shows (unmarked : Unmarked t) : Shows openTags t := by
  have nothing : Shows openTags (t ++ backslashes 0) := unmarked.shows_append (shows_ending 0)
  rwa [show backslashes 0 = [] from rfl, List.append_nil] at nothing

theorem Shows.exists_printUnbroken {markup : Text} (shows : Shows [] markup) :
    ∃ t, Console.printUnbroken markup = .ok t := by
  obtain ⟨t, eq⟩ := shows 0
  exact ⟨_, bind_eq_ok_iff.2 ⟨_, bind_eq_ok_iff.2 ⟨t, eq, rfl⟩, rfl⟩⟩

end Escaped

end SchemaPlugin.Markup
