import SchemaPlugin.Proofs.Text.Escaped

/-!
Tags that begin in one escaped text and end in the next. What shows is then never both texts as they
are, and nothing shows if the tag closes one that is not open.
-/

namespace SchemaPlugin.Markup

variable {c : CodePoint} {t u v y z rest body after : Text} {n k : Nat}

section Crossing

variable {w body : Text} {d : CodePoint}

theorem escapedTags_of_no_bracket (inside : ∀ d ∈ t, isTagBody d = true) : escapedTags t = t := by
  induction t using lexemes_induction with
  | ending n => exact escapedTags_ending n
  | other n c rest plain notTag ih =>
    rw [escapedTags_other notTag plain, ih fun d hd => inside d (by simp [hd])]
  | tag n body after isTag _ => cases inside bracket (by simp [bracketed])

theorem Stray.bracket_mem (stray : Stray t n rest) : bracket ∈ t := by
  induction stray with
  | here => simp
  | later _ _ _ ih => simp [ih]

theorem afterTag_slash (body : Text) (position : Nat) :
    ∃ e, afterTag [] (slash :: body) position = .error e := by
  have name : tagName (slash :: body) = slash :: tagName body := rfl
  rw [afterTag.eq_def, name]
  dsimp only
  rw [if_pos rfl]
  split_ifs with unnamed closes
  · exact ⟨_, rfl⟩
  · cases closes
  · exact ⟨_, rfl⟩

theorem exists_afterTag (starts : isTagStart d = true) (notSlash : d ≠ slash) (body : Text) :
    ∃ openTags, ∀ position, afterTag [] (d :: body) position = .ok openTags := by
  have notEquals : d ≠ CodePoint.ofChar '=' := ne_of_apply_ne isTagStart (by rw [starts]; decide)
  have name : tagName (d :: body) = d :: tagName body :=
    List.takeWhile_cons_of_pos (by simpa using notEquals)
  refine ⟨[normalized (d :: tagName body)], fun position => ?_⟩
  rw [afterTag.eq_def, name]
  exact if_neg notSlash

/-- Where a bracket begins a tag only with what follows, the text after it begins one, and what
follows ends it. -/
theorem exists_of_crossing (notTag : tag? (bracket :: rest) = none)
    (begins : tag? (bracket :: (rest ++ w)) ≠ none)
    (beyond : ∀ e ∈ w.head?, isTagStart e = false) :
    (∃ d rest', rest = d :: rest' ∧ isTagStart d = true ∧ ∀ e ∈ rest, isTagBody e = true) ∧
      ∃ inner after, w = inner ++ CodePoint.ofChar ']' :: after ∧
        ∀ e ∈ inner, isTagBody e = true := by
  rw [ne_eq, tag?_cons_eq_none_iff, not_not] at begins
  obtain ⟨-, ⟨d, hd, starts⟩, closes⟩ := begins
  cases rest with
  | nil =>
    rw [beyond d hd] at starts
    cases starts
  | cons d rest' =>
    cases hd
    have none_ : (d :: rest').find? (!isTagBody ·) = none := by
      rw [tag?_cons_eq_none_iff] at notTag
      cases found : (d :: rest').find? (!isTagBody ·) with
      | none => rfl
      | some e =>
        rw [List.find?_append, found] at closes
        cases closes
        exact absurd ⟨rfl, ⟨d, rfl, starts⟩, found⟩ notTag
    rw [List.find?_append, none_, Option.none_or] at closes
    obtain ⟨-, inner, after, split, inside⟩ := List.find?_eq_some_iff_append.1 closes
    exact ⟨⟨d, rest', rfl, starts, by simpa using none_⟩, inner, after, split,
      by simpa using inside⟩

/-- What follows the bracket that closes one before `w` shows no more than there is of `z`. -/
def Short (w z : Text) : Prop :=
  ∀ after, w.dropWhile isTagBody = CodePoint.ofChar ']' :: after →
    ∀ openTags, ∃ s, ShowsAs openTags after s ∧ s.length ≤ z.length

theorem not_shows_closing (isTag : IsTag (slash :: body)) (n : Nat) (after : Text) :
    ¬Shows [] (backslashes (2 * n) ++ (bracketed (slash :: body) ++ after)) := by
  intro shows
  obtain ⟨s, eq⟩ := shows 0
  obtain ⟨e, failed⟩ := afterTag_slash body (0 + 2 * n)
  rw [lexemes_tag isTag, shown, if_neg (by omega), failed] at eq
  cases eq

/-- A tag that is opened does not show, so that something is missing. -/
theorem crossing_opening (isTag : IsTag (d :: body)) (notSlash : d ≠ slash)
    (rests : ∀ openTags, ∃ s, ShowsAs openTags after s ∧ s.length ≤ z.length) (n : Nat) :
    ¬ShowsAs [] (backslashes (2 * n) ++ (bracketed (d :: body) ++ after))
        (backslashes (2 * n) ++ bracket :: (u ++ z)) ∧
      Shows [] (backslashes (2 * n) ++ (bracketed (d :: body) ++ after)) := by
  have starts : isTagStart d = true := by
    cases isTag
    assumption
  obtain ⟨openTags, next⟩ := exists_afterTag starts notSlash body
  obtain ⟨s, shows, le⟩ := rests openTags
  have leads : LeadsTo [] (backslashes (2 * n) ++ (bracketed (d :: body) ++ after))
      (backslashes n) openTags after := leadsTo_even isTag next n
  refine ⟨fun showsAs => ?_, leads.shows_iff.2 (shows_iff.2 ⟨s, shows⟩)⟩
  obtain ⟨s', shows', eq⟩ := leads.showsAs_iff.1 showsAs
  obtain rfl : s' = s := Except.ok.inj (shows'.symm.trans shows)
  have count := congrArg List.length eq
  simp only [backslashes, List.length_append, List.length_replicate, List.length_cons] at count
  omega

/-- A tag behind an odd number of backslashes shows, but not all the backslashes do. -/
theorem crossing_odd (isTag : IsTag body)
    (rests : ∀ openTags, ∃ s, ShowsAs openTags after s ∧ s.length ≤ z.length) (n : Nat) :
    ¬ShowsAs [] (backslashes (2 * n + 1) ++ (bracketed body ++ after))
        (backslashes (2 * n + 1) ++ bracket :: u) ∧
      Shows [] (backslashes (2 * n + 1) ++ (bracketed body ++ after)) := by
  obtain ⟨s, shows, -⟩ := rests []
  have leads : LeadsTo [] (backslashes (2 * n + 1) ++ (bracketed body ++ after)) _ [] after :=
    leadsTo_odd isTag n
  refine ⟨fun showsAs => ?_, leads.shows_iff.2 (shows_iff.2 ⟨s, shows⟩)⟩
  obtain ⟨s', -, eq⟩ := leads.showsAs_iff.1 showsAs
  rw [List.append_assoc, append_bracketed, backslashes_cons_inj (by decide) (by decide)] at eq
  omega

/-- A text is not shown as it is if a bracket of it begins a tag with what follows. It is shown at
all unless that tag closes one. -/
theorem crossing_here (notTag : tag? (bracket :: rest) = none)
    (begins : tag? (bracket :: (rest ++ w)) ≠ none) (beyond : ∀ e ∈ w.head?, isTagStart e = false)
    (short : Short w z) (n m : Nat) :
    ¬ShowsAs [] (backslashes n ++ bracket :: (rest ++ (backslashes m ++ w)))
        (backslashes n ++ bracket :: (rest ++ z)) ∧
      (Shows [] (backslashes n ++ bracket :: (rest ++ (backslashes m ++ w))) ↔
        ¬(n % 2 = 0 ∧ slash ∈ rest.head?)) := by
  obtain ⟨⟨d, rest', rfl, starts, inside⟩, inner, after, rfl, inside'⟩ :=
    exists_of_crossing notTag begins beyond
  have rests := short after (by
    rw [List.dropWhile_append_of_pos inside', List.dropWhile_cons_of_neg (by decide)])
  let body := rest' ++ backslashes m ++ inner
  have isTag : IsTag (d :: body) := by
    refine .mk starts ?_
    simp only [body, List.forall_mem_append]
    exact ⟨⟨(List.forall_mem_cons.1 inside).2, fun e he => by
      rw [List.eq_of_mem_replicate he]; decide⟩, inside'⟩
  have shape : backslashes n ++ bracket :: (d :: rest' ++ (backslashes m ++ (inner ++
      CodePoint.ofChar ']' :: after))) = backslashes n ++ (bracketed (d :: body) ++ after) := by
    simp [append_bracketed, body]
  rw [shape]
  obtain ⟨k, rfl | rfl⟩ : ∃ k, n = 2 * k ∨ n = 2 * k + 1 := ⟨n / 2, by omega⟩
  · by_cases closes : d = slash
    · subst closes
      have fails := not_shows_closing isTag k after
      exact ⟨fun showsAs => fails (shows_iff.2 ⟨_, showsAs⟩), iff_of_false fails (by simp)⟩
    · obtain ⟨differs, shows⟩ := crossing_opening (u := d :: rest') isTag closes rests k
      exact ⟨differs, iff_of_true shows (by simpa using closes)⟩
  · obtain ⟨differs, shows⟩ := crossing_odd (u := d :: rest' ++ z) isTag rests k
    exact ⟨differs, iff_of_true shows (by omega)⟩

/-- Two texts are not shown as they are if the first one reaches into the second. -/
theorem crossing (reaches : Reaches t w) (beyond : ∀ e ∈ w.head?, isTagStart e = false)
    (short : Short w z) (m : Nat) :
    ¬ShowsAs [] (escapedTags t ++ (backslashes m ++ w)) (t ++ z) ∧
      (Shows [] (escapedTags t ++ (backslashes m ++ w)) ↔ ¬Breaks t w) := by
  induction t using lexemes_induction with
  | ending n =>
    obtain ⟨_, _, stray, _⟩ := reaches
    exact absurd stray not_stray_backslashes
  | other n c rest plain notTag ih =>
    rw [reaches_other plain notTag] at reaches
    rw [escapedTags_other notTag plain, breaks_other plain notTag, List.append_assoc,
      List.append_assoc, List.cons_append, List.cons_append]
    by_cases begins : tag? (c :: (rest ++ w)) = none
    · obtain ⟨differs, shows⟩ := ih (reaches.resolve_left (not_not.2 begins))
      have leads : LeadsTo [] _ _ [] (escapedTags rest ++ (backslashes m ++ w)) :=
        leadsTo_other (tag?_cons_escapedTags begins beyond m) plain n
      rw [leads.shows_iff, shows, or_iff_right fun h => h.2.2 begins]
      refine ⟨fun showsAs => ?_, Iff.rfl⟩
      obtain ⟨s, shows', eq⟩ := leads.showsAs_iff.1 showsAs
      rw [List.append_assoc, List.singleton_append, backslashes_cons_inj plain plain] at eq
      exact differs (eq.2.2 ▸ shows')
    · obtain rfl : c = bracket := by
        rw [tag?_cons_eq_none_iff, not_not] at begins
        exact begins.1
      -- This is the last bracket of the text.
      have inside := (exists_of_crossing notTag begins beyond).1
      have last : ¬Breaks rest w := by
        rintro ⟨_, _, stray, _⟩
        obtain ⟨_, _, -, -, inside⟩ := inside
        cases inside bracket stray.bracket_mem
      obtain ⟨_, _, -, -, inside⟩ := inside
      rw [escapedTags_of_no_bracket inside, or_iff_left last]
      have here := crossing_here notTag begins beyond short n m
      refine ⟨here.1, here.2.trans (not_congr (and_congr_right' ?_))⟩
      exact (and_iff_left begins).symm
  | tag n body after isTag ih =>
    rw [reaches_tag isTag] at reaches
    obtain ⟨differs, shows⟩ := ih reaches
    have leads : LeadsTo [] _ _ [] (escapedTags after ++ (backslashes m ++ w)) :=
      leadsTo_odd isTag n
    rw [escapedTags_tag isTag, breaks_tag isTag, List.append_assoc, List.append_assoc,
      List.append_assoc, List.append_assoc, leads.shows_iff]
    refine ⟨fun showsAs => ?_, shows⟩
    obtain ⟨s, shows', eq⟩ := leads.showsAs_iff.1 showsAs
    rw [List.append_assoc, List.append_right_inj, List.append_right_inj] at eq
    exact differs (eq ▸ shows')

theorem find?_escape (t : Text) : (escape t).find? (!isTagBody ·) = t.find? (!isTagBody ·) := by
  obtain ⟨n, -, eq⟩ := escape_eq t
  have nothing := find?_backslashes n []
  rw [List.append_nil] at nothing
  rw [eq, List.find?_append, find?_escapedTags, nothing, List.find?_nil, Option.or_none]

theorem dropWhile_isTagBody_backslashes (n : Nat) (t : Text) :
    (backslashes n ++ t).dropWhile isTagBody = t.dropWhile isTagBody := by
  refine List.dropWhile_append_of_pos fun c hc => ?_
  rw [List.eq_of_mem_replicate hc]
  decide

theorem dropWhile_escapedTags
    (closes : (escapedTags t ++ backslashes n).dropWhile isTagBody =
      CodePoint.ofChar ']' :: after) :
    ∃ rest, t.dropWhile isTagBody = CodePoint.ofChar ']' :: rest ∧ trailing t = trailing rest ∧
      after = escapedTags rest ++ backslashes n := by
  induction t using lexemes_induction with
  | ending k =>
    have nothing := dropWhile_isTagBody_backslashes n []
    rw [List.append_nil] at nothing
    rw [escapedTags_ending, dropWhile_isTagBody_backslashes, nothing] at closes
    cases closes
  | other k c rest plain notTag ih =>
    rw [escapedTags_other notTag plain, List.append_assoc, List.cons_append,
      dropWhile_isTagBody_backslashes] at closes
    rw [dropWhile_isTagBody_backslashes, trailing_append_cons plain]
    by_cases inside : isTagBody c = true
    · rw [List.dropWhile_cons_of_pos inside] at closes ⊢
      exact ih closes
    · rw [List.dropWhile_cons_of_neg inside] at closes ⊢
      obtain ⟨rfl, rfl⟩ := List.cons.inj closes
      exact ⟨rest, rfl, rfl, rfl⟩
  | tag k body after' isTag _ =>
    rw [escapedTags_tag isTag, List.append_assoc, dropWhile_isTagBody_backslashes] at closes
    cases closes

/-- What follows the closing bracket that a text has before any other bracket is escaped alone. -/
theorem dropWhile_escape (closes : (escape t).dropWhile isTagBody = CodePoint.ofChar ']' :: after) :
    ∃ rest, t.dropWhile isTagBody = CodePoint.ofChar ']' :: rest ∧ after = escape rest := by
  obtain ⟨n, count, eq⟩ := escape_eq t
  obtain ⟨rest, split, same, rfl⟩ := dropWhile_escapedTags (eq ▸ closes)
  obtain ⟨n', count', eq'⟩ := escape_eq rest
  rw [ended, same, ← ended, ← count', Nat.add_left_cancel_iff] at count
  exact ⟨rest, split, by rw [eq', count]⟩

/-- The escaped form of a text shows at most one backslash too many. -/
theorem exists_showsAs_escape (t : Text) (openTags : List Text) :
    ∃ s, ShowsAs openTags (escape t) s ∧ s.length ≤ t.length + 1 := by
  have leads : LeadsTo openTags (escape t ++ []) (kept t) openTags (backslashes (ended t) ++ []) :=
    leadsTo_escape (not_reaches nofun nofun) nofun
  rw [List.append_nil, List.append_nil] at leads
  refine ⟨_, leads.showsAs_iff.2 ⟨_, showsAs_backslashes.2 rfl, rfl⟩, ?_⟩
  have le := length_kept_le t
  rw [backslashes, List.length_append, List.length_replicate, ended]
  split_ifs <;> omega

theorem crossing_escape (reaches : Reaches t w) (beyond : ∀ e ∈ w.head?, isTagStart e = false)
    (short : Short w z) :
    ¬ShowsAs [] (escape t ++ w) (t ++ z) ∧ (Shows [] (escape t ++ w) ↔ ¬Breaks t w) := by
  obtain ⟨n, -, eq⟩ := escape_eq t
  rw [eq, List.append_assoc]
  exact crossing reaches beyond short n

end Crossing

end SchemaPlugin.Markup
