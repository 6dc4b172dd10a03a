import SchemaPlugin.Proofs.Document.Literals
import SchemaPlugin.Proofs.Text.Stray

/-!
What escaping keeps. The escaped form of a text shows that text, but for the backslash before a
bracket that begins no tag, and for backslashes at its end, which reach what follows.
-/

namespace SchemaPlugin.Markup

variable {c : CodePoint} {t u v y z rest body after : Text} {n k : Nat}

section Kept

/-- What shows of the escaped form of a lexeme, up to the backslashes that a text ends with. -/
def Lexeme.kept : Lexeme → Text
  | tag slashes body => backslashes slashes ++ bracketed body
  | other slashes c => backslashes (if c = bracket then slashes - 1 else slashes) ++ [c]
  | ending _ => []

/-- What shows of the escaped form of a text, up to the backslashes that it ends with. -/
def kept (t : Text) : Text := (lexemes t).flatMap Lexeme.kept

theorem kept_ending (n : Nat) : kept (backslashes n) = [] := by
  rw [kept, lexemes_ending]
  rfl

theorem kept_other (notTag : tag? (c :: rest) = none) (plain : isBackslash c = false) (n : Nat) :
    kept (backslashes n ++ c :: rest) =
      backslashes (if c = bracket then n - 1 else n) ++ c :: kept rest := by
  rw [kept, lexemes_other notTag plain, List.flatMap_cons, Lexeme.kept, List.append_assoc]
  rfl

theorem kept_tag (isTag : IsTag body) (n : Nat) (after : Text) :
    kept (backslashes n ++ (bracketed body ++ after)) =
      backslashes n ++ (bracketed body ++ kept after) := by
  rw [kept, lexemes_tag isTag, List.flatMap_cons, Lexeme.kept, List.append_assoc]
  rfl

/-- What is kept is all but the backslashes at the end if no backslash is lost before a bracket. -/
theorem kept_append_eq_iff :
    kept t ++ y = t ++ z ↔ ¬Slashed t ∧ y = backslashes (trailing t) ++ z := by
  induction t using lexemes_induction with
  | ending n =>
    rw [kept_ending, trailing_backslashes, List.nil_append]
    exact (and_iff_right not_slashed_backslashes).symm
  | other n c rest plain notTag ih =>
    rw [kept_other notTag plain, slashed_other plain notTag, trailing_append_cons plain,
      List.append_assoc, List.append_assoc, List.cons_append, List.cons_append,
      backslashes_cons_inj plain plain, ih]
    split_ifs with first
    · have lost : n - 1 = n ↔ ¬n ≠ 0 := by omega
      rw [lost]
      tauto
    · tauto
  | tag n body after isTag ih =>
    rw [kept_tag isTag, slashed_tag isTag, trailing_tag, List.append_assoc, List.append_assoc,
      List.append_assoc, List.append_assoc, List.append_right_inj, List.append_right_inj, ih]

theorem length_kept_le (t : Text) : (kept t).length + trailing t ≤ t.length := by
  induction t using lexemes_induction with
  | ending n =>
    rw [kept_ending, trailing_backslashes, backslashes, List.length_replicate]
    exact (Nat.zero_add n).le
  | other n c rest plain notTag ih =>
    rw [kept_other notTag plain, trailing_append_cons plain]
    simp only [backslashes, List.length_append, List.length_replicate, List.length_cons]
    split_ifs <;> omega
  | tag n body after isTag ih =>
    rw [kept_tag isTag, trailing_tag]
    simp only [List.length_append]
    omega

theorem trailing_escapedTags (t : Text) : trailing (escapedTags t) = trailing t := by
  induction t using lexemes_induction with
  | ending n => rw [escapedTags_ending]
  | other n c rest plain notTag ih =>
    rw [escapedTags_other notTag plain, trailing_append_cons plain, trailing_append_cons plain, ih]
  | tag n body after isTag ih => rw [escapedTags_tag isTag, trailing_tag, trailing_tag, ih]

/-- How many backslashes the escaped form of a text ends with. -/
def ended (t : Text) : Nat := if trailing t = 1 then 2 else trailing t

theorem escape_eq (t : Text) :
    ∃ n, trailing t + n = ended t ∧ escape t = escapedTags t ++ backslashes n := by
  have same : ((escapedTags t).reverse.takeWhile isBackslash).length = trailing t :=
    trailing_escapedTags t
  rw [escape, ended]
  change ∃ n, _ ∧ (if ((escapedTags t).reverse.takeWhile isBackslash).length = 1 then _ else _) = _
  rw [same]
  split_ifs with one
  · exact ⟨1, by omega, rfl⟩
  · exact ⟨0, rfl, (List.append_nil _).symm⟩

theorem escape_nil : escape [] = [] := by
  obtain ⟨n, count, eq⟩ := escape_eq []
  obtain rfl : n = 0 := by
    change 0 + n = 0 at count
    omega
  rw [eq, show ([] : Text) = backslashes 0 from rfl, escapedTags_ending]
  rfl

theorem escape_ne_nil (ne : t ≠ []) : escape t ≠ [] := by
  obtain ⟨n, -, eq⟩ := escape_eq t
  rw [eq, ne_eq, List.append_eq_nil_iff, not_and_or]
  refine .inl ?_
  induction t using lexemes_induction with
  | ending n => rwa [escapedTags_ending]
  | other n c rest plain notTag _ => simp [escapedTags_other notTag plain]
  | tag n body after isTag _ =>
    rw [escapedTags_tag isTag, append_bracketed]
    exact List.append_ne_nil_of_right_ne_nil _ (List.cons_ne_nil _ _)

theorem eq_backslash_or_mem_of_mem_escape (h : c ∈ escape t) : c = backslash ∨ c ∈ t := by
  have escaped : ∀ d ∈ escapedTags t, d = backslash ∨ d ∈ t := by
    clear h
    induction t using lexemes_induction with
    | ending n => exact fun d hd => .inl (List.eq_of_mem_replicate (escapedTags_ending n ▸ hd))
    | other n c rest plain notTag ih =>
      rw [escapedTags_other notTag plain]
      simp only [List.mem_append, List.mem_cons]
      rintro d (slash | rfl | hd)
      · exact .inl (List.eq_of_mem_replicate slash)
      · exact .inr (.inr (.inl rfl))
      · exact (ih d hd).imp_right fun mem => .inr (.inr mem)
    | tag n body after isTag ih =>
      rw [escapedTags_tag isTag]
      simp only [List.mem_append]
      rintro d (slash | hd | hd)
      · exact .inl (List.eq_of_mem_replicate slash)
      · exact .inr (.inr (.inl hd))
      · exact (ih d hd).imp_right fun mem => .inr (.inr mem)
  obtain ⟨n, -, eq⟩ := escape_eq t
  rw [eq, List.mem_append] at h
  rcases h with h | slash
  · exact escaped c h
  · exact .inl (List.eq_of_mem_replicate slash)

end Kept

section Shown

variable {openTags openTags' : List Text} {s text : Text}

/-- The text that a markup shows, with those tags open. -/
def ShowsAs (openTags : List Text) (markup text : Text) : Prop :=
  shown 0 openTags (lexemes markup) = .ok text

/-- One markup shows as another one does, some text put in front. -/
def LeadsTo (openTags : List Text) (u front : Text) (openTags' : List Text) (v : Text) : Prop :=
  ∀ position, ∃ position', shown position openTags (lexemes u) =
    (shown position' openTags' (lexemes v)).map (front ++ ·)

theorem afterTag_of_position {position position' : Nat}
    (h : afterTag openTags body position = .ok openTags') :
    afterTag openTags body position' = .ok openTags' := by
  unfold afterTag at h ⊢
  split at h
  · split_ifs at h ⊢ with closes named
    · cases openTags with
      | nil => cases h
      | cons _ _ => exact h
    · exact h
    · exact h
  · exact h

/-- The position counts for errors alone. -/
theorem shown_of_position {position position' : Nat} {ls : List Lexeme}
    (h : shown position openTags ls = .ok text) : shown position' openTags ls = .ok text := by
  induction ls generalizing position position' openTags text with
  | nil => exact h
  | cons l ls ih =>
    cases l with
    | ending n =>
      obtain ⟨s, later, eq⟩ := bind_eq_ok_iff.1 h
      exact bind_eq_ok_iff.2 ⟨s, ih later, eq⟩
    | other n c =>
      obtain ⟨s, later, eq⟩ := bind_eq_ok_iff.1 h
      exact bind_eq_ok_iff.2 ⟨s, ih later, eq⟩
    | tag n body =>
      rw [shown] at h ⊢
      split_ifs at h ⊢ with odd
      · obtain ⟨s, later, eq⟩ := bind_eq_ok_iff.1 h
        exact bind_eq_ok_iff.2 ⟨s, ih later, eq⟩
      · obtain ⟨next, opened, rest⟩ := bind_eq_ok_iff.1 h
        obtain ⟨s, later, eq⟩ := bind_eq_ok_iff.1 rest
        exact bind_eq_ok_iff.2 ⟨next, afterTag_of_position opened,
          bind_eq_ok_iff.2 ⟨s, ih later, eq⟩⟩

theorem shows_iff {markup : Text} : Shows openTags markup ↔ ∃ text, ShowsAs openTags markup text :=
  ⟨fun shows => shows 0, fun ⟨text, h⟩ _ => ⟨text, shown_of_position h⟩⟩

theorem LeadsTo.showsAs_iff {front : Text} (leads : LeadsTo openTags u front openTags' v) :
    ShowsAs openTags u text ↔ ∃ s, ShowsAs openTags' v s ∧ text = front ++ s := by
  obtain ⟨position', eq⟩ := leads 0
  rw [ShowsAs, eq]
  constructor
  · intro h
    cases later : shown position' openTags' (lexemes v) with
    | error e => rw [later] at h; cases h
    | ok s =>
      rw [later] at h
      cases h
      exact ⟨s, shown_of_position later, rfl⟩
  · rintro ⟨s, later, rfl⟩
    rw [shown_of_position later]
    rfl

theorem LeadsTo.shows_iff {front : Text} (leads : LeadsTo openTags u front openTags' v) :
    Shows openTags u ↔ Shows openTags' v := by
  simp only [Markup.shows_iff, leads.showsAs_iff]
  exact ⟨fun ⟨_, s, later, _⟩ => ⟨s, later⟩, fun ⟨s, later⟩ => ⟨_, s, later, rfl⟩⟩

theorem LeadsTo.trans {w front front' : Text} {openTags'' : List Text}
    (first : LeadsTo openTags u front openTags' v)
    (next : LeadsTo openTags' v front' openTags'' w) :
    LeadsTo openTags u (front ++ front') openTags'' w := by
  intro position
  obtain ⟨position', eq⟩ := first position
  obtain ⟨position'', eq'⟩ := next position'
  refine ⟨position'', ?_⟩
  rw [eq, eq']
  cases shown position'' openTags'' (lexemes w) with
  | error e => rfl
  | ok s => simp [Except.map]

theorem leadsTo_other (notTag : tag? (c :: rest) = none) (plain : isBackslash c = false) (n : Nat) :
    LeadsTo openTags (backslashes n ++ c :: rest)
      (backslashes (if c = bracket then n - 1 else n) ++ [c]) openTags rest := by
  intro position
  refine ⟨position + n + 1, ?_⟩
  rw [lexemes_other notTag plain, shown]
  cases shown (position + n + 1) openTags (lexemes rest) with
  | error e => rfl
  | ok s => simp [Except.map]

/-- After an odd number of backslashes, a tag shows. -/
theorem leadsTo_odd (isTag : IsTag body) (n : Nat) :
    LeadsTo openTags (backslashes (2 * n + 1) ++ (bracketed body ++ after))
      (backslashes n ++ bracketed body) openTags after := by
  intro position
  refine ⟨position + (2 * n + 1) + body.length + 2, ?_⟩
  have half : (2 * n + 1) / 2 = n := by omega
  rw [lexemes_tag isTag, shown, if_pos (by omega), half]
  cases shown (position + (2 * n + 1) + body.length + 2) openTags (lexemes after) with
  | error e => rfl
  | ok s => simp [Except.map]

/-- After an even number of backslashes, a tag counts. -/
theorem leadsTo_even (isTag : IsTag body)
    (next : ∀ position, afterTag openTags body position = .ok openTags') (n : Nat) :
    LeadsTo openTags (backslashes (2 * n) ++ (bracketed body ++ after)) (backslashes n) openTags'
      after := by
  intro position
  refine ⟨position + 2 * n + body.length + 2, ?_⟩
  have half : 2 * n / 2 = n := by omega
  rw [lexemes_tag isTag, shown, if_neg (by omega), next, ok_bind, half]
  cases shown (position + 2 * n + body.length + 2) openTags' (lexemes after) with
  | error e => rfl
  | ok s => simp [Except.map]

theorem leadsTo_self (openTags : List Text) (t : Text) : LeadsTo openTags t [] openTags t := by
  intro position
  refine ⟨position, ?_⟩
  cases shown position openTags (lexemes t) <;> rfl

/-- The escaped form of a text shows what is kept of it in front of its last backslashes, if no
bracket of it begins a tag with what follows. -/
theorem leadsTo_escapedTags (apart : ¬Reaches t v) (beyond : ∀ e ∈ v.head?, isTagStart e = false)
    (n : Nat) : LeadsTo openTags (escapedTags t ++ (backslashes n ++ v)) (kept t) openTags
      (backslashes (trailing t + n) ++ v) := by
  induction t using lexemes_induction with
  | ending k =>
    rw [escapedTags_ending, backslashes_append_backslashes, kept_ending, trailing_backslashes]
    exact leadsTo_self openTags _
  | other k c rest plain notTag ih =>
    rw [reaches_other plain notTag, not_or, not_not] at apart
    rw [escapedTags_other notTag plain, kept_other notTag plain, trailing_append_cons plain,
      List.append_assoc, List.append_cons]
    exact (leadsTo_other (tag?_cons_escapedTags apart.1 beyond n) plain k).trans (ih apart.2)
  | tag k body after isTag ih =>
    rw [reaches_tag isTag] at apart
    rw [escapedTags_tag isTag, kept_tag isTag, trailing_tag, List.append_assoc, List.append_assoc,
      ← List.append_assoc (backslashes k)]
    exact (leadsTo_odd isTag k).trans (ih apart)

theorem leadsTo_escape (apart : ¬Reaches t v) (beyond : ∀ e ∈ v.head?, isTagStart e = false) :
    LeadsTo openTags (escape t ++ v) (kept t) openTags (backslashes (ended t) ++ v) := by
  obtain ⟨n, count, eq⟩ := escape_eq t
  rw [eq, ← count, List.append_assoc]
  exact leadsTo_escapedTags apart beyond n

/-- The escaped form of a text shows in front of what shows after any backslashes, if that begins
with a bracket. -/
theorem shows_escape_append (t : Text) (begins : ∀ c ∈ v.head?, c = bracket)
    (shows : ∀ n, Shows openTags (backslashes n ++ v)) : Shows openTags (escape t ++ v) := by
  have beyond : ∀ e ∈ v.head?, isTagStart e = false := by
    intro e he
    rw [begins e he]
    rfl
  have opens : v.find? (!isTagBody ·) ≠ some (CodePoint.ofChar ']') := by
    cases v with
    | nil => nofun
    | cons e v =>
      rw [begins e rfl]
      nofun
  exact (leadsTo_escape (not_reaches beyond opens) beyond).shows_iff.2 (shows _)

/-- Whatever a text is, its escaped form shows. -/
theorem shows_escape (t : Text) (openTags : List Text) : Shows openTags (escape t) := by
  have nothing (n : Nat) : Shows openTags (backslashes n ++ []) := by
    rw [List.append_nil]
    exact shows_ending n
  have begins : ∀ c ∈ ([] : Text).head?, c = bracket := nofun
  have shows := shows_escape_append t begins nothing
  rwa [List.append_nil] at shows

end Shown

section Literal

variable {openTags openTags' : List Text} {s text : Text}

theorem showsAs_backslashes : ShowsAs openTags (backslashes n) text ↔ text = backslashes n := by
  rw [ShowsAs, lexemes_ending]
  change Except.ok (backslashes n ++ []) = Except.ok text ↔ _
  rw [List.append_nil, Except.ok.injEq, eq_comm]

theorem showsAs_nil : ShowsAs openTags [] text ↔ text = [] := showsAs_backslashes (n := 0)

theorem leadsTo_plain (noTag : c ≠ bracket) (plain : isBackslash c = false) (rest : Text) :
    LeadsTo openTags (c :: rest) [c] openTags rest := by
  have notTag : tag? (c :: rest) = none := tag?_cons_eq_none_iff.2 fun h => noTag h.1
  have first : LeadsTo openTags (backslashes 0 ++ c :: rest) _ openTags rest :=
    leadsTo_other notTag plain 0
  rwa [if_neg noTag] at first

theorem leadsTo_unmarked (unmarked : Unmarked u) (v : Text) :
    LeadsTo openTags (u ++ v) u openTags v := by
  induction u with
  | nil => exact leadsTo_self openTags v
  | cons c u ih =>
    obtain ⟨⟨noTag, plain⟩, others⟩ := List.forall_mem_cons.1 unmarked
    exact (leadsTo_plain noTag plain (u ++ v)).trans (ih others)

theorem showsAs_unmarked_append (unmarked : Unmarked u) :
    ShowsAs openTags (u ++ v) (u ++ z) ↔ ShowsAs openTags v z := by
  rw [(leadsTo_unmarked unmarked v).showsAs_iff]
  simp

theorem showsAs_unmarked (unmarked : Unmarked u) : ShowsAs openTags u u := by
  have whole : ShowsAs openTags (u ++ []) (u ++ []) ↔ ShowsAs openTags [] [] :=
    showsAs_unmarked_append unmarked
  rw [List.append_nil, showsAs_nil] at whole
  exact whole.2 rfl

theorem leadsTo_bracketed (isTag : IsTag body)
    (next : ∀ position, afterTag openTags body position = .ok openTags') (after : Text) :
    LeadsTo openTags (bracketed body ++ after) [] openTags' after :=
  leadsTo_even isTag next 0

theorem showsAs_bracketed (isTag : IsTag body)
    (next : ∀ position, afterTag openTags body position = .ok openTags') :
    ShowsAs openTags (bracketed body ++ after) text ↔ ShowsAs openTags' after text := by
  rw [(leadsTo_bracketed isTag next after).showsAs_iff]
  simp

theorem unmarked_ofNat (n : Nat) : Unmarked (Text.ofNat n) := by
  intro c hc
  have digit := Text.isDigit_of_mem_ofNat n c hc
  have notBracket : c ≠ bracket := ne_of_apply_ne CodePoint.isDigit (by rw [digit]; decide)
  have notBackslash : c ≠ backslash := ne_of_apply_ne CodePoint.isDigit (by rw [digit]; decide)
  exact ⟨notBracket, by simp [isBackslash, notBackslash]⟩

/-- A text that begins with neither a bracket nor a backslash. -/
def Plainly (t : Text) : Prop := ∀ c ∈ t.head?, c ≠ bracket ∧ isBackslash c = false

theorem Plainly.stop (plainly : Plainly t) : ∀ c ∈ t.head?, isBackslash c = false :=
  fun c hc => (plainly c hc).2

theorem leadsTo_backslashes (plainly : Plainly v) (n : Nat) :
    LeadsTo openTags (backslashes n ++ v) (backslashes n) openTags v := by
  cases v with
  | nil =>
    intro position
    refine ⟨position, ?_⟩
    rw [List.append_nil, lexemes_ending, show ([] : Text) = backslashes 0 from rfl, lexemes_ending]
    rfl
  | cons c rest =>
    obtain ⟨noTag, plain⟩ := plainly c rfl
    have notTag : tag? (c :: rest) = none := tag?_cons_eq_none_iff.2 fun h => noTag h.1
    have alone : lexemes (c :: rest) = .other 0 c :: lexemes rest := lexemes_other notTag plain 0
    intro position
    refine ⟨position + n, ?_⟩
    rw [lexemes_other notTag plain, alone, shown, shown, if_neg noTag, if_neg noTag]
    cases shown (position + n + 1) openTags (lexemes rest) with
    | error e => rfl
    | ok s => rfl

theorem Plainly.shown (plainly : Plainly v) (shows : ShowsAs openTags v s) :
    ∀ c ∈ s.head?, isBackslash c = false := by
  cases v with
  | nil =>
    rw [showsAs_nil.1 shows]
    nofun
  | cons c rest =>
    obtain ⟨noTag, plain⟩ := plainly c rfl
    obtain ⟨s, -, rfl⟩ := (leadsTo_plain noTag plain rest).showsAs_iff.1 shows
    rintro _ ⟨⟩
    exact plain

/-- A text that shows as it is where no tag follows: no backslash of it is lost before a bracket,
and none is gained at its end. -/
def Literal (t : Text) : Prop := ¬Slashed t ∧ trailing t ≠ 1

/-- A text that shows as it is in front of a tag. -/
def LiteralBeforeTag (t : Text) : Prop := ¬Slashed t ∧ trailing t ≤ 1

theorem showsAs_escape_append (apart : ¬Reaches t v) (beyond : ∀ e ∈ v.head?, isTagStart e = false)
    (plainly : Plainly v) (stop : ∀ c ∈ z.head?, isBackslash c = false) :
    ShowsAs openTags (escape t ++ v) (t ++ z) ↔ Literal t ∧ ShowsAs openTags v z := by
  have same : ended t = trailing t ↔ trailing t ≠ 1 := by
    rw [ended]
    split_ifs <;> omega
  have shape : LeadsTo openTags (escape t ++ v) (kept t ++ backslashes (ended t)) openTags v :=
    (leadsTo_escape apart beyond).trans (leadsTo_backslashes plainly _)
  rw [shape.showsAs_iff]
  constructor
  · rintro ⟨s, shows, eq⟩
    rw [List.append_assoc, eq_comm, kept_append_eq_iff,
      backslashes_append_inj (plainly.shown shows) stop, same] at eq
    obtain ⟨free, whole, rfl⟩ := eq
    exact ⟨⟨free, whole⟩, shows⟩
  · rintro ⟨⟨free, whole⟩, shows⟩
    refine ⟨z, shows, ?_⟩
    rw [List.append_assoc, eq_comm, kept_append_eq_iff, same.2 whole]
    exact ⟨free, rfl⟩

/-- In front of a tag, two backslashes for one at the end of a text are right, and other numbers of
them show as half as many or make the tag show. -/
theorem showsAs_escape_tag (isTag : IsTag body)
    (next : ∀ position, afterTag openTags body position = .ok openTags') (plainly : Plainly v)
    (stop : ∀ c ∈ z.head?, isBackslash c = false) :
    ShowsAs openTags (escape t ++ (bracketed body ++ v)) (t ++ z) ↔
      LiteralBeforeTag t ∧ ShowsAs openTags' v z := by
  have beyond : ∀ e ∈ (bracketed body ++ v).head?, isTagStart e = false := by
    rintro _ ⟨⟩
    rfl
  have apart : ¬Reaches t (bracketed body ++ v) := not_reaches beyond nofun
  rw [(leadsTo_escape apart beyond).showsAs_iff]
  obtain ⟨n, even | odd⟩ : ∃ n, ended t = 2 * n ∨ ended t = 2 * n + 1 :=
    ⟨ended t / 2, by omega⟩
  · have half : n = trailing t ↔ trailing t ≤ 1 := by
      rw [ended] at even
      split_ifs at even <;> omega
    rw [even]
    simp only [(leadsTo_even isTag next n).showsAs_iff]
    constructor
    · rintro ⟨_, ⟨s, shows, rfl⟩, eq⟩
      rw [eq_comm, kept_append_eq_iff, backslashes_append_inj (plainly.shown shows) stop,
        half] at eq
      obtain ⟨free, whole, rfl⟩ := eq
      exact ⟨⟨free, whole⟩, shows⟩
    · rintro ⟨⟨free, whole⟩, shows⟩
      refine ⟨_, ⟨z, shows, rfl⟩, ?_⟩
      rw [eq_comm, kept_append_eq_iff, half.2 whole]
      exact ⟨free, rfl⟩
  · -- The tag shows: after fewer backslashes than there are, and none of them is the last.
    have more : n ≠ trailing t ∧ ¬trailing t ≤ 1 := by
      rw [ended] at odd
      split_ifs at odd <;> omega
    rw [odd]
    simp only [(leadsTo_odd isTag n).showsAs_iff]
    constructor
    · rintro ⟨_, ⟨s, -, rfl⟩, eq⟩
      rw [eq_comm, kept_append_eq_iff, List.append_assoc,
        backslashes_append_inj (by rintro _ ⟨⟩; rfl) stop] at eq
      exact absurd eq.2.1 more.1
    · exact fun h => absurd h.1.2 more.2

end Literal

section Plain

variable {openTags : List Text} {markup s : Text}

/-- Every code point of a text can show. -/
def Visible (t : Text) : Prop := ∀ c ∈ t, isControl c = false

instance (t : Text) : Decidable (Visible t) := inferInstanceAs (Decidable (∀ c ∈ t, _))

/-- Nothing shows that is not in the markup. -/
theorem ShowsAs.mem (shows : ShowsAs openTags markup s) : ∀ c ∈ s, c = backslash ∨ c ∈ markup := by
  induction markup using lexemes_induction generalizing openTags s with
  | ending n =>
    obtain rfl := showsAs_backslashes.1 shows
    exact fun c hc => .inl (List.eq_of_mem_replicate hc)
  | other n c rest plain notTag ih =>
    obtain ⟨s, later, rfl⟩ := (leadsTo_other notTag plain n).showsAs_iff.1 shows
    simp only [List.mem_append, List.mem_cons, List.not_mem_nil, or_false]
    rintro d ((slash | rfl) | hd)
    · exact .inl (List.eq_of_mem_replicate slash)
    · exact .inr (.inr (.inl rfl))
    · exact (ih later d hd).imp_right fun mem => .inr (.inr mem)
  | tag n body after isTag ih =>
    simp only [List.mem_append]
    obtain ⟨k, rfl | rfl⟩ : ∃ k, n = 2 * k ∨ n = 2 * k + 1 := ⟨n / 2, by omega⟩
    · rw [ShowsAs, lexemes_tag isTag, shown, if_neg (by omega)] at shows
      obtain ⟨_, -, counts⟩ := bind_eq_ok_iff.1 shows
      obtain ⟨s, later, eq⟩ := bind_eq_ok_iff.1 counts
      cases eq
      intro d hd
      rcases List.mem_append.1 hd with slash | hd
      · exact .inl (List.eq_of_mem_replicate slash)
      · exact (ih (shown_of_position later) d hd).imp_right fun mem => .inr (.inr mem)
    · obtain ⟨s, later, rfl⟩ := (leadsTo_odd isTag k).showsAs_iff.1 shows
      simp only [List.mem_append]
      rintro d ((slash | hd) | hd)
      · exact .inl (List.eq_of_mem_replicate slash)
      · exact .inr (.inr (.inl hd))
      · exact (ih later d hd).imp_right fun mem => .inr (.inr mem)

theorem mem_of_plain (shows : plain markup = .ok s) : ∀ c ∈ s, c = backslash ∨ c ∈ markup := by
  obtain ⟨whole, shown, eq⟩ := bind_eq_ok_iff.1 shows
  cases eq
  exact fun c hc => ShowsAs.mem shown c (List.mem_filter.1 hc).1

/-- A markup that only the text makes invisible in part shows just that if it shows at all. -/
theorem plain_eq_ok_iff (own : Visible s → Visible markup) :
    plain markup = .ok s ↔ Visible s ∧ ShowsAs [] markup s := by
  rw [plain, bind_eq_ok_iff]
  constructor
  · rintro ⟨s', shows, eq⟩
    have filtered : s'.filter (!isControl ·) = s := Except.ok.inj eq
    have visible : Visible s := by
      intro c hc
      rw [← filtered] at hc
      simpa using (List.mem_filter.1 hc).2
    have whole : s'.filter (!isControl ·) = s' := by
      refine List.filter_eq_self.2 fun c hc => ?_
      rcases ShowsAs.mem shows c hc with rfl | mem
      · rfl
      · simpa using own visible c mem
    exact ⟨visible, filtered ▸ whole.symm ▸ shows⟩
  · rintro ⟨visible, shows⟩
    refine ⟨s, shows, congrArg Except.ok (List.filter_eq_self.2 fun c hc => ?_)⟩
    simpa using visible c hc

theorem exists_plain_iff : (∃ s, plain markup = .ok s) ↔ Shows [] markup := by
  rw [shows_iff, plain]
  exact exists_bind_ok_iff

end Plain

end SchemaPlugin.Markup
