import SchemaPlugin.Inspect
import SchemaPlugin.Proofs.Text.Crossing

/-!
The captions of a request that is shown as trees: what each is to say, the markup that it is given,
and when that markup says it. A caption can be shown unless it is that of an option whose name has a
bracket and a slash that the value closes.
-/

namespace SchemaPlugin.Inspect

open Descriptor (Number Label)
open Markup

/-- A heading, or a node of the tree of a file. -/
inductive Caption
  | request
  | targets (names : List Text)
  | parameter (value : Text)
  | file (name package : Text)
  | dependency (name : Text)
  | option (key value : Text)
  | enum (name : Text)
  | value (name : Text) (number : Number)
  | message (name : Text)
  | field (number : Number) (name : Text) (label : Label) (kind : Text)

namespace Caption

/-- What a caption is to say, names as they are. -/
def text : Caption → Text
  | request => "Request"
  | targets names => "Generate: " ++ orDash (Text.join ", " names)
  | parameter t => "Parameter: " ++ orDash t
  | file name package => name ++ " " ++ package
  | dependency name => "import " ++ name
  | option key t => "option " ++ key ++ " = " ++ t
  | enum name => "enum " ++ name
  | value name number => name ++ " = " ++ number.text
  | message name => "message " ++ name
  | field number name label kind =>
    number.text ++ " " ++ name ++ " " ++ label.name ++ " " ++ kind

def markup : Caption → Text
  | request => styled "bold cyan" "Request"
  | targets names => "Generate: " ++ orDash (escape (Text.join ", " names))
  | parameter t => "Parameter: " ++ orDash (escape t)
  | file name package => styled "bold" (escape name) ++ " " ++ styled "dim" (escape package)
  | dependency name => styled "dim" "import" ++ " " ++ escape name
  | option key t => styled "dim" "option" ++ " " ++ escape key ++ " = " ++ escape t
  | enum name => styled "magenta" "enum" ++ " " ++ escape name
  | value name number => escape name ++ " = " ++ styled "yellow" number.text
  | message name => styled "cyan" "message" ++ " " ++ escape name
  | field number name label kind =>
    styled "yellow" number.text ++ " " ++ escape name ++ " " ++
      styled "dim" (label.name ++ " " ++ escape kind)

/-- The names in a caption show as they are, each where it stands. -/
def NamesLiteral : Caption → Prop
  | request => True
  | targets names => Literal (Text.join ", " names)
  | parameter name | dependency name | enum name | value name _ | message name => Literal name
  | file name package => LiteralBeforeTag name ∧ LiteralBeforeTag package
  | option key t => Literal key ∧ Literal t ∧ ¬Reaches key (" = " ++ t)
  | field _ name _ kind => Literal name ∧ LiteralBeforeTag kind

/-- A caption without code points that never show, and with names that show as they are. -/
def Shown (c : Caption) : Prop := Visible c.text ∧ c.NamesLiteral

/-- A caption that cannot be shown. -/
def Broken : Caption → Prop
  | option key t => Breaks key (" = " ++ t)
  | _ => False

end Caption

section Styled

variable {style t u v z : Text} {openTags : List Text}

/-- A style is opened by its name and closed by a slash and its name. -/
structure IsStyle (style : Text) : Prop where
  opening : IsTag style
  closing : IsTag ("/" ++ style)
  opens : ∀ openTags position, afterTag openTags style position = .ok (style :: openTags)
  closes : ∀ openTags position,
    afterTag (style :: openTags) ("/" ++ style) position = .ok openTags

/-- The styles of captions. -/
def styles : List Text := ["bold", "bold cyan", "cyan", "dim", "magenta", "yellow"]

theorem isStyle_of_mem (mem : style ∈ styles) : IsStyle style := by
  simp only [styles, List.mem_cons, List.not_mem_nil, or_false] at mem
  rcases mem with rfl | rfl | rfl | rfl | rfl | rfl <;>
    exact ⟨.mk rfl (by decide), .mk rfl (by decide), fun _ _ => rfl, fun _ _ => rfl⟩

theorem styled_append (style t v : Text) :
    styled style t ++ v = bracketed style ++ (t ++ (bracketed ("/" ++ style) ++ v)) := by
  have opening : Text.ofString "[" ++ style ++ Text.ofString "]" = bracketed style := rfl
  have closing : Text.ofString "[/" ++ style ++ Text.ofString "]" = bracketed ("/" ++ style) := rfl
  rw [styled, opening, List.append_assoc, ← closing]
  simp only [List.append_assoc]

/-- The next bracket after a name is the one of a style. -/
theorem not_reaches_styled (space : u.head? = some (CodePoint.ofChar ' '))
    (inside : ∀ d ∈ u, isTagBody d = true) : ¬Reaches t (u ++ styled style v) := by
  have nothing : u.find? (!isTagBody ·) = none := List.find?_eq_none.2 (by simpa using inside)
  refine not_reaches (fun e he => ?_) ?_
  · rw [List.head?_append, space] at he
    cases he
    decide
  · rw [List.find?_append, nothing, Option.none_or]
    nofun

theorem plainly_space (t : Text) : Plainly (" " ++ t) := by
  rintro _ ⟨⟩
  decide

theorem beyond_space (t : Text) : ∀ e ∈ (" " ++ t).head?, isTagStart e = false := by
  rintro _ ⟨⟩
  decide

/-- What stands before a name may be in a style. -/
theorem showsAs_styled (mem : style ∈ styles) (unmarked : Unmarked u) :
    ShowsAs openTags (styled style u ++ v) (u ++ z) ↔ ShowsAs openTags v z := by
  have isStyle := isStyle_of_mem mem
  rw [styled_append, showsAs_bracketed isStyle.opening (isStyle.opens openTags),
    showsAs_unmarked_append unmarked, showsAs_bracketed isStyle.closing (isStyle.closes openTags)]

theorem showsAs_styled_end (mem : style ∈ styles) (unmarked : Unmarked u) :
    ShowsAs openTags (styled style u) u := by
  have last : ShowsAs openTags (styled style u ++ []) (u ++ []) ↔ ShowsAs openTags [] [] :=
    showsAs_styled mem unmarked
  rw [List.append_nil, List.append_nil, showsAs_nil] at last
  exact last.2 rfl

theorem showsAs_styled_escape (mem : style ∈ styles) (unmarked : Unmarked u) (plainly : Plainly v)
    (plainly' : Plainly z) :
    ShowsAs openTags (styled style (u ++ escape t) ++ v) (u ++ t ++ z) ↔
      LiteralBeforeTag t ∧ ShowsAs openTags v z := by
  have isStyle := isStyle_of_mem mem
  rw [styled_append, showsAs_bracketed isStyle.opening (isStyle.opens openTags), List.append_assoc,
    List.append_assoc, showsAs_unmarked_append unmarked,
    showsAs_escape_tag isStyle.closing (isStyle.closes openTags) plainly plainly'.stop]

theorem showsAs_styled_escape_end (mem : style ∈ styles) (unmarked : Unmarked u) :
    ShowsAs openTags (styled style (u ++ escape t)) (u ++ t) ↔ LiteralBeforeTag t := by
  have last : ShowsAs openTags (styled style (u ++ escape t) ++ []) (u ++ t ++ []) ↔ _ :=
    showsAs_styled_escape mem unmarked nofun nofun
  rwa [List.append_nil, List.append_nil, showsAs_nil, and_iff_left rfl] at last

theorem showsAs_escape_space (apart : ¬Reaches t (" " ++ v)) :
    ShowsAs openTags (escape t ++ (" " ++ v)) (t ++ (" " ++ z)) ↔
      Literal t ∧ ShowsAs openTags v z := by
  rw [showsAs_escape_append apart (beyond_space v) (plainly_space v) (plainly_space z).stop,
    showsAs_unmarked_append (by decide)]

theorem showsAs_escape : ShowsAs openTags (escape t) t ↔ Literal t := by
  have last : ShowsAs openTags (escape t ++ []) (t ++ []) ↔ _ :=
    showsAs_escape_append (not_reaches nofun nofun) nofun nofun nofun
  rwa [List.append_nil, List.append_nil, showsAs_nil, and_iff_left rfl] at last

theorem shows_styled_iff (mem : style ∈ styles) (unmarked : Unmarked u) :
    Shows openTags (styled style u ++ v) ↔ Shows openTags v := by
  have isStyle := isStyle_of_mem mem
  rw [styled_append, (leadsTo_bracketed isStyle.opening (isStyle.opens openTags) _).shows_iff,
    (leadsTo_unmarked unmarked _).shows_iff,
    (leadsTo_bracketed isStyle.closing (isStyle.closes openTags) _).shows_iff]

/-- A name in a style may keep it open. -/
theorem shows_styled_escape (mem : style ∈ styles) (unmarked : Unmarked u)
    (shows : ∀ openTags, Shows openTags v) :
    Shows openTags (styled style (u ++ escape t) ++ v) := by
  have isStyle := isStyle_of_mem mem
  have closing (n : Nat) : Shows (style :: openTags)
      (backslashes n ++ (bracketed ("/" ++ style) ++ v)) :=
    .tag isStyle.closing (fun _ => shows _) fun _ => ⟨openTags, isStyle.closes openTags, shows _⟩
  have begins : ∀ c ∈ (bracketed ("/" ++ style) ++ v).head?, c = bracket := by
    rintro _ ⟨⟩
    rfl
  rw [styled_append, List.append_assoc]
  exact .bracketed isStyle.opening (isStyle.opens openTags)
    (unmarked.shows_append (shows_escape_append t begins closing))

theorem shows_styled_escape_end (mem : style ∈ styles) (unmarked : Unmarked u) :
    Shows openTags (styled style (u ++ escape t)) := by
  have last : Shows openTags (styled style (u ++ escape t) ++ []) :=
    shows_styled_escape mem unmarked fun _ => shows_ending 0
  rwa [List.append_nil] at last

theorem shows_escape_space (apart : ¬Reaches t (" " ++ v)) (shows : Shows openTags v) :
    Shows openTags (escape t ++ (" " ++ v)) := by
  have leads : LeadsTo openTags (escape t ++ (" " ++ v)) _ openTags (" " ++ v) :=
    (leadsTo_escape apart (beyond_space v)).trans (leadsTo_backslashes (plainly_space v) _)
  exact leads.shows_iff.2 (Unmarked.shows_append (by decide) shows)

end Styled

namespace Caption

theorem unmarked_number (n : Number) : Unmarked n.text := by
  cases n with
  | int i =>
    cases i with
    | ofNat n => exact unmarked_ofNat n
    | negSucc n => exact List.forall_mem_cons.2 ⟨by decide, unmarked_ofNat (n + 1)⟩
  | flag b => cases b <;> decide

theorem unmarked_label (label : Label) : Unmarked (label.name ++ " ") := by
  cases label <;> decide

section Word

variable {style word t : Text}

/-- A word in a style, and a name after it. -/
theorem showsAs_word (mem : style ∈ styles) (unmarked : Unmarked word) :
    ShowsAs [] (styled style word ++ " " ++ escape t) (word ++ " " ++ t) ↔ Literal t := by
  rw [List.append_assoc, List.append_assoc, showsAs_styled mem unmarked,
    showsAs_unmarked_append (by decide), showsAs_escape]

theorem shows_word (mem : style ∈ styles) (unmarked : Unmarked word) :
    Shows [] (styled style word ++ " " ++ escape t) := by
  rw [List.append_assoc]
  exact (shows_styled_iff mem unmarked).2 (Unmarked.shows_append (by decide) (shows_escape t []))

theorem orDash_escape (t : Text) : t = [] ∨ orDash (escape t) = escape t ∧ orDash t = t := by
  cases t with
  | nil => exact .inl rfl
  | cons c t =>
    have ne := List.cons_ne_nil c t
    exact .inr ⟨if_neg (escape_ne_nil ne), if_neg ne⟩

theorem shows_orDash (t : Text) : Shows [] (orDash (escape t)) := by
  rw [orDash]
  split_ifs
  · exact Unmarked.shows (by decide)
  · exact shows_escape t []

theorem showsAs_orDash : ShowsAs [] (orDash (escape t)) (orDash t) ↔ Literal t := by
  rcases orDash_escape t with rfl | ⟨escaped, plain⟩
  · have dash : ShowsAs [] (Text.ofString "-") (Text.ofString "-") := showsAs_unmarked (by decide)
    rw [escape_nil]
    exact iff_of_true dash ⟨not_slashed_backslashes (n := 0), by decide⟩
  · rw [escaped, plain, showsAs_escape]

end Word

section Option

variable {key t : Text}

/-- An option between its first word and its end, marked up and as it is to show. -/
theorem option_eq (key t : Text) : (option key t).markup =
      styled "dim" "option" ++ (" " ++ (escape key ++ (" = " ++ escape t))) ∧
    (option key t).text = "option" ++ (" " ++ (key ++ (" = " ++ t))) := by
  rw [markup, text]
  simp only [List.append_assoc, true_and]
  rfl

/-- An escaped value begins like the value, as far as a bracket of the name is concerned. -/
theorem alike_escape (t : Text) :
    ((" = " : Text) ++ escape t).head? = ((" = " : Text) ++ t).head? ∧
      ((" = " : Text) ++ escape t).find? (!isTagBody ·) =
        ((" = " : Text) ++ t).find? (!isTagBody ·) := by
  refine ⟨rfl, ?_⟩
  rw [List.find?_append, List.find?_append, find?_escape]

/-- What follows a bracket that closes one of the name is no longer than the value. -/
theorem short_escape (t : Text) : Short (" = " ++ escape t) (" = " ++ t) := by
  intro after closes openTags
  rw [List.dropWhile_append_of_pos (by decide)] at closes
  obtain ⟨rest, split, rfl⟩ := dropWhile_escape closes
  obtain ⟨s, shows, le⟩ := exists_showsAs_escape rest openTags
  have shorter := length_dropWhile_le isTagBody t
  rw [split, List.length_cons] at shorter
  refine ⟨s, shows, ?_⟩
  rw [List.length_append]
  omega

theorem showsAs_option :
    ShowsAs [] (option key t).markup (option key t).text ↔ (option key t).NamesLiteral := by
  obtain ⟨marked, said⟩ := option_eq key t
  obtain ⟨first, next⟩ := alike_escape t
  rw [marked, said, showsAs_styled (by decide) (by decide), showsAs_unmarked_append (by decide),
    NamesLiteral, ← reaches_iff_of_alike first next]
  by_cases reaches : Reaches key (" = " ++ escape t)
  · have differs := (crossing_escape reaches (beyond_space _) (short_escape t)).1
    exact iff_of_false differs fun h => h.2.2 reaches
  · have apart : ShowsAs [] (escape key ++ (" = " ++ escape t)) (key ++ (" = " ++ t)) ↔
        Literal key ∧ ShowsAs [] ("= " ++ escape t) ("= " ++ t) := showsAs_escape_space reaches
    rw [apart, showsAs_unmarked_append (by decide), showsAs_escape, and_iff_left reaches]

theorem shows_option : Shows [] (option key t).markup ↔ ¬(option key t).Broken := by
  obtain ⟨marked, -⟩ := option_eq key t
  obtain ⟨first, next⟩ := alike_escape t
  rw [marked, Broken, ← breaks_iff_of_alike first next, shows_styled_iff (by decide) (by decide),
    (leadsTo_unmarked (by decide) _).shows_iff]
  by_cases reaches : Reaches key (" = " ++ escape t)
  · exact (crossing_escape reaches (beyond_space _) (short_escape t)).2
  · have value : Shows [] ("= " ++ escape t) :=
      Unmarked.shows_append (by decide) (shows_escape t [])
    exact iff_of_true (shows_escape_space reaches value) fun broken => reaches broken.reaches

end Option

theorem showsAs_file {name package : Text} : ShowsAs [] (file name package).markup
    (file name package).text ↔ (file name package).NamesLiteral := by
  have second : ShowsAs [] (" " ++ styled "dim" (escape package)) (" " ++ package) ↔
      LiteralBeforeTag package := by
    rw [showsAs_unmarked_append (by decide)]
    exact showsAs_styled_escape_end (u := []) (by decide) nofun
  rw [markup, text, NamesLiteral, List.append_assoc, List.append_assoc, ← second]
  exact showsAs_styled_escape (u := []) (by decide) nofun (plainly_space _) (plainly_space _)

theorem showsAs_value {name : Text} {number : Number} : ShowsAs [] (value name number).markup
    (value name number).text ↔ (value name number).NamesLiteral := by
  have unmarked := unmarked_number number
  have second : ShowsAs [] ("= " ++ styled "yellow" number.text) ("= " ++ number.text) :=
    (showsAs_unmarked_append (by decide)).2 (showsAs_styled_end (by decide) unmarked)
  rw [markup, text, NamesLiteral, List.append_assoc, List.append_assoc]
  exact (showsAs_escape_space (not_reaches_styled (u := " = ") rfl (by decide))).trans
    (and_iff_left second)

/-- A field between its number and its end, marked up and as it is to show. -/
theorem field_eq (number : Number) (name : Text) (label : Label) (kind : Text) :
    (field number name label kind).markup = styled "yellow" number.text ++
        (" " ++ (escape name ++ (" " ++ styled "dim" (label.name ++ " " ++ escape kind)))) ∧
      (field number name label kind).text =
        number.text ++ (" " ++ (name ++ (" " ++ (label.name ++ " " ++ kind)))) := by
  simp only [markup, text, List.append_assoc, and_self]

theorem showsAs_field {name kind : Text} {number : Number} {label : Label} :
    ShowsAs [] (field number name label kind).markup (field number name label kind).text ↔
      (field number name label kind).NamesLiteral := by
  have second : ShowsAs [] (styled "dim" (label.name ++ " " ++ escape kind))
      (label.name ++ " " ++ kind) ↔ LiteralBeforeTag kind :=
    showsAs_styled_escape_end (by decide) (unmarked_label label)
  obtain ⟨marked, said⟩ := field_eq number name label kind
  rw [marked, said, showsAs_styled (by decide) (unmarked_number number),
    showsAs_unmarked_append (by decide),
    showsAs_escape_space (not_reaches_styled (u := " ") rfl (by decide)), second, NamesLiteral]

theorem shows_file {name package : Text} : Shows [] (file name package).markup := by
  rw [markup, List.append_assoc]
  exact shows_styled_escape (u := []) (by decide) nofun fun openTags =>
    Unmarked.shows_append (by decide) (shows_styled_escape_end (u := []) (by decide) nofun)

theorem shows_value {name : Text} {number : Number} : Shows [] (value name number).markup := by
  have second : Shows [] ("= " ++ styled "yellow" number.text) :=
    Unmarked.shows_append (by decide)
      (shows_iff.2 ⟨_, showsAs_styled_end (by decide) (unmarked_number number)⟩)
  rw [markup, List.append_assoc]
  exact shows_escape_space (not_reaches_styled (u := " = ") rfl (by decide)) second

theorem shows_field {name kind : Text} {number : Number} {label : Label} :
    Shows [] (field number name label kind).markup := by
  have second : Shows [] (styled "dim" (label.name ++ " " ++ escape kind)) :=
    shows_styled_escape_end (by decide) (unmarked_label label)
  rw [(field_eq number name label kind).1, shows_styled_iff (by decide) (unmarked_number number)]
  exact Unmarked.shows_append (by decide)
    (shows_escape_space (not_reaches_styled (u := " ") rfl (by decide)) second)

theorem showsAs_markup (c : Caption) : ShowsAs [] c.markup c.text ↔ c.NamesLiteral := by
  cases c with
  | request => exact iff_of_true (showsAs_styled_end (by decide) (by decide)) trivial
  | targets names => rw [markup, text, showsAs_unmarked_append (by decide), showsAs_orDash]; rfl
  | parameter t => rw [markup, text, showsAs_unmarked_append (by decide), showsAs_orDash]; rfl
  | file name package => exact showsAs_file
  | dependency name => exact showsAs_word (by decide) (by decide)
  | option key t => exact showsAs_option
  | enum name => exact showsAs_word (by decide) (by decide)
  | value name number => exact showsAs_value
  | message name => exact showsAs_word (by decide) (by decide)
  | field number name label kind => exact showsAs_field

theorem shows_markup (c : Caption) : Shows [] c.markup ↔ ¬c.Broken := by
  cases c with
  | option key t => exact shows_option
  | request => exact iff_of_true (shows_iff.2 ⟨_, showsAs_styled_end (by decide) (by decide)⟩) id
  | targets names => exact iff_of_true (Unmarked.shows_append (by decide) (shows_orDash _)) id
  | parameter t => exact iff_of_true (Unmarked.shows_append (by decide) (shows_orDash t)) id
  | file name package => exact iff_of_true shows_file id
  | dependency name => exact iff_of_true (shows_word (by decide) (by decide)) id
  | enum name => exact iff_of_true (shows_word (by decide) (by decide)) id
  | value name number => exact iff_of_true shows_value id
  | message name => exact iff_of_true (shows_word (by decide) (by decide)) id
  | field number name label kind => exact iff_of_true shows_field id

/-- What the tags and the words of captions are made of. -/
def isWord (d : CodePoint) : Bool := 32 ≤ d.val && d.val < 127

theorem isControl_eq_false {d : CodePoint} (word : isWord d = true) : isControl d = false := by
  simp only [isWord, Bool.and_eq_true, decide_eq_true_eq] at word
  simp only [isControl, List.mem_cons, List.not_mem_nil, or_false, decide_eq_false_iff_not]
  omega

theorem isSurrogate_eq_false {d : CodePoint} (word : isWord d = true) : d.isSurrogate = false := by
  simp only [isWord, Bool.and_eq_true, decide_eq_true_eq] at word
  simp only [CodePoint.isSurrogate, Bool.and_eq_false_iff, decide_eq_false_iff_not]
  omega

def MadeOf (P : CodePoint → Prop) (t : Text) : Prop := ∀ d ∈ t, P d

section MadeOf

variable {P : CodePoint → Prop} {t u : Text} (words : ∀ d, isWord d = true → P d)

theorem madeOf_append : MadeOf P (t ++ u) ↔ MadeOf P t ∧ MadeOf P u := List.forall_mem_append

include words

theorem madeOf_word (word : ∀ d ∈ t, isWord d = true) : MadeOf P t := fun d mem =>
  words d (word d mem)

theorem madeOf_styled {style : Text} (mem : style ∈ styles) :
    MadeOf P (styled style t) ↔ MadeOf P t := by
  have each : ∀ style ∈ styles, ∀ d ∈ style, isWord d = true := by decide
  have own : MadeOf P style := madeOf_word words (each style mem)
  simp +decide only [styled, madeOf_append, madeOf_word words, own, true_and, and_true]

theorem madeOf_escape (made : MadeOf P t) : MadeOf P (escape t) := fun d mem =>
  (eq_backslash_or_mem_of_mem_escape mem).elim (fun slash => slash ▸ words _ rfl) (made d)

theorem madeOf_orDash (made : MadeOf P (orDash t)) : MadeOf P (orDash (escape t)) := by
  rcases orDash_escape t with rfl | ⟨escaped, plain⟩
  · rwa [escape_nil]
  · rw [escaped]
    exact madeOf_escape words (plain ▸ made)

/-- The markup of a caption is made of what it is to say and of words. -/
theorem madeOf_markup (c : Caption) (made : MadeOf P c.text) : MadeOf P c.markup := by
  cases c <;>
    simp only [text, madeOf_append] at made <;>
    simp +decide only [markup, madeOf_append, madeOf_styled words, madeOf_word words,
      madeOf_escape words, madeOf_orDash words, made, and_self]

end MadeOf

/-- The markup of a caption shows what it is to say if its names show as they are. -/
theorem plain_eq_text_iff (c : Caption) : plain c.markup = .ok c.text ↔ c.Shown := by
  rw [plain_eq_ok_iff (madeOf_markup (fun _ => isControl_eq_false) c), showsAs_markup]
  rfl

/-- What a caption shows has no surrogates if it is to say none. -/
theorem encodable_plain {c : Caption} {s : Text} (encodable : c.text.Encodable)
    (shows : plain c.markup = .ok s) : s.Encodable := by
  have marked : c.markup.Encodable := madeOf_markup (fun _ => isSurrogate_eq_false) c encodable
  intro d mem
  rcases mem_of_plain shows d mem with rfl | mem
  · rfl
  · exact marked d mem

theorem exists_plain_iff_not_broken (c : Caption) : (∃ s, plain c.markup = .ok s) ↔ ¬c.Broken :=
  exists_plain_iff.trans c.shows_markup

end Caption

end SchemaPlugin.Inspect
