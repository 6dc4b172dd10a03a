import SchemaPlugin.Proofs.Document.Literals

/-!
What all documents have that are read. A document is put together from strings, from constants and
numbers, and from documents that were read before it, and what is read leaves an end of the text.
-/

namespace SchemaPlugin

theorem Text.eq_append_of_dropPrefix? {head t rest : Text} (h : dropPrefix? head t = some rest) :
    t = head ++ rest := by
  induction head generalizing t with
  | nil =>
    cases h
    rfl
  | cons a head ih =>
    cases t with
    | nil => cases h
    | cons c t =>
      rw [dropPrefix?] at h
      split_ifs at h with same
      rw [ih h, same]
      rfl

theorem Text.suffix_of_dropPrefix? {head t rest : Text} (h : dropPrefix? head t = some rest) :
    rest <:+ t :=
  eq_append_of_dropPrefix? h ▸ List.suffix_append head rest

namespace Document

/-- A document without parts or text. -/
inductive Atom : Document → Prop
  | null : Atom null
  | bool (b : Bool) : Atom (bool b)
  | int (n : Int) : Atom (int n)
  | double (x : Double) : Atom (double x)

section Literal

variable {d : Document} {ds t rest : Text}

theorem suffix_getD_dropPrefix? (head t : Text) : (Text.dropPrefix? head t).getD t <:+ t := by
  cases h : Text.dropPrefix? head t with
  | none => exact List.suffix_refl t
  | some rest => exact Text.suffix_of_dropPrefix? h

theorem suffix_of_digits? (h : digits? t = some (ds, rest)) : rest <:+ t := by
  unfold digits? at h
  split at h
  · cases h
  · cases h
    exact List.dropWhile_suffix _

theorem suffix_of_wholeDigits? (h : wholeDigits? t = some (ds, rest)) : rest <:+ t := by
  unfold wholeDigits? at h
  split at h
  · rename_i dropped
    cases h
    exact Text.suffix_of_dropPrefix? dropped
  · exact suffix_of_digits? h

theorem suffix_of_fraction? (h : fraction? t = some (ds, rest)) : rest <:+ t := by
  obtain ⟨after, dropped, digits⟩ := Option.bind_eq_some_iff.1 h
  exact (suffix_of_digits? digits).trans (Text.suffix_of_dropPrefix? dropped)

theorem suffix_of_exponent? {e : Int} (h : exponent? t = some (e, rest)) : rest <:+ t := by
  obtain ⟨after, dropped, h⟩ := Option.bind_eq_some_iff.1 h
  have begun : after <:+ t := by
    cases small : Text.dropPrefix? "e" t with
    | some u =>
      rw [small] at dropped
      cases dropped
      exact Text.suffix_of_dropPrefix? small
    | none =>
      rw [small] at dropped
      exact Text.suffix_of_dropPrefix? dropped
  simp only at h
  split at h
  · rename_i minus
    obtain ⟨⟨ds, more⟩, digits, eq⟩ := Option.bind_eq_some_iff.1 h
    cases eq
    exact ((suffix_of_digits? digits).trans (Text.suffix_of_dropPrefix? minus)).trans begun
  · obtain ⟨⟨ds, more⟩, digits, eq⟩ := Option.bind_eq_some_iff.1 h
    cases eq
    exact ((suffix_of_digits? digits).trans (suffix_getD_dropPrefix? _ _)).trans begun

/-- A part of a number that may be there leaves what follows it, or everything. -/
theorem suffix_of_part {α : Type} {part : Option (α × Text)}
    (h : ∀ a rest, part = some (a, rest) → rest <:+ t) :
    ((part.map fun (a, rest) => (some a, rest)).getD (none, t)).2 <:+ t := by
  cases part with
  | none => exact List.suffix_refl t
  | some p => exact h p.1 p.2 rfl

theorem of_number? (h : number? t = some (d, rest)) : rest <:+ t ∧ d.Atom := by
  obtain ⟨⟨digits, after⟩, read, h⟩ := Option.bind_eq_some_iff.1 h
  have begun := (suffix_of_wholeDigits? read).trans (suffix_getD_dropPrefix? _ _)
  have fraction := suffix_of_part fun _ _ => suffix_of_fraction? (t := after)
  have exponent (u : Text) := suffix_of_part fun _ _ => suffix_of_exponent? (t := u)
  simp only at h
  split at h
  · cases h
    exact ⟨((exponent _).trans fraction).trans begun, .int _⟩
  · cases h
    exact ⟨((exponent _).trans fraction).trans begun, .double _⟩

theorem of_constant? (h : constant? t = some (d, rest)) : rest <:+ t ∧ d.Atom := by
  obtain ⟨w, listed, found⟩ := List.exists_of_findSome?_eq_some h
  obtain ⟨after, dropped, eq⟩ := Option.map_eq_some_iff.1 found
  cases eq
  refine ⟨Text.suffix_of_dropPrefix? dropped, ?_⟩
  simp only [constants, List.mem_cons, List.not_mem_nil, or_false] at listed
  rcases listed with rfl | rfl | rfl | rfl | rfl | rfl
  · exact .null
  · exact .bool true
  · exact .bool false
  · exact .double _
  · exact .double _
  · exact .double _

end Literal

/-- A property `P` of documents that those have that are read from a text with `A`. It is known for
atoms, for a string with `S`, and for a document whose parts and names are known to have it. -/
structure Inherited (A S : Text → Prop) (P : Document → Prop) : Prop where
  suffix : ∀ {t rest : Text}, A t → rest <:+ t → A rest
  stringRest : ∀ {opening : Nat} {t s rest : Text}, A t →
    Document.stringRest opening t = .ok (s, rest) → A rest ∧ S s
  atom : ∀ {d : Document}, d.Atom → P d
  ofString : ∀ {s : Text}, S s → P (.string s)
  array : ∀ {ds : List Document}, (∀ d ∈ ds, P d) → P (.array ds)
  ofMembers : ∀ {ms : List (Text × Document)}, (∀ m ∈ ms, S m.1 ∧ P m.2) →
    P (Document.ofMembers ms)

/-- What is read has a property, and so has the text after it. -/
def Keeps {α : Type} (A : Text → Prop) (P : α → Prop) (reading : Parse (α × Text)) : Prop :=
  ∀ a rest, reading = .ok (a, rest) → A rest ∧ P a

namespace Keeps

variable {α β : Type} {A : Text → Prop} {P : α → Prop} {Q : β → Prop} {x : Parse (α × Text)}
  {f : α × Text → Parse (β × Text)}

theorem ok {a : α} {rest : Text} (kept : A rest) (h : P a) : Keeps A P (.ok (a, rest)) := by
  rintro _ _ ⟨⟩
  exact ⟨kept, h⟩

theorem error (fault : Fault) : Keeps A P (.error fault) := nofun

theorem bind (h : Keeps A P x) (each : ∀ a rest, A rest → P a → Keeps A Q (f (a, rest))) :
    Keeps A Q (x >>= f) := by
  intro b last read
  obtain ⟨⟨a, rest⟩, first, next⟩ := bind_eq_ok_iff.1 read
  obtain ⟨kept, holds⟩ := h a rest first
  exact each a rest kept holds b last next

end Keeps

/-- What is read with so much fuel has the property. -/
structure Inherits (A S : Text → Prop) (P : Document → Prop) (fuel : Nat) : Prop where
  value : ∀ {t : Text}, A t → Keeps A P (value fuel t)
  items : ∀ {t : Text}, A t → Keeps A (fun ds => ∀ d ∈ ds, P d) (items fuel t)
  members : ∀ {t : Text}, A t → Keeps A (fun ms => ∀ m ∈ ms, S m.1 ∧ P m.2) (members fuel t)

namespace Inherited

variable {A S : Text → Prop} {P : Document → Prop} {fuel : Nat} {t rest : Text}

theorem skipSpace (inherited : Inherited A S P) (h : A t) : A (skipSpace t) :=
  inherited.suffix h (List.dropWhile_suffix _)

theorem dropPrefix? (inherited : Inherited A S P) (h : A t) {head : Text}
    (dropped : Text.dropPrefix? head t = some rest) : A rest :=
  inherited.suffix h (Text.suffix_of_dropPrefix? dropped)

theorem keeps_stringRest (inherited : Inherited A S P) (h : A t) (opening : Nat) :
    Keeps A S (Document.stringRest opening t) :=
  fun _ _ read => inherited.stringRest h read

theorem value_succ (inherited : Inherited A S P) (reads : Inherits A S P fuel) (h : A t) :
    Keeps A P (Document.value (fuel + 1) t) := by
  cases t with
  | nil => exact .error _
  | cons c t =>
    have tail := inherited.suffix h (List.suffix_cons c t)
    have space := inherited.skipSpace tail
    rw [Document.value]
    split_ifs with quote bracket brace
    · exact (inherited.keeps_stringRest tail _).bind fun _ _ kept string =>
        .ok kept (inherited.ofString string)
    · cases closed : Text.dropPrefix? "]" (Document.skipSpace t) with
      | some rest =>
        exact .ok (inherited.dropPrefix? space closed) (inherited.array (List.forall_mem_nil _))
      | none => exact (reads.items space).bind fun _ _ kept each => .ok kept (inherited.array each)
    · cases closed : Text.dropPrefix? "\x7d" (Document.skipSpace t) with
      | some rest =>
        exact .ok (inherited.dropPrefix? space closed)
          (inherited.ofMembers (List.forall_mem_nil _))
      | none =>
        exact (reads.members space).bind fun _ _ kept each => .ok kept (inherited.ofMembers each)
    · cases read : (constant? (c :: t)).or (number? (c :: t)) with
      | none => exact .error _
      | some p =>
        have single : p.2 <:+ c :: t ∧ p.1.Atom := by
          rcases Option.or_eq_some_iff.1 read with constant | ⟨-, number⟩
          · exact of_constant? constant
          · exact of_number? number
        exact .ok (inherited.suffix h single.1) (inherited.atom single.2)

theorem items_succ (inherited : Inherited A S P) (reads : Inherits A S P fuel) (h : A t) :
    Keeps A (fun ds => ∀ d ∈ ds, P d) (Document.items (fuel + 1) t) := by
  rw [Document.items]
  refine (reads.value h).bind fun d rest kept first => ?_
  have space := inherited.skipSpace kept
  simp only
  cases closed : Text.dropPrefix? "]" (Document.skipSpace rest) with
  | some rest =>
    exact .ok (inherited.dropPrefix? space closed) (List.forall_mem_singleton.2 first)
  | none =>
    cases comma : Text.dropPrefix? "," (Document.skipSpace rest) with
    | none => exact .error _
    | some rest =>
      have next := inherited.skipSpace (inherited.dropPrefix? space comma)
      exact (reads.items next).bind fun _ _ kept each =>
        .ok kept (List.forall_mem_cons.2 ⟨first, each⟩)

theorem members_succ (inherited : Inherited A S P) (reads : Inherits A S P fuel) (h : A t) :
    Keeps A (fun ms => ∀ m ∈ ms, S m.1 ∧ P m.2) (Document.members (fuel + 1) t) := by
  rw [Document.members]
  cases quote : Text.dropPrefix? "\"" t with
  | none => exact .error _
  | some rest =>
    refine (inherited.keeps_stringRest (inherited.dropPrefix? h quote) _).bind
      fun key rest kept name => ?_
    have space := inherited.skipSpace kept
    simp only
    cases colon : Text.dropPrefix? ":" (Document.skipSpace rest) with
    | none => exact .error _
    | some rest =>
      have after := inherited.skipSpace (inherited.dropPrefix? space colon)
      refine (reads.value after).bind fun d rest kept first => ?_
      have space := inherited.skipSpace kept
      simp only
      cases closed : Text.dropPrefix? "\x7d" (Document.skipSpace rest) with
      | some rest =>
        exact .ok (inherited.dropPrefix? space closed)
          (List.forall_mem_singleton.2 ⟨name, first⟩)
      | none =>
        cases comma : Text.dropPrefix? "," (Document.skipSpace rest) with
        | none => exact .error _
        | some rest =>
          have next := inherited.skipSpace (inherited.dropPrefix? space comma)
          exact (reads.members next).bind fun _ _ kept each =>
            .ok kept (List.forall_mem_cons.2 ⟨⟨name, first⟩, each⟩)

theorem inherits (inherited : Inherited A S P) (fuel : Nat) : Inherits A S P fuel := by
  induction fuel with
  | zero => constructor <;> exact fun _ => .error _
  | succ fuel ih =>
    exact ⟨inherited.value_succ ih, inherited.items_succ ih, inherited.members_succ ih⟩

theorem of_ofDecoded (inherited : Inherited A S P) {d : Document} (h : A t)
    (read : ofDecoded t = .ok d) : P d := by
  obtain ⟨⟨d, after⟩, first, ends⟩ := bind_eq_ok_iff.1 (mapError_eq_ok_iff.1 read)
  have holds := ((inherited.inherits _).value (inherited.skipSpace h) d after first).2
  simp only at ends
  split_ifs at ends
  cases ends
  exact holds

end Inherited

theorem ofDecoded_of_parse {t : Text} {d : Document} (h : parse t = .ok d) :
    ofDecoded t = .ok d := by
  unfold parse at h
  split_ifs at h
  exact h

end Document

end SchemaPlugin
