import Mathlib.Data.List.Basic
import SchemaPlugin.Descriptor.OfDocument
import SchemaPlugin.Proofs.Basic

/-!
Reading lists of parts. The nested messages of a message are read like any other list of parts, so
that messages are read part by part as the other descriptors are; what they are read from are items
of a list in an object, along which documents can be gone through by induction.
-/

namespace SchemaPlugin

open Document (membersOf member? toParts toParts? toOptions? toText?)

namespace Document

variable {α : Type} {read : Document → Read α} {d : Document} {items : List Document}
  {ms : List (Text × Document)}

/-- What holds of a document if it holds of the items of all lists in it holds of every one. -/
theorem induct_items {motive : Document → Prop}
    (step : ∀ d : Document,
      (∀ ms key items, d = .object ms → (key, .array items) ∈ ms → ∀ item ∈ items, motive item) →
      motive d)
    (d : Document) : motive d := by
  induction size : sizeOf d using Nat.strongRecOn generalizing d with
  | _ n ih =>
    refine step d fun ms key items object listed item mem => ih (sizeOf item) ?_ item rfl
    have inMembers := List.sizeOf_lt_of_mem listed
    have inItems := List.sizeOf_lt_of_mem mem
    rw [← size, object]
    simp only [Prod.mk.sizeOf_spec, Document.array.sizeOf_spec, Document.object.sizeOf_spec] at *
    omega

theorem eq_object_of_membersOf {names : List (List Text)} (h : membersOf names d = .ok ms) :
    d = object ms := by
  unfold membersOf at h
  split at h
  · split at h
    · cases h
      rfl
    · cases h
  · cases h

theorem member?_cons (names : List Text) (m : Text × Document) (rest : List (Text × Document)) :
    member? names (m :: rest) =
      (member? names rest).or (if m.1 ∈ names then some m.2 else none) := by
  rw [member?, List.reverse_cons, List.find?_append, member?, Option.map_or]
  refine congrArg _ ?_
  split_ifs with name <;> simp [name]

theorem mem_of_member? {names : List Text} (found : member? names ms = some d) :
    ∃ key ∈ names, (key, d) ∈ ms := by
  obtain ⟨m, first, rfl⟩ := Option.map_eq_some_iff.1 found
  exact ⟨m.1, by simpa using List.find?_some first,
    List.mem_reverse.1 (List.mem_of_find?_eq_some first)⟩

/-- What is no array has strings for items. -/
theorem toItems_cases (h : d.toItems = .ok items) :
    d = .array items ∨ ∀ item ∈ items, ∃ t, item = .string t := by
  cases d with
  | array items =>
    cases h
    exact .inl rfl
  | string t =>
    cases h
    exact .inr (List.forall_mem_map.2 fun c _ => ⟨[c], rfl⟩)
  | object ms =>
    cases h
    exact .inr (List.forall_mem_map.2 fun m _ => ⟨m.1, rfl⟩)
  | _ => cases h

theorem toParts_cons_eq_ok {parts : List (Option α)} (h : toParts read (d :: items) = .ok parts) :
    ∃ part others, parts = part :: others ∧ toParts read items = .ok others ∧
      (d = .null ∧ part = none ∨ ∃ a, read d = .ok a ∧ part = some a) := by
  unfold toParts at h
  split at h
  · rename_i nothing
    cases nothing
  · rename_i same
    cases same
    obtain ⟨others, listed, eq⟩ := bind_eq_ok_iff.1 h
    exact ⟨none, others, (Except.ok.inj eq).symm, listed, .inl ⟨rfl, rfl⟩⟩
  · rename_i same
    cases same
    obtain ⟨a, first, h⟩ := bind_eq_ok_iff.1 h
    obtain ⟨others, listed, eq⟩ := bind_eq_ok_iff.1 h
    exact ⟨some a, others, (Except.ok.inj eq).symm, listed, .inr ⟨a, first, rfl⟩⟩

theorem forall_of_toParts {P : α → Prop} {parts : List (Option α)}
    (each : ∀ d ∈ items, ∀ a, read d = .ok a → P a) (h : toParts read items = .ok parts) :
    ∀ a, some a ∈ parts → P a := by
  induction items generalizing parts with
  | nil =>
    cases h
    exact nofun
  | cons d rest ih =>
    obtain ⟨first, others⟩ := List.forall_mem_cons.1 each
    obtain ⟨part, tail, rfl, listed, here⟩ := toParts_cons_eq_ok h
    intro a mem
    rcases List.mem_cons.1 mem with rfl | later
    · rcases here with ⟨-, null⟩ | ⟨b, readFirst, eq⟩
      · cases null
      · cases eq
        exact first a readFirst
    · exact ih others listed a later

end Document

namespace Descriptor.Message

/-- The nested messages that a member gives. -/
def nestedPart : Document → Read (Option (List (Option Message)))
  | .null => .ok none
  | .array items => do return some (← listOf items)
  | d => Document.toParts? (fun d => .error (.notPart d.kind)) (some d)

theorem nestedOf_cons (found : Read (Option (List (Option Message)))) (key : Text) (d : Document)
    (rest : List (Text × Document)) :
    nestedOf found ((key, d) :: rest) =
      nestedOf (if key ∈ nestedMessagesNames then nestedPart d else found) rest := by
  cases d <;> rw [nestedOf] <;> first | (split_ifs <;> rfl) | exact nofun

theorem listOf_eq_toParts (items : List Document) : listOf items = toParts ofDocument items := by
  induction items with
  | nil => rfl
  | cons d rest ih => cases d <;> simp only [listOf, toParts, ih]

/-- What is no array has no objects for items, and no message is read from anything else. -/
theorem nestedPart_eq (d : Document) : nestedPart d = toParts? ofDocument (some d) := by
  have refused (items : List Document) (strings : ∀ d ∈ items, ∃ t, d = .string t) :
      toParts (fun d => .error (.notPart d.kind)) items = toParts ofDocument items := by
    cases items with
    | nil => rfl
    | cons d rest =>
      obtain ⟨t, rfl⟩ := strings d List.mem_cons_self
      rfl
  have whole {items : List Document} (strings : ∀ d ∈ items, ∃ t, d = .string t) :=
    congrArg (fun parts => parts >>= fun parts => pure (some parts)) (refused items strings)
  cases d with
  | array items =>
    rw [nestedPart, listOf_eq_toParts]
    rfl
  | string t => exact whole (List.forall_mem_map.2 fun c _ => ⟨[c], rfl⟩)
  | object ms => exact whole (List.forall_mem_map.2 fun m _ => ⟨m.1, rfl⟩)
  | _ => rfl

theorem nestedOf_eq (found : Read (Option (List (Option Message)))) (ms : List (Text × Document)) :
    nestedOf found ms =
      ((member? nestedMessagesNames ms).map (toParts? ofDocument <| some ·)).getD found := by
  induction ms generalizing found with
  | nil =>
    rw [nestedOf]
    rfl
  | cons m rest ih =>
    rw [nestedOf_cons, ih, Document.member?_cons, nestedPart_eq]
    cases member? nestedMessagesNames rest with
    | none => split_ifs <;> rfl
    | some d => rfl

/-- A message is read part by part. -/
theorem ofDocument_eq (d : Document) :
    ofDocument d = do
      let members ← membersOf messageNames d
      let name ← toText? (some []) (member? ["name"] members)
      let fields ← toParts? Field.ofDocument (member? ["fields"] members)
      let nestedMessages ← toParts? ofDocument (member? nestedMessagesNames members)
      let nestedEnums ← toParts? Enum.ofDocument (member? nestedEnumsNames members)
      let options ← toOptions? Document.truth (member? ["options"] members)
      return { name, fields, nestedMessages, nestedEnums, options } := by
  cases d with
  | object ms =>
    have nested : nestedOf (.ok (some [])) ms =
        toParts? ofDocument (member? nestedMessagesNames ms) := by
      rw [nestedOf_eq]
      cases member? nestedMessagesNames ms <;> rfl
    rw [ofDocument, nested]
    cases object : membersOf messageNames (.object ms) with
    | error e => rfl
    | ok members =>
      cases Document.eq_object_of_membersOf object
      rfl
  | _ => rfl

end Descriptor.Message

end SchemaPlugin
