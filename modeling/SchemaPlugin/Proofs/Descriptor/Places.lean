import Mathlib.Data.List.Forall2
import SchemaPlugin.Descriptor.Lookup
import SchemaPlugin.Proofs.Basic

/-!
Places in the tree of messages. A place is a list of indices: of a message of the file, of a message
nested in that one, and so on. The walk goes through all places in the order of lists, in which a
message comes before the messages nested in it.
-/

namespace SchemaPlugin.Descriptor

/-- The parts of a list that are there. -/
def present {α : Type} (parts : Option (List (Option α))) : List α :=
  (parts.getD []).filterMap id

@[simp] theorem present_map_some {α : Type} (parts : List α) :
    present (some (parts.map some)) = parts := by
  simp [present]

namespace Message

/-- What holds of some messages if it holds of the messages nested in each of them holds of all. -/
theorem induct_nested {motive : List (Option Message) → Prop}
    (step : ∀ messages,
      (∀ m, some m ∈ messages → motive (m.nestedMessages.getD [])) → motive messages)
    (messages : List (Option Message)) : motive messages := by
  refine step messages fun m mem => ?_
  clear mem
  induction m using induct with
  | step m ih =>
    refine step _ fun k nested => ?_
    cases given : m.nestedMessages with
    | none =>
      rw [given] at nested
      cases nested
    | some ms =>
      rw [given] at nested
      exact ih ms given k nested

/-- The messages on the way to a place, from the outermost to the one that is there. -/
def wayTo? : List (Option Message) → List Nat → Option (List Message)
  | _, [] => some []
  | messages, i :: place =>
    messages[i]?.join.bind fun m => (wayTo? (m.nestedMessages.getD []) place).map (m :: ·)

mutual

/-- The places in a message, the empty one for the message itself. -/
def places : Message → List (List Nat)
  | ⟨_, _, none, _, _⟩ => [[]]
  | ⟨_, _, some messages, _, _⟩ => [] :: placesOf messages

/-- The places in a list of messages. -/
def placesOf : List (Option Message) → List (List Nat)
  | [] => []
  | none :: rest => (placesOf rest).map (List.modifyHead (· + 1))
  | some m :: rest => m.places.map (0 :: ·) ++ (placesOf rest).map (List.modifyHead (· + 1))

end

theorem places_eq (m : Message) : m.places = [] :: placesOf (m.nestedMessages.getD []) := by
  obtain ⟨_, _, messages, _, _⟩ := m
  cases messages <;> rfl

theorem walk_eq (m : Message) (outer : Text) :
    m.walk outer = (qualify outer (m.name.getD []), m) ::
      walkAll (qualify outer (m.name.getD [])) (m.nestedMessages.getD []) := by
  obtain ⟨_, _, messages, _, _⟩ := m
  cases messages <;> rfl

section Place

variable {messages rest : List (Option Message)} {m : Message} {i : Nat} {place : List Nat}
  {way : List Message}

theorem wayTo?_cons_eq_some_iff :
    wayTo? messages (i :: place) = some way ↔
      ∃ m inner, messages[i]? = some (some m) ∧
        wayTo? (m.nestedMessages.getD []) place = some inner ∧ way = m :: inner := by
  simp only [wayTo?, Option.bind_eq_some_iff, Option.join_eq_some_iff, Option.map_eq_some_iff]
  constructor
  · rintro ⟨m, found, inner, further, rfl⟩
    exact ⟨m, inner, found, further, rfl⟩
  · rintro ⟨m, inner, found, further, rfl⟩
    exact ⟨m, found, inner, further, rfl⟩

theorem mem_placesOf_iff :
    place ∈ placesOf messages ↔
      ∃ i inner m, place = i :: inner ∧ messages[i]? = some (some m) ∧ inner ∈ m.places := by
  induction messages generalizing place with
  | nil => simp [placesOf]
  | cons part rest ih =>
    have later : place ∈ (placesOf rest).map (List.modifyHead (· + 1)) ↔
        ∃ i inner m, place = (i + 1) :: inner ∧ rest[i]? = some (some m) ∧ inner ∈ m.places := by
      rw [List.mem_map]
      constructor
      · rintro ⟨before, mem, rfl⟩
        obtain ⟨i, inner, m, rfl, found, mem⟩ := ih.1 mem
        exact ⟨i, inner, m, rfl, found, mem⟩
      · rintro ⟨i, inner, m, rfl, found, mem⟩
        exact ⟨i :: inner, ih.2 ⟨i, inner, m, rfl, found, mem⟩, rfl⟩
    cases part with
    | none =>
      rw [placesOf, later]
      constructor
      · rintro ⟨i, inner, m, rfl, found, mem⟩
        exact ⟨i + 1, inner, m, rfl, found, mem⟩
      · rintro ⟨_ | i, inner, m, rfl, found, mem⟩
        · cases found
        · exact ⟨i, inner, m, rfl, found, mem⟩
    | some m =>
      rw [placesOf, List.mem_append, later, List.mem_map]
      constructor
      · rintro (⟨inner, mem, rfl⟩ | ⟨i, inner, k, rfl, found, mem⟩)
        · exact ⟨0, inner, m, rfl, rfl, mem⟩
        · exact ⟨i + 1, inner, k, rfl, found, mem⟩
      · rintro ⟨_ | i, inner, k, rfl, found, mem⟩
        · cases found
          exact .inl ⟨inner, mem, rfl⟩
        · exact .inr ⟨i, inner, k, rfl, found, mem⟩

/-- The places of the messages are those that a way leads to. -/
theorem mem_placesOf :
    place ∈ placesOf messages ↔ place ≠ [] ∧ ∃ way, wayTo? messages place = some way := by
  induction messages using induct_nested generalizing place with
  | step messages ih =>
    cases place with
    | nil => simp [mem_placesOf_iff]
    | cons i place =>
      simp only [mem_placesOf_iff, wayTo?_cons_eq_some_iff, List.cons.injEq, ne_eq, reduceCtorEq,
        not_false_eq_true, true_and]
      constructor
      · rintro ⟨_, _, m, ⟨rfl, rfl⟩, found, mem⟩
        rw [places_eq, List.mem_cons] at mem
        rcases mem with rfl | mem
        · exact ⟨_, m, [], found, rfl, rfl⟩
        · obtain ⟨-, way, further⟩ := (ih m (List.mem_of_getElem? found)).1 mem
          exact ⟨_, m, way, found, further, rfl⟩
      · rintro ⟨_, m, inner, found, further, rfl⟩
        refine ⟨i, place, m, ⟨rfl, rfl⟩, found, ?_⟩
        rw [places_eq, List.mem_cons]
        by_cases here : place = []
        · exact .inl here
        · exact .inr ((ih m (List.mem_of_getElem? found)).2 ⟨here, inner, further⟩)

/-- The places are listed in their order, and none twice. -/
theorem pairwise_placesOf (messages : List (Option Message)) :
    (placesOf messages).Pairwise (· < ·) := by
  induction messages using induct_nested with
  | step messages ih =>
    induction messages with
    | nil => exact .nil
    | cons part rest ihRest =>
      have others := ihRest fun m mem => ih m (List.mem_cons_of_mem _ mem)
      have later : ((placesOf rest).map (List.modifyHead (· + 1))).Pairwise (· < ·) := by
        refine List.pairwise_map.2 (others.imp_of_mem fun {a b} ha hb less => ?_)
        obtain ⟨i, inner, -, rfl, -⟩ := mem_placesOf_iff.1 ha
        obtain ⟨j, inner', -, rfl, -⟩ := mem_placesOf_iff.1 hb
        simpa [List.cons_lt_cons_iff] using less
      cases part with
      | none =>
        rw [placesOf]
        exact later
      | some m =>
        have inside : (m.places.map (0 :: ·)).Pairwise (· < ·) := by
          refine List.pairwise_map.2 ?_
          rw [places_eq]
          refine List.pairwise_cons.2 ⟨fun a ha => ?_, ?_⟩
          · obtain ⟨i, inner, -, rfl, -⟩ := mem_placesOf_iff.1 ha
            simp
          · refine (ih m List.mem_cons_self).imp fun less => ?_
            simpa [List.cons_lt_cons_iff] using less
        rw [placesOf]
        refine List.pairwise_append.2 ⟨inside, later, fun a ha b hb => ?_⟩
        obtain ⟨_, -, rfl⟩ := List.mem_map.1 ha
        obtain ⟨before, mem, rfl⟩ := List.mem_map.1 hb
        obtain ⟨j, inner, -, rfl, -⟩ := mem_placesOf_iff.1 mem
        simp [List.cons_lt_cons_iff]

/-- A message under a name, at a place: the messages on the way to the place make the name. -/
def Stands (names : List Message → Text) (messages : List (Option Message)) (place : List Nat)
    (entry : Text × Message) : Prop :=
  ∃ outer, wayTo? messages place = some (outer ++ [entry.2]) ∧
    entry.1 = names (outer ++ [entry.2])

/-- The name that each message on a way qualifies. -/
def qualified (outer : Text) (way : List Message) : Text :=
  way.foldl (fun outer m => qualify outer (m.name.getD [])) outer

theorem stands_here (found : messages[i]? = some (some m)) (outer : Text) :
    Stands (qualified outer) messages [i] (qualify outer (m.name.getD []), m) :=
  ⟨[], wayTo?_cons_eq_some_iff.2 ⟨m, [], found, rfl, rfl⟩, rfl⟩

theorem Stands.inside {outer : Text} {entry : Text × Message}
    (stands : Stands (qualified (qualify outer (m.name.getD []))) (m.nestedMessages.getD []) place
      entry)
    (found : messages[i]? = some (some m)) :
    Stands (qualified outer) messages (i :: place) entry := by
  obtain ⟨way, further, name⟩ := stands
  exact ⟨m :: way, wayTo?_cons_eq_some_iff.2 ⟨m, _, found, further, rfl⟩, name⟩

theorem Stands.later {names : List Message → Text} {entry : Text × Message}
    (stands : Stands names rest place entry) (part : Option Message) :
    Stands names (part :: rest) (place.modifyHead (· + 1)) entry := by
  obtain ⟨way, found, name⟩ := stands
  cases place with
  | nil =>
    have none := Option.some.inj found
    simp at none
  | cons i place =>
    obtain ⟨m, inner, found, further, eq⟩ := wayTo?_cons_eq_some_iff.1 found
    exact ⟨way, wayTo?_cons_eq_some_iff.2 ⟨m, inner, found, further, eq⟩, name⟩

/-- The walk visits the places one by one. -/
theorem forall₂_walkAll (messages : List (Option Message)) (outer : Text) :
    List.Forall₂ (Stands (qualified outer) messages) (placesOf messages)
      (walkAll outer messages) := by
  induction messages using induct_nested generalizing outer with
  | step messages ih =>
    induction messages with
    | nil => exact .nil
    | cons part rest ihRest =>
      have others := ihRest fun m mem => ih m (List.mem_cons_of_mem _ mem)
      have later : List.Forall₂ (Stands (qualified outer) (part :: rest))
          ((placesOf rest).map (List.modifyHead (· + 1))) (walkAll outer rest) :=
        List.forall₂_map_left_iff.2 (others.imp fun _ _ stands => stands.later part)
      cases part with
      | none =>
        rw [placesOf, walkAll]
        exact later
      | some m =>
        have inside : List.Forall₂ (Stands (qualified outer) (some m :: rest))
            (m.places.map (0 :: ·)) (m.walk outer) := by
          rw [places_eq, walk_eq, List.map_cons]
          refine .cons (stands_here rfl outer) (List.forall₂_map_left_iff.2 ?_)
          exact (ih m List.mem_cons_self _).imp fun _ _ stands => stands.inside rfl
        rw [placesOf, walkAll]
        exact List.rel_append inside later

end Place

end Message

/-- The places of the messages of a file, in their order. -/
def File.places (f : File) : List (List Nat) := Message.placesOf (f.messages.getD [])

end SchemaPlugin.Descriptor
