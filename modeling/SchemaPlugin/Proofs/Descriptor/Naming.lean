import Mathlib.Data.List.Nodup
import SchemaPlugin.Proofs.Descriptor.Places
import SchemaPlugin.Proofs.Text.Pieces

/-!
Files whose messages and enums are named as in a schema: the names are not empty and without dots,
and no two in one scope are the same. The names on the way to a place, with dots between them, are
then the name of this place only, and it is the name that the walk has for the message there.
-/

namespace SchemaPlugin.Descriptor

/-- The parts of one scope: none is null, and each has a name of its own, not empty and without
dots. -/
structure Scope {α : Type} (name : α → Option Text) (parts : Option (List (Option α))) : Prop where
  whole : parts = some ((present parts).map some)
  named : ∀ a ∈ present parts, ∃ t, name a = some t ∧ t ≠ [] ∧ dot ∉ t
  distinct : ((present parts).map name).Nodup

namespace Scope

variable {α : Type} {name : α → Option Text} {parts : Option (List (Option α))} {a : α} {t : Text}

theorem of_names (as : List α) (names : List Text) (given : as.map name = names.map some)
    (plain : ∀ t ∈ names, t ≠ [] ∧ dot ∉ t) (distinct : names.Nodup) :
    Scope name (some (as.map some)) := by
  refine ⟨by rw [present_map_some], fun a mem => ?_, ?_⟩
  · rw [present_map_some] at mem
    obtain ⟨t, listed, eq⟩ := List.mem_map.1 (given ▸ List.mem_map_of_mem mem)
    exact ⟨t, eq.symm, plain t listed⟩
  · rw [present_map_some, given]
    exact distinct.map fun _ _ => Option.some.inj

theorem dot_notMem (scope : Scope name parts) (mem : a ∈ present parts) (given : name a = some t) :
    dot ∉ t := by
  obtain ⟨u, given', -, free⟩ := scope.named a mem
  rwa [Option.some.inj (given.symm.trans given')]

theorem getElem?_eq_some_iff (scope : Scope name parts) {i : Nat} :
    (parts.getD [])[i]? = some (some a) ↔ (present parts)[i]? = some a := by
  rw [scope.whole]
  simp

theorem index_unique (scope : Scope name parts) {i i' : Nat} {a' : α}
    (here : (parts.getD [])[i]? = some (some a)) (here' : (parts.getD [])[i']? = some (some a'))
    (same : name a = name a') : i = i' := by
  rw [scope.getElem?_eq_some_iff] at here here'
  have bound : i < ((present parts).map name).length := by
    simpa using (List.getElem?_eq_some_iff.1 here).1
  refine (List.getElem?_inj bound scope.distinct).1 ?_
  rw [List.getElem?_map, List.getElem?_map, here, here', Option.map_some, Option.map_some, same]

end Scope

namespace Message

/-- The messages nested in a message are a scope, the enums are one, and so it goes on inward. -/
inductive WellNamed : Message → Prop
  | mk {m : Message} (messages : Scope Message.name m.nestedMessages)
      (enums : Scope Enum.name m.nestedEnums) (each : ∀ k ∈ present m.nestedMessages, WellNamed k) :
      WellNamed m

/-- A message with a name to qualify others. -/
def Named (m : Message) : Prop := ∃ t, m.name = some t ∧ t ≠ [] ∧ dot ∉ t

/-- The names of messages with dots between them. -/
def dotted (way : List Message) : Text := Text.join [dot] (way.map fun m => m.name.getD [])

theorem Named.getD_ne_nil {m : Message} (named : m.Named) : m.name.getD [] ≠ [] := by
  obtain ⟨t, given, some_, -⟩ := named
  rwa [given]

theorem qualified_eq_join {outer : Text} {way : List Message} (some_ : outer ≠ [])
    (named : ∀ m ∈ way, m.Named) :
    qualified outer way = Text.join [dot] (outer :: way.map fun m => m.name.getD []) := by
  induction way generalizing outer with
  | nil => rfl
  | cons m way ih =>
    have others := (List.forall_mem_cons.1 named).2
    have outer_ : qualify outer (m.name.getD []) = outer ++ dot :: m.name.getD [] := if_neg some_
    change qualified (qualify outer (m.name.getD [])) way = _
    rw [outer_, ih (by simp) others, List.map_cons, Text.join_cons_cons]
    cases way with
    | nil => simp [Text.join]
    | cons k way => simp [Text.join_cons_cons]

/-- Names that are not empty qualify each other by dots. -/
theorem qualified_eq_dotted {way : List Message} (named : ∀ m ∈ way, m.Named) :
    qualified [] way = dotted way := by
  cases way with
  | nil => rfl
  | cons m way =>
    obtain ⟨first, others⟩ := List.forall_mem_cons.1 named
    exact qualified_eq_join first.getD_ne_nil others

theorem map_name_eq_split {way : List Message} (some_ : way ≠ []) (named : ∀ m ∈ way, m.Named) :
    way.map Message.name = (Text.split dot (dotted way)).map some := by
  rw [dotted, Text.split_join (by simpa using some_), List.map_map]
  · refine List.map_congr_left fun m mem => ?_
    obtain ⟨t, given, -⟩ := named m mem
    simp [given]
  · refine List.forall_mem_map.2 fun m mem => ?_
    obtain ⟨t, given, -, free⟩ := named m mem
    simpa [given] using free

section Way

variable {messages : Option (List (Option Message))} {place place' : List Nat}
  {way way' : List Message}

/-- On the way to a place all messages are well named, and have names themselves. -/
theorem wellNamed_of_wayTo? (scope : Scope Message.name messages)
    (each : ∀ m ∈ present messages, m.WellNamed)
    (found : wayTo? (messages.getD []) place = some way) : ∀ m ∈ way, m.WellNamed ∧ m.Named := by
  induction place generalizing messages way with
  | nil =>
    cases found
    exact List.forall_mem_nil _
  | cons i place ih =>
    obtain ⟨m, inner, here, further, rfl⟩ := wayTo?_cons_eq_some_iff.1 found
    have mem : m ∈ present messages := List.mem_of_getElem? (scope.getElem?_eq_some_iff.1 here)
    refine List.forall_mem_cons.2 ⟨⟨each m mem, scope.named m mem⟩, ?_⟩
    cases each m mem with
    | mk messages _ each => exact ih messages each further

/-- Two ways with the same names lead to the same place. -/
theorem place_unique (scope : Scope Message.name messages)
    (each : ∀ m ∈ present messages, m.WellNamed)
    (found : wayTo? (messages.getD []) place = some way)
    (found' : wayTo? (messages.getD []) place' = some way')
    (same : way.map Message.name = way'.map Message.name) : place = place' := by
  induction place generalizing messages place' way way' with
  | nil =>
    cases found
    cases place' with
    | nil => rfl
    | cons i' place' =>
      obtain ⟨m', inner', -, -, rfl⟩ := wayTo?_cons_eq_some_iff.1 found'
      cases same
  | cons i place ih =>
    obtain ⟨m, inner, here, further, rfl⟩ := wayTo?_cons_eq_some_iff.1 found
    cases place' with
    | nil =>
      cases found'
      cases same
    | cons i' place' =>
      obtain ⟨m', inner', here', further', rfl⟩ := wayTo?_cons_eq_some_iff.1 found'
      obtain ⟨sameName, sameInner⟩ := List.cons.inj same
      obtain rfl : i = i' := scope.index_unique here here' sameName
      obtain rfl : m = m' := by simpa [here] using here'
      have mem : m ∈ present messages := List.mem_of_getElem? (scope.getElem?_eq_some_iff.1 here)
      cases each m mem with
      | mk messages _ each => rw [ih messages each further further' sameInner]

end Way

end Message

namespace File

/-- The messages of a file are a scope, its enums are one, and so it goes on inward. -/
structure WellNamed (f : File) : Prop where
  messages : Scope Message.name f.messages
  enums : Scope Enum.name f.enums
  each : ∀ m ∈ present f.messages, m.WellNamed

/-- The message at a place, under the names on the way to it with dots between them. -/
def HasAt (f : File) : List Nat → Text × Message → Prop :=
  Message.Stands Message.dotted (f.messages.getD [])

variable {f : File} {place place' : List Nat} {entry entry' : Text × Message} {s : Text} {e : Enum}

theorem mem_places_iff : place ∈ f.places ↔ ∃ entry, f.HasAt place entry := by
  rw [places, Message.mem_placesOf]
  constructor
  · rintro ⟨some_, way, found⟩
    have further : way ≠ [] := by
      rintro rfl
      cases place with
      | nil => exact some_ rfl
      | cons i place =>
        obtain ⟨_, _, -, -, eq⟩ := Message.wayTo?_cons_eq_some_iff.1 found
        cases eq
    obtain ⟨outer, m, rfl⟩ := (List.eq_nil_or_concat way).resolve_left further
    rw [List.concat_eq_append] at found
    exact ⟨(Message.dotted (outer ++ [m]), m), outer, found, rfl⟩
  · rintro ⟨entry, outer, found, -⟩
    refine ⟨?_, _, found⟩
    rintro rfl
    have none := Option.some.inj found
    simp at none

theorem HasAt.entry_unique (here : f.HasAt place entry) (here' : f.HasAt place entry') :
    entry = entry' := by
  obtain ⟨outer, found, name⟩ := here
  obtain ⟨outer', found', name'⟩ := here'
  have same : outer ++ [entry.2] = outer' ++ [entry'.2] :=
    Option.some.inj (found.symm.trans found')
  refine Prod.ext ?_ ?_
  · rw [name, name', same]
  · simpa using (List.append_inj' same rfl).2

namespace WellNamed

theorem place_unique (named : f.WellNamed) (here : f.HasAt place entry)
    (here' : f.HasAt place' entry') (same : entry.1 = entry'.1) : place = place' := by
  obtain ⟨outer, found, name⟩ := here
  obtain ⟨outer', found', name'⟩ := here'
  refine Message.place_unique named.messages named.each found found' ?_
  have onWay := Message.wellNamed_of_wayTo? named.messages named.each found
  have onWay' := Message.wellNamed_of_wayTo? named.messages named.each found'
  rw [Message.map_name_eq_split (by simp) fun m mem => (onWay m mem).2,
    Message.map_name_eq_split (by simp) fun m mem => (onWay' m mem).2, ← name, ← name', same]

theorem forall₂_walk (named : f.WellNamed) : List.Forall₂ f.HasAt f.places f.walk := by
  refine (Message.forall₂_walkAll _ []).imp fun place entry stands => ?_
  obtain ⟨outer, found, name⟩ := stands
  have onWay := Message.wellNamed_of_wayTo? named.messages named.each found
  exact ⟨outer, found, name.trans (Message.qualified_eq_dotted fun m mem => (onWay m mem).2)⟩

/-- A qualified name is the name of one place. -/
theorem biUnique_name (named : f.WellNamed) :
    Relator.BiUnique fun place name => ∃ m, f.HasAt place (name, m) := by
  constructor
  · rintro place name place' ⟨m, here⟩ ⟨m', here'⟩
    exact named.place_unique here here' rfl
  · rintro place name name' ⟨m, here⟩ ⟨m', here'⟩
    exact congrArg Prod.fst (here.entry_unique here')

theorem nodup_walk (named : f.WellNamed) : (f.walk.map Prod.fst).Nodup := by
  have names : List.Forall₂ (fun place name => ∃ m, f.HasAt place (name, m)) f.places
      (f.walk.map Prod.fst) :=
    List.forall₂_map_right_iff.2 (named.forall₂_walk.imp fun _ entry here => ⟨entry.2, here⟩)
  refine (List.rel_nodup named.biUnique_name names).1 ?_
  refine (Message.pairwise_placesOf _).imp fun {place place'} less => ?_
  rintro rfl
  exact List.lt_irrefl place less

theorem mem_walk_iff (named : f.WellNamed) : entry ∈ f.walk ↔ ∃ place, f.HasAt place entry := by
  obtain ⟨visited, met⟩ := exists_of_forall₂ named.forall₂_walk
  constructor
  · intro mem
    obtain ⟨place, -, here⟩ := met entry mem
    exact ⟨place, here⟩
  · rintro ⟨place, here⟩
    obtain ⟨entry', mem, here'⟩ := visited place (mem_places_iff.2 ⟨entry, here⟩)
    rwa [here.entry_unique here']

theorem name_ne_nil (named : f.WellNamed) (here : f.HasAt place entry) : entry.1 ≠ [] := by
  obtain ⟨outer, found, name⟩ := here
  obtain ⟨m, way, eq⟩ := List.exists_cons_of_ne_nil (l := outer ++ [entry.2]) (by simp)
  rw [eq] at found name
  have first :=
    (Message.wellNamed_of_wayTo? named.messages named.each found m List.mem_cons_self).2
  have some_ := first.getD_ne_nil
  rw [name, Message.dotted, List.map_cons]
  cases way with
  | nil => exact some_
  | cons k way => simp [Text.join_cons_cons]

theorem nestedEnums (named : f.WellNamed) (here : f.HasAt place entry) :
    Scope Enum.name entry.2.nestedEnums := by
  obtain ⟨outer, found, -⟩ := here
  cases (Message.wellNamed_of_wayTo? named.messages named.each found entry.2 (by simp)).1 with
  | mk _ enums _ => exact enums

end WellNamed

end File

end SchemaPlugin.Descriptor
