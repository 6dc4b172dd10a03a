import SchemaPlugin.Proofs.Descriptor.Naming

/-!
Looking up messages and enums in a well named file. What is found under a qualified name is what is
at the place of this name. An enum of the file itself is found under its name, and also under its
name with a dot before it, as if the file had an empty name.
-/

namespace SchemaPlugin.Descriptor

theorem find?_eq_some_iff_of_nodup {α β : Type} [DecidableEq β] {key : α → β} {parts : List α}
    (nodup : (parts.map key).Nodup) {b : β} {a : α} :
    parts.find? (fun a => key a = b) = some a ↔ a ∈ parts ∧ key a = b := by
  constructor
  · intro found
    exact ⟨List.mem_of_find?_eq_some found, by simpa using List.find?_some found⟩
  · rintro ⟨mem, rfl⟩
    induction parts with
    | nil => cases mem
    | cons first rest ih =>
      rw [List.map_cons, List.nodup_cons] at nodup
      rcases List.mem_cons.1 mem with rfl | mem
      · exact List.find?_cons_of_pos (decide_eq_true rfl)
      · have other : key first ≠ key a := fun same => nodup.1 (same ▸ List.mem_map_of_mem mem)
        rw [List.find?_cons_of_neg (by simpa using other), ih nodup.2 mem]

theorem Scope.enumNamed?_eq_some_iff {enums : Option (List (Option Enum))} {t : Text} {e : Enum}
    (scope : Scope Enum.name enums) :
    enumNamed? enums t = some e ↔ e ∈ present enums ∧ e.name = some t :=
  find?_eq_some_iff_of_nodup scope.distinct

namespace File

variable {f : File} {place : List Nat} {entry : Text × Message} {s : Text} {e : Enum}

theorem findEnum?_of_notMem (dotless : dot ∉ s) : f.findEnum? s = enumNamed? f.enums s := by
  rw [findEnum?, Text.cut?_of_notMem (by simpa using dotless)]

/-- An enum is looked up by what stands before the last dot and what stands after it. -/
theorem findEnum?_dot {outer name : Text} (free : dot ∉ name) :
    f.findEnum? (outer ++ dot :: name) =
      if outer = [] then enumNamed? f.enums name
      else (f.findMessage? outer).bind fun m => enumNamed? m.nestedEnums name := by
  have last : Text.cut? dot (outer ++ dot :: name).reverse = some (name.reverse, outer.reverse) :=
    Text.cut?_eq_some_iff.2 ⟨by simp, by simpa using free⟩
  rw [findEnum?, last]
  simp

theorem exists_eq_append_dot (mem : dot ∈ s) :
    ∃ outer name, s = outer ++ dot :: name ∧ dot ∉ name := by
  obtain ⟨after, before, eq, free⟩ := List.eq_append_cons_of_mem (List.mem_reverse.2 mem)
  refine ⟨before.reverse, after.reverse, ?_, by simpa using free⟩
  simpa using congrArg List.reverse eq

namespace WellNamed

/-- What is found under a name is the message at the place that has the name. -/
theorem findMessage?_eq_some_iff (named : f.WellNamed) {m : Message} :
    f.findMessage? s = some m ↔ ∃ place, f.HasAt place (s, m) := by
  rw [← named.mem_walk_iff, findMessage?, Option.map_eq_some_iff]
  constructor
  · rintro ⟨entry, found, rfl⟩
    obtain ⟨mem, rfl⟩ := (find?_eq_some_iff_of_nodup named.nodup_walk).1 found
    exact mem
  · intro mem
    exact ⟨(s, m), (find?_eq_some_iff_of_nodup named.nodup_walk).2 ⟨mem, rfl⟩, rfl⟩

theorem findEnum?_top (named : f.WellNamed) {name : Text} (mem : e ∈ present f.enums)
    (given : e.name = some name) :
    f.findEnum? name = some e ∧ f.findEnum? (dot :: name) = some e := by
  have free := named.enums.dot_notMem mem given
  have found := named.enums.enumNamed?_eq_some_iff.2 ⟨mem, given⟩
  refine ⟨(findEnum?_of_notMem free).trans found, ?_⟩
  exact (@findEnum?_dot f [] name free).trans ((if_pos rfl).trans found)

theorem findEnum?_nested (named : f.WellNamed) (here : f.HasAt place entry) {name : Text}
    (mem : e ∈ present entry.2.nestedEnums) (given : e.name = some name) :
    f.findEnum? (entry.1 ++ dot :: name) = some e := by
  have scope := named.nestedEnums here
  rw [findEnum?_dot (scope.dot_notMem mem given), if_neg (named.name_ne_nil here),
    named.findMessage?_eq_some_iff.2 ⟨place, here⟩]
  exact scope.enumNamed?_eq_some_iff.2 ⟨mem, given⟩

theorem findEnum?_cases (named : f.WellNamed) (found : f.findEnum? s = some e) :
    (∃ name, e ∈ present f.enums ∧ e.name = some name ∧ (s = name ∨ s = dot :: name)) ∨
      ∃ place entry name, f.HasAt place entry ∧ e ∈ present entry.2.nestedEnums ∧
        e.name = some name ∧ s = entry.1 ++ dot :: name := by
  by_cases dotless : dot ∉ s
  · rw [findEnum?_of_notMem dotless, named.enums.enumNamed?_eq_some_iff] at found
    exact .inl ⟨s, found.1, found.2, .inl rfl⟩
  obtain ⟨outer, name, rfl, free⟩ := exists_eq_append_dot (not_not.1 dotless)
  rw [findEnum?_dot free] at found
  split_ifs at found with top
  · subst top
    obtain ⟨mem, given⟩ := named.enums.enumNamed?_eq_some_iff.1 found
    exact .inl ⟨name, mem, given, .inr rfl⟩
  · obtain ⟨m, foundMessage, foundEnum⟩ := Option.bind_eq_some_iff.1 found
    obtain ⟨place, here⟩ := named.findMessage?_eq_some_iff.1 foundMessage
    obtain ⟨mem, given⟩ := (named.nestedEnums here).enumNamed?_eq_some_iff.1 foundEnum
    exact .inr ⟨place, (outer, m), name, here, mem, given, rfl⟩

/-- The walk has an entry for each place of a message, in the order of the places, and no two under
one name. Each message is found under its name, and so are the enums nested in it and those of the
file. -/
theorem lookup_complete (named : f.WellNamed) :
    (f.places.Pairwise (· < ·) ∧ (∀ place, place ∈ f.places ↔ ∃ entry, f.HasAt place entry) ∧
        List.Forall₂ f.HasAt f.places f.walk) ∧
      (f.walk.map Prod.fst).Nodup ∧
      (∀ entry ∈ f.walk, f.findMessage? entry.1 = some entry.2 ∧
        ∀ e ∈ present entry.2.nestedEnums, ∀ name, e.name = some name →
          f.findEnum? (entry.1 ++ dot :: name) = some e) ∧
      ∀ e ∈ present f.enums, ∀ name, e.name = some name → f.findEnum? name = some e := by
  refine ⟨⟨Message.pairwise_placesOf _, fun place => mem_places_iff, named.forall₂_walk⟩,
    named.nodup_walk, fun entry mem => ?_,
    fun e mem name given => (named.findEnum?_top mem given).1⟩
  obtain ⟨place, here⟩ := named.mem_walk_iff.1 mem
  exact ⟨named.findMessage?_eq_some_iff.2 ⟨place, here⟩,
    fun e mem name given => named.findEnum?_nested here mem given⟩

end WellNamed

section Namesakes

/-- An enum that others are namesakes of. -/
def status (value : Text) : Enum where
  name := some "Status"
  values := some [some { name := some value }]

def innermost : Message where
  name := some "User"
  nestedEnums := some [some (status "INNER")]

def middle : Message where
  name := some "Group"
  nestedMessages := some [some innermost]

def outermost : Message where
  name := some "User"
  nestedMessages := some [some middle]
  nestedEnums := some [some (status "OUTER")]

/-- A message inside a message of its name, and enums of one name in three scopes. -/
def namesakes : File where
  messages := some [some outermost, some middle]
  enums := some [some (status "TOP")]

theorem wellNamed_namesakes : namesakes.WellNamed := by
  have alone (value : Text) : Scope Enum.name (some [some (status value)]) :=
    .of_names [status value] ["Status"] rfl (by decide) (by decide)
  have none_ {α : Type} (name : α → Option Text) : Scope name (some []) :=
    .of_names [] [] rfl (by decide) (by decide)
  have inner : innermost.WellNamed := .mk (none_ _) (alone _) (List.forall_mem_nil _)
  have mid : middle.WellNamed :=
    .mk (.of_names [innermost] ["User"] rfl (by decide) (by decide)) (none_ _)
      (List.forall_mem_singleton.2 inner)
  have outer : outermost.WellNamed :=
    .mk (.of_names [middle] ["Group"] rfl (by decide) (by decide)) (alone _)
      (List.forall_mem_singleton.2 mid)
  refine ⟨.of_names [outermost, middle] ["User", "Group"] rfl (by decide)
    (by decide), alone _, ?_⟩
  exact List.forall_mem_cons.2 ⟨outer, List.forall_mem_singleton.2 mid⟩

theorem lookup_complete_namesakes :
    namesakes.WellNamed ∧
      namesakes.walk.map Prod.fst =
        ["User", "User.Group", "User.Group.User", "Group", "Group.User"] ∧
      namesakes.findMessage? "User.Group.User" = some innermost ∧
      namesakes.findEnum? "User.Group.User.Status" = some (status "INNER") ∧
      namesakes.findEnum? "User.Status" = some (status "OUTER") ∧
      namesakes.findEnum? "Status" = some (status "TOP") := by
  obtain ⟨-, -, each, top⟩ := wellNamed_namesakes.lookup_complete
  have inner : (("User.Group.User" : Text), innermost) ∈ namesakes.walk :=
    .tail _ (.tail _ (.head _))
  have outer : (("User" : Text), outermost) ∈ namesakes.walk := .head _
  refine ⟨wellNamed_namesakes, rfl, (each _ inner).1, ?_, ?_, ?_⟩
  · exact (each _ inner).2 (status "INNER") (.head _) "Status" rfl
  · exact (each _ outer).2 (status "OUTER") (.head _) "Status" rfl
  · exact top (status "TOP") (.head _) "Status" rfl

end Namesakes

namespace WellNamed

/-- What is found under a name is the message, or the enum in the message, whose name that is; or it
is an enum of the file, under its name alone or with a dot before it. -/
theorem lookup_exact (named : f.WellNamed) (s : Text) :
    (∀ m, f.findMessage? s = some m ↔ ∃ place, f.HasAt place (s, m)) ∧
      ∀ e, f.findEnum? s = some e ↔
        (∃ name, e ∈ present f.enums ∧ e.name = some name ∧ (s = name ∨ s = dot :: name)) ∨
          ∃ place entry name, f.HasAt place entry ∧ e ∈ present entry.2.nestedEnums ∧
            e.name = some name ∧ s = entry.1 ++ dot :: name := by
  refine ⟨fun m => named.findMessage?_eq_some_iff, fun e => ⟨named.findEnum?_cases, ?_⟩⟩
  rintro (⟨name, mem, given, rfl | rfl⟩ | ⟨place, entry, name, here, mem, given, rfl⟩)
  · exact (named.findEnum?_top mem given).1
  · exact (named.findEnum?_top mem given).2
  · exact named.findEnum?_nested here mem given

theorem lookup_exact_namesakes :
    namesakes.WellNamed ∧ namesakes.findMessage? "User.Group" = some middle ∧
      namesakes.findEnum? "User.Status" = some (status "OUTER") ∧
      namesakes.findEnum? ".Status" = some (status "TOP") := by
  have exact_ := wellNamed_namesakes.lookup_exact
  have outer : namesakes.HasAt [0] ("User", outermost) := ⟨[], rfl, rfl⟩
  refine ⟨wellNamed_namesakes, ((exact_ _).1 middle).2 ⟨[0, 0], [outermost], rfl, rfl⟩, ?_, ?_⟩
  · refine ((exact_ _).2 (status "OUTER")).2 (.inr ?_)
    exact ⟨[0], ("User", outermost), "Status", outer, .head _, rfl, rfl⟩
  · exact ((exact_ _).2 (status "TOP")).2 (.inl ⟨"Status", .head _, rfl, .inr rfl⟩)

/-- A dot in front, which is no part of a qualified name, does not keep an enum from being found. -/
theorem findEnum?_leadingDot :
    ¬∀ f : File, f.WellNamed → ∀ s e, f.findEnum? s = some e →
      (∃ name, e ∈ present f.enums ∧ e.name = some name ∧ s = name) ∨
        ∃ place entry name, f.HasAt place entry ∧ e ∈ present entry.2.nestedEnums ∧
          e.name = some name ∧ s = entry.1 ++ dot :: name := by
  intro sound
  have found : namesakes.findEnum? ".Status" = some (status "TOP") :=
    (wellNamed_namesakes.findEnum?_top (.head _) rfl).2
  rcases sound _ wellNamed_namesakes _ _ found with
    ⟨name, -, given, eq⟩ | ⟨place, entry, name, here, -, given, eq⟩
  · obtain rfl := Option.some.inj given
    revert eq
    decide
  · obtain rfl := Option.some.inj given
    exact wellNamed_namesakes.name_ne_nil here (List.self_eq_append_left.1 eq)

end WellNamed

end File

end SchemaPlugin.Descriptor
