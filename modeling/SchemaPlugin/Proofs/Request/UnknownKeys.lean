import Mathlib
import SchemaPlugin.Proofs.Request.Carriers

/-!
Unknown keys. No request is read from a document that has, in a carrier however deep, a key that is
no name of a member; and only for such keys are unknown keys complained about. Of the maps, which
have keys of their own, a request that is read has all keys as they were.
-/

namespace SchemaPlugin

open Document (Step Keyed membersOf member? toParts toParts? toOptions? toText? toTexts?)
open Descriptor (Message EnumValue nestedMessagesNames nestedEnumsNames typeNameNames toNumber?)

theorem error_of_bind {ε α β : Type} {x : Except ε α} {f : α → Except ε β} {e : ε}
    (failed : (x >>= f) = .error e) (fine : x ≠ .error e) : ∃ a, x = .ok a ∧ f a = .error e :=
  (bind_eq_error_iff.1 failed).resolve_left fine

/-! ## What is complained about -/

/-- The keys that are unknown are all unknown keys of a carrier in the document. -/
def Blames (c : Carrier) (d : Document) (unknown : List (Text × Document)) : Prop :=
  ∃ path c' ms, Leads c path c' ∧ d.at? path = some (.object ms) ∧
    unknown = ms.filter (fun m => m.1 ∉ c'.names) ∧ unknown ≠ []

section Blames

variable {α : Type} {c c' : Carrier} {d : Document} {o : Option Document}
  {ms entries unknown : List (Text × Document)} {items : List Document} {names : List Text}
  {key name : Text} {i : Nat}

theorem Blames.list (blames : Blames c' d unknown) (listed : (names, .list c') ∈ c.members)
    (given : key ∈ names) (found : ms.lookup key = some (.array items))
    (here : items[i]? = some d) : Blames c (.object ms) unknown := by
  obtain ⟨path, c'', inner, leads, there, rest⟩ := blames
  exact ⟨.key key :: .index i :: path, c'', inner, .list listed given leads,
    Document.at?_cons_eq_some_iff.2 ⟨_, found, Document.at?_cons_eq_some_iff.2 ⟨_, here, there⟩⟩,
    rest⟩

theorem Blames.file (blames : Blames .file d unknown) (listed : (names, .files) ∈ c.members)
    (given : key ∈ names) (found : ms.lookup key = some (.object entries))
    (here : entries.lookup name = some d) : Blames c (.object ms) unknown := by
  obtain ⟨path, c'', inner, leads, there, rest⟩ := blames
  exact ⟨.key key :: .key name :: path, c'', inner, .file listed given leads,
    Document.at?_cons_eq_some_iff.2 ⟨_, found, Document.at?_cons_eq_some_iff.2 ⟨_, here, there⟩⟩,
    rest⟩

theorem blames_of_membersOf
    (h : membersOf (c.members.map Prod.fst) d = .error (.unknownKeys unknown)) :
    Blames c d unknown := by
  unfold membersOf at h
  split at h
  · rename_i ms
    split at h
    · cases h
    · rename_i some_
      cases h
      exact ⟨[], c, ms, .here, rfl, rfl, some_⟩
  · cases h

theorem exists_of_orDefault {default : Option α} {read : Document → Read α} {e : ShapeError}
    (h : Document.orDefault default read o = .error e) : ∃ d, o = some d ∧ read d = .error e := by
  unfold Document.orDefault at h
  split at h
  · cases h
  · cases h
  · rename_i d _
    rcases bind_eq_error_iff.1 h with h | ⟨_, -, h⟩
    · exact ⟨d, rfl, h⟩
    · cases h

theorem toText?_ne {default : Option Text} : toText? default o ≠ .error (.unknownKeys unknown) := by
  intro h
  obtain ⟨d, -, h⟩ := exists_of_orDefault h
  cases h

theorem not_unknownKeys_of_toItems {e : ShapeError} (h : d.toItems = .error e) :
    e ≠ .unknownKeys unknown := by
  rintro rfl
  cases d <;> cases h

theorem toTexts?_ne : toTexts? o ≠ .error (.unknownKeys unknown) := by
  intro h
  obtain ⟨d, -, h⟩ := exists_of_orDefault h
  rcases bind_eq_error_iff.1 h with h | ⟨_, -, h⟩
  · exact not_unknownKeys_of_toItems h rfl
  · cases h

theorem toNumber?_ne : toNumber? o ≠ .error (.unknownKeys unknown) := by
  intro h
  obtain ⟨d, -, h⟩ := exists_of_orDefault h
  unfold Descriptor.Number.ofDocument at h
  split at h
  · cases h
  · cases h
  · rcases bind_eq_error_iff.1 h with h | ⟨_, -, h⟩
    · cases integer : d.integer with
      | ok n => rw [integer] at h; cases h
      | error e => rw [integer] at h; cases h
    · cases h

theorem toLabel?_ne {default : Option Descriptor.Label} :
    Document.orDefault default Descriptor.Label.ofDocument o ≠ .error (.unknownKeys unknown) := by
  intro h
  obtain ⟨d, -, h⟩ := exists_of_orDefault h
  unfold Descriptor.Label.ofDocument at h
  split at h <;> cases h

theorem toOptions?_ne {value : Document → α} :
    toOptions? value o ≠ .error (.unknownKeys unknown) := by
  intro h
  obtain ⟨d, -, h⟩ := exists_of_orDefault h
  cases d <;> cases h

theorem exists_of_toParts {read : Document → Read α} {e : ShapeError}
    (h : toParts read items = .error e) :
    ∃ (i : Nat) (d : Document), items[i]? = some d ∧ read d = .error e := by
  induction items with
  | nil => cases h
  | cons d rest ih =>
    have later (h : toParts read rest = .error e) :
        ∃ (i : Nat) (d' : Document), (d :: rest)[i]? = some d' ∧ read d' = .error e := by
      obtain ⟨i, d', here, h⟩ := ih h
      exact ⟨i + 1, d', here, h⟩
    unfold toParts at h
    split at h
    · rename_i nothing
      cases nothing
    · rename_i same
      cases same
      rcases bind_eq_error_iff.1 h with h | ⟨_, -, h⟩
      · exact later h
      · cases h
    · rename_i same
      cases same
      rcases bind_eq_error_iff.1 h with h | ⟨_, -, h⟩
      · exact ⟨0, d, rfl, h⟩
      rcases bind_eq_error_iff.1 h with h | ⟨_, -, h⟩
      · exact later h
      · cases h

theorem string_ne {names : List (List Text)} {f : List (Text × Document) → Read α} (t : Text) :
    (membersOf names (.string t) >>= f) ≠ .error (.unknownKeys unknown) := by
  rintro ⟨⟩

/-- What is no array has only strings for items, and those are no carriers. -/
theorem blames_of_toParts? {read : Document → Read α}
    (keyed : (Document.object ms).Throughout Keyed) (listed : (names, .list c') ∈ c.members)
    (strings : ∀ t, read (.string t) ≠ .error (.unknownKeys unknown))
    (each : ∀ key items, (key, .array items) ∈ ms → ∀ d ∈ items, d.Throughout Keyed →
      read d = .error (.unknownKeys unknown) → Blames c' d unknown)
    (h : toParts? read (member? names ms) = .error (.unknownKeys unknown)) :
    Blames c (.object ms) unknown := by
  obtain ⟨d, found, failed⟩ := exists_of_orDefault h
  obtain ⟨key, given, member⟩ := Document.mem_of_member? found
  have there := (OrderedMap.lookup_eq_some_iff keyed.members).2 member
  obtain ⟨items, made, failed⟩ := error_of_bind failed fun h => not_unknownKeys_of_toItems h rfl
  obtain ⟨i, item, here, refused⟩ := exists_of_toParts failed
  have mem := List.mem_of_getElem? here
  rcases Document.toItems_cases made with rfl | texts
  · have inner := (keyed.of_lookup there).items item mem
    exact (each key items member item mem inner refused).list listed given there here
  · obtain ⟨t, rfl⟩ := texts item mem
    exact (strings t refused).elim

theorem Descriptor.EnumValue.blames
    (failed : EnumValue.ofDocument d = .error (.unknownKeys unknown)) :
    Blames .enumValue d unknown := by
  rcases bind_eq_error_iff.1 failed with h | ⟨_, -, rest⟩
  · exact blames_of_membersOf h
  obtain ⟨_, -, rest⟩ := error_of_bind rest toText?_ne
  obtain ⟨_, -, rest⟩ := error_of_bind rest toNumber?_ne
  cases rest

theorem Descriptor.Field.blames
    (failed : Descriptor.Field.ofDocument d = .error (.unknownKeys unknown)) :
    Blames .field d unknown := by
  rcases bind_eq_error_iff.1 failed with h | ⟨_, -, rest⟩
  · exact blames_of_membersOf h
  obtain ⟨_, -, rest⟩ := error_of_bind rest toText?_ne
  obtain ⟨_, -, rest⟩ := error_of_bind rest toNumber?_ne
  obtain ⟨_, -, rest⟩ := error_of_bind rest toLabel?_ne
  obtain ⟨_, -, rest⟩ := error_of_bind rest toNumber?_ne
  obtain ⟨_, -, rest⟩ := error_of_bind rest toText?_ne
  obtain ⟨_, -, rest⟩ := error_of_bind rest toOptions?_ne
  cases rest

theorem Descriptor.Enum.blames (keyed : d.Throughout Keyed)
    (failed : Descriptor.Enum.ofDocument d = .error (.unknownKeys unknown)) :
    Blames .enum d unknown := by
  rcases bind_eq_error_iff.1 failed with h | ⟨ms, object, rest⟩
  · exact blames_of_membersOf h
  obtain rfl := Document.eq_object_of_membersOf object
  obtain ⟨_, -, rest⟩ := error_of_bind rest toText?_ne
  rcases bind_eq_error_iff.1 rest with h | ⟨_, -, rest⟩
  · exact blames_of_toParts? keyed (by simp [Carrier.members]) string_ne
      (fun _ _ _ _ _ _ => EnumValue.blames) h
  cases rest

theorem Descriptor.Message.blames (keyed : d.Throughout Keyed)
    (failed : Message.ofDocument d = .error (.unknownKeys unknown)) :
    Blames .message d unknown := by
  induction d using Document.induct_items with
  | step d ih =>
    rw [Message.ofDocument_eq] at failed
    rcases bind_eq_error_iff.1 failed with h | ⟨ms, object, rest⟩
    · exact blames_of_membersOf h
    obtain rfl := Document.eq_object_of_membersOf object
    obtain ⟨_, -, rest⟩ := error_of_bind rest toText?_ne
    rcases bind_eq_error_iff.1 rest with h | ⟨_, -, rest⟩
    · exact blames_of_toParts? keyed (by simp [Carrier.members]) string_ne
        (fun _ _ _ _ _ _ => Descriptor.Field.blames) h
    rcases bind_eq_error_iff.1 rest with h | ⟨_, -, rest⟩
    · exact blames_of_toParts? keyed (by simp [Carrier.members]) (fun _ => by rintro ⟨⟩)
        (fun key items => ih ms key items rfl) h
    rcases bind_eq_error_iff.1 rest with h | ⟨_, -, rest⟩
    · exact blames_of_toParts? keyed (by simp [Carrier.members]) string_ne
        (fun _ _ _ _ _ => Descriptor.Enum.blames) h
    obtain ⟨_, -, rest⟩ := error_of_bind rest toOptions?_ne
    cases rest

theorem Descriptor.File.blames (keyed : d.Throughout Keyed)
    (failed : Descriptor.File.ofDocument d = .error (.unknownKeys unknown)) :
    Blames .file d unknown := by
  rcases bind_eq_error_iff.1 failed with h | ⟨ms, object, rest⟩
  · exact blames_of_membersOf h
  obtain rfl := Document.eq_object_of_membersOf object
  obtain ⟨_, -, rest⟩ := error_of_bind rest toText?_ne
  obtain ⟨_, -, rest⟩ := error_of_bind rest toText?_ne
  obtain ⟨_, -, rest⟩ := error_of_bind rest toTexts?_ne
  rcases bind_eq_error_iff.1 rest with h | ⟨_, -, rest⟩
  · exact blames_of_toParts? keyed (by simp [Carrier.members]) (fun _ => by rintro ⟨⟩)
      (fun _ _ _ _ _ => Message.blames) h
  rcases bind_eq_error_iff.1 rest with h | ⟨_, -, rest⟩
  · exact blames_of_toParts? keyed (by simp [Carrier.members]) string_ne
      (fun _ _ _ _ _ => Descriptor.Enum.blames) h
  obtain ⟨_, -, rest⟩ := error_of_bind rest toOptions?_ne
  cases rest

theorem exists_of_fileMembers {e : ShapeError} (h : Request.fileMembers entries = .error e) :
    ∃ member ∈ entries, Descriptor.File.ofDocument member.2 = .error e := by
  induction entries with
  | nil => cases h
  | cons member rest ih =>
    have later (h : Request.fileMembers rest = .error e) :
        ∃ m ∈ member :: rest, Descriptor.File.ofDocument m.2 = .error e := by
      obtain ⟨m, mem, h⟩ := ih h
      exact ⟨m, List.mem_cons_of_mem _ mem, h⟩
    unfold Request.fileMembers at h
    split at h
    · rename_i nothing
      cases nothing
    · rename_i same
      cases same
      rcases bind_eq_error_iff.1 h with h | ⟨_, -, h⟩
      · exact later h
      · cases h
    · rename_i same
      cases same
      rcases bind_eq_error_iff.1 h with h | ⟨_, -, h⟩
      · exact ⟨_, List.mem_cons_self, h⟩
      rcases bind_eq_error_iff.1 h with h | ⟨_, -, h⟩
      · exact later h
      · cases h

theorem filed_ne {listed : List (Text × Option Descriptor.File)} :
    Request.filed listed ≠ .error (.unknownKeys unknown) := by
  intro h
  induction listed with
  | nil => cases h
  | cons entry rest ih =>
    obtain ⟨name, file⟩ := entry
    cases file with
    | none => cases h
    | some f =>
      rcases bind_eq_error_iff.1 h with h | ⟨_, -, h⟩
      · exact ih h
      · cases h

theorem Request.blames (keyed : d.Throughout Keyed)
    (failed : Request.ofDocument d = .error (.unknownKeys unknown)) :
    Blames .request d unknown := by
  cases d with
  | object ms =>
    rcases bind_eq_error_iff.1 failed with h | ⟨_, -, rest⟩
    · exact blames_of_membersOf h
    obtain ⟨_, -, rest⟩ := error_of_bind rest toTexts?_ne
    obtain ⟨_, -, rest⟩ := error_of_bind rest toText?_ne
    rcases bind_eq_error_iff.1 rest with refused | ⟨_, -, rest⟩
    · unfold Request.protoFilesOf at refused
      split at refused
      · cases refused
      · cases refused
      · rename_i files found
        obtain ⟨key, given, member⟩ := Document.mem_of_member? found
        have there := (OrderedMap.lookup_eq_some_iff keyed.members).2 member
        have inner := keyed.of_lookup there
        rcases bind_eq_error_iff.1 refused with h | ⟨_, -, h⟩
        · obtain ⟨member, mem, h⟩ := exists_of_fileMembers h
          have here := (OrderedMap.lookup_eq_some_iff inner.members).2 mem
          exact (Descriptor.File.blames (inner.of_lookup here) h).file
            (by simp [Carrier.members]) given there here
        rcases bind_eq_error_iff.1 h with h | ⟨_, -, h⟩
        · exact (filed_ne h).elim
        · cases h
      · cases refused
    · cases rest
  | _ => cases failed

end Blames

namespace Request

/-- What comes of a JSON source that the document was parsed from, a text or one in bytes. -/
inductive Sourced (d : Document) : Except SourceError Request → Prop
  | text {t : Text} (parsed : Document.parse t = .ok d) : Sourced d (ofText t)
  | bytes {source : Bytes} (parsed : Document.ofBytes source = .ok d) : Sourced d (ofBytes source)

variable {d : Document} {result : Except SourceError Request}

theorem Sourced.result_eq (sourced : Sourced d result) :
    result = (ofDocument d).mapError .shape := by
  cases sourced with
  | text parsed => rw [ofText, parsed]; rfl
  | bytes parsed => rw [ofBytes, parsed]; rfl

theorem Sourced.keyed (sourced : Sourced d result) : d.Throughout Keyed := by
  cases sourced with
  | text parsed => exact Document.keyed_of_parse parsed
  | bytes parsed => exact Document.keyed_of_ofBytes parsed

/-- In a document that gives no member under two names, a key that is unknown to its carrier keeps
the request from being read. In a request that is read, each carrier is the part at the same place,
and each map has the keys that it had in the document, in their order. No keys but those of a
carrier are complained about as unknown. -/
theorem keys_never_dropped (sourced : Sourced d result)
    (single : ∀ path c ms, d.Carries path c ms → c.Single ms) :
    (∀ path c ms, d.Carries path c ms → ∀ m ∈ ms, m.1 ∉ c.names → ∃ e, result = .error e) ∧
      (∀ r, result = .ok r → ∀ path c ms, d.Carries path c ms →
        ∃ n, (Node.request r).at? path = some n ∧ Reads c (.object ms) n ∧
          ∀ names, (names, .map) ∈ c.members ∨ (names, .files) ∈ c.members →
            ∀ key ∈ names, ∀ entries, (key, .object entries) ∈ ms →
              n.mapKeys = entries.map Prod.fst) ∧
      ∀ unknown, result = .error (.shape (.unknownKeys unknown)) → Blames .request d unknown := by
  have keyed := sourced.keyed
  have eq := sourced.result_eq
  have reached {r : Request} (read : ofDocument d = .ok r) {path : List Step} {c : Carrier}
      {ms : List (Text × Document)} (carries : d.Carries path c ms) :=
    (Reads.request read).at? keyed (fun path c ms leads found => single path c ms ⟨leads, found⟩)
      carries.1 carries.2
  refine ⟨fun path c ms carries m mem unknown => ?_, fun r ok path c ms carries => ?_,
    fun unknown refused => ?_⟩
  · cases read : ofDocument d with
    | error e => exact ⟨.shape e, by rw [eq, read]; rfl⟩
    | ok r =>
      obtain ⟨n, -, reads⟩ := reached read carries
      exact absurd (reads.mem_names m mem) unknown
  · obtain ⟨n, there, reads⟩ := reached (mapError_eq_ok_iff.1 (eq.symm.trans ok)) carries
    refine ⟨n, there, reads, fun names listed key given entries mem => ?_⟩
    have own := (keyed.at? carries.2).members
    have found := (OrderedMap.lookup_eq_some_iff own).2 mem
    have inner := ((keyed.at? carries.2).of_lookup found).members
    have counts : member? names ms = some (.object entries) := by
      rcases listed with listed | listed <;>
        exact (single path c ms carries).member?_eq_some own listed given found
    exact reads.mapKeys_eq listed counts inner
  · cases read : ofDocument d with
    | error e =>
      rw [eq, read] at refused
      cases refused
      exact blames keyed read
    | ok r =>
      rw [eq, read] at refused
      cases refused

theorem single_of_throughout (h : d.Throughout fun ms => ∀ c : Carrier, c.Single ms)
    (path : List Step) (c : Carrier) (ms : List (Text × Document)) (carries : d.Carries path c ms) :
    c.Single ms :=
  (h.at? carries.2).members c

section Given

def misspeltSource : Text :=
  "\x7b\"protoFiles\":\x7b\"a.proto\":\x7b\"messages\":[" ++
    "\x7b\"nested_messages\":[\x7b\"nmae\":\"A\"\x7d]\x7d]\x7d\x7d\x7d"

/-- A document with a misspelt name, in a message inside another one. -/
def misspelt : Document :=
  .object [("protoFiles", .object [("a.proto", .object [("messages", .array [
    .object [("nested_messages", .array [.object [("nmae", .string "A")]])]])])])]

def customSource : Text :=
  "\x7b\"proto_files\":\x7b\"a.proto\":\x7b\"options\":" ++
    "\x7b\"z\":\"1\",\"a b\":\"2\"\x7d\x7d\x7d\x7d"

/-- A document with options that nothing is known of. -/
def custom : Document :=
  .object [("proto_files", .object [("a.proto", .object [("options", .object [
    ("z", .string "1"), ("a b", .string "2")])])])]

def customized : Request where
  protoFiles := .ofList [("a.proto", {
    name := some "a.proto"
    options := some (.ofList [("z", "1"), ("a b", "2")]) })]

theorem throughout_alone (key : Text)
    (h : d.Throughout fun ms => ∀ c : Carrier, c.Single ms) :
    (Document.object [(key, d)]).Throughout fun ms => ∀ c : Carrier, c.Single ms :=
  .object (Carrier.single_singleton key d) (List.forall_mem_singleton.2 h)

theorem throughout_misspelt : misspelt.Throughout fun ms => ∀ c : Carrier, c.Single ms := by
  have inner := throughout_alone "nested_messages"
    (.array (List.forall_mem_singleton.2 (throughout_alone "nmae" (.string "A"))))
  have outer := throughout_alone "messages" (.array (List.forall_mem_singleton.2 inner))
  exact throughout_alone "protoFiles" (throughout_alone "a.proto" outer)

theorem throughout_custom : custom.Throughout fun ms => ∀ c : Carrier, c.Single ms := by
  have two : ∀ c : Carrier, c.Single [("z", .string "1"), ("a b", .string "2")] := by
    rintro (_ | _ | _ | _ | _ | _) <;> decide
  have options : (Document.object [("z", .string "1"), ("a b", .string "2")]).Throughout
      fun ms => ∀ c : Carrier, c.Single ms :=
    .object two (List.forall_mem_cons.2 ⟨.string "1", List.forall_mem_singleton.2 (.string "2")⟩)
  exact throughout_alone "proto_files" (throughout_alone "a.proto"
    (throughout_alone "options" options))

theorem keys_never_dropped_given :
    (Sourced misspelt (ofText misspeltSource) ∧
        (∀ path c ms, misspelt.Carries path c ms → c.Single ms) ∧
        ∃ e, ofText misspeltSource = .error e) ∧
      Sourced custom (ofText customSource) ∧
      (∀ path c ms, custom.Carries path c ms → c.Single ms) ∧
      ∃ n, (Node.request customized).at? [.key "proto_files", .key "a.proto"] = some n ∧
        n.mapKeys = ["z", "a b"] := by
  have refused : Sourced misspelt (ofText misspeltSource) := .text (by cbv)
  have accepted : Sourced custom (ofText customSource) := .text (by cbv)
  have read : ofText customSource = .ok customized := by cbv
  have single := single_of_throughout throughout_misspelt
  have single' := single_of_throughout throughout_custom
  have files : (protoFilesNames, .files) ∈ Carrier.request.members := by simp [Carrier.members]
  have messages : ([("messages" : Text)], .list .message) ∈ Carrier.file.members := by
    simp [Carrier.members]
  have nested : (nestedMessagesNames, .list .message) ∈ Carrier.message.members := by
    simp [Carrier.members]
  have innermost : Leads .request [.key "protoFiles", .key "a.proto", .key "messages", .index 0,
      .key "nested_messages", .index 0] .message :=
    .file files (by decide) (.list messages (by decide) (.list nested (by decide) .here))
  have file : Leads .request [.key "proto_files", .key "a.proto"] .file :=
    .file files (by decide) .here
  obtain ⟨error, -⟩ := keys_never_dropped refused single
  obtain ⟨-, parts, -⟩ := keys_never_dropped accepted single'
  obtain ⟨n, there, -, keys⟩ := parts customized read _ .file _ ⟨file, rfl⟩
  refine ⟨⟨refused, single, ?_⟩, accepted, single', n, there, ?_⟩
  · exact error _ .message _ ⟨innermost, rfl⟩ _ List.mem_cons_self (by decide)
  · exact keys ["options"] (.inl (by simp [Carrier.members])) "options" List.mem_cons_self _
      List.mem_cons_self

end Given

end Request

end SchemaPlugin
