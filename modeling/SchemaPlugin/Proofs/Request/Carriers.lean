import SchemaPlugin.Proofs.Descriptor.Joined
import SchemaPlugin.Proofs.Descriptor.NestedMessages
import SchemaPlugin.Proofs.Document.Places
import SchemaPlugin.Request.Document

/-!
The carriers of a request: the objects that a document gives for it, its files, their messages and
enums, and the parts of those. A carrier has members of certain names; some of them hold lists of
carriers, one holds the files, and the options hold whatever keys they like. Where a request was
read from a document, each carrier was read as the part of the request that is at the same place.
-/

namespace SchemaPlugin

open Document (Step Keyed membersOf member? toParts toParts? toOptions?)
open Descriptor (Message EnumValue nestedMessagesNames nestedEnumsNames typeNameNames optionNames)

/-! ## What the members of a carrier hold -/

inductive Carrier
  | request
  | file
  | message
  | field
  | enum
  | enumValue

inductive Holding
  | plain
  | map
  | list (c : Carrier)
  | files

namespace Carrier

/-- The members that a carrier can have, each under any of its names. -/
def members : Carrier → List (List Text × Holding)
  | request =>
    [(Request.filesToGenerateNames, .plain), (["parameter"], .plain),
      (Request.protoFilesNames, .files)]
  | file =>
    [(["name"], .plain), (["package"], .plain), (["dependencies"], .plain),
      (["messages"], .list message), (["enums"], .list enum), (["options"], .map)]
  | message =>
    [(["name"], .plain), (["fields"], .list field), (nestedMessagesNames, .list message),
      (nestedEnumsNames, .list enum), (["options"], .map)]
  | field =>
    [(["name"], .plain), (["number"], .plain), (["label"], .plain), (["type"], .plain),
      (typeNameNames, .plain), (["options"], .map)]
  | enum => [(["name"], .plain), (["values"], .list enumValue)]
  | enumValue => [(["name"], .plain), (["number"], .plain)]

def names (c : Carrier) : List Text := (c.members.map Prod.fst).flatten

/-- No member is given under two names. -/
def Single (c : Carrier) (ms : List (Text × Document)) : Prop :=
  ∀ member ∈ c.members, ∀ key ∈ member.1, ∀ other ∈ member.1,
    key ∈ ms.map Prod.fst → other ∈ ms.map Prod.fst → other = key

instance (c : Carrier) (ms : List (Text × Document)) : Decidable (c.Single ms) :=
  inferInstanceAs (Decidable (∀ member ∈ c.members, _))

theorem single_singleton (key : Text) (d : Document) (c : Carrier) : c.Single [(key, d)] := by
  intro _ _ k _ other _ here there
  rw [List.map_singleton, List.mem_singleton] at here there
  rw [here, there]

end Carrier

/-- A path leads from a carrier to another one inside it. -/
inductive Leads : Carrier → List Step → Carrier → Prop
  | here {c : Carrier} : Leads c [] c
  | list {c c' c'' : Carrier} {names : List Text} {key : Text} {i : Nat} {path : List Step}
      (listed : (names, .list c') ∈ c.members) (given : key ∈ names) (inside : Leads c' path c'') :
      Leads c (.key key :: .index i :: path) c''
  | file {c c' : Carrier} {names : List Text} {key name : Text} {path : List Step}
      (listed : (names, .files) ∈ c.members) (given : key ∈ names) (inside : Leads .file path c') :
      Leads c (.key key :: .key name :: path) c'

/-- An object of a document where a carrier is read, a request being read from the whole. -/
def Document.Carries (d : Document) (path : List Step) (c : Carrier)
    (ms : List (Text × Document)) : Prop :=
  Leads .request path c ∧ d.at? path = some (.object ms)

/-! ## The parts of a request, by place -/

/-- What is read from carriers. -/
inductive Node
  | request (r : Request)
  | file (f : Descriptor.File)
  | message (m : Message)
  | field (f : Descriptor.Field)
  | enum (e : Descriptor.Enum)
  | enumValue (v : EnumValue)

namespace Node

def part? {α : Type} (parts : Option (List (Option α))) (i : Nat) : Option α :=
  (parts.getD [])[i]?.join

/-- The part that is under a key. -/
def child? : Node → Text → Step → Option Node
  | request r, key, .key name =>
    if key ∈ Request.protoFilesNames then (r.protoFiles.get? name).map file else none
  | file f, key, .index i =>
    if key ∈ [("messages" : Text)] then (part? f.messages i).map message
    else if key ∈ [("enums" : Text)] then (part? f.enums i).map enum
    else none
  | message m, key, .index i =>
    if key ∈ [("fields" : Text)] then (part? m.fields i).map field
    else if key ∈ nestedMessagesNames then (part? m.nestedMessages i).map message
    else if key ∈ nestedEnumsNames then (part? m.nestedEnums i).map enum
    else none
  | enum e, key, .index i =>
    if key ∈ [("values" : Text)] then (part? e.values i).map enumValue else none
  | _, _, _ => none

/-- The part at a place, of which every second step goes into a list or map. -/
def at? : Node → List Step → Option Node
  | n, [] => some n
  | n, .key key :: step :: path => (n.child? key step).bind fun n => n.at? path
  | _, _ => none

/-- The keys of the map that the part has: of its options, or of the files. -/
def mapKeys : Node → List Text
  | request r => r.protoFiles.keys
  | file f => optionNames f.options
  | message m => optionNames m.options
  | field f => optionNames f.options
  | enum _ => []
  | enumValue _ => []

end Node

/-- A part that was read from a document as one carrier. A file has then been given the name that it
is filed under, if it had none. -/
inductive Reads : Carrier → Document → Node → Prop
  | request {d : Document} {r : Request} (read : Request.ofDocument d = .ok r) :
      Reads .request d (.request r)
  | file {d : Document} {f : Descriptor.File} (name : Text)
      (read : Descriptor.File.ofDocument d = .ok f) : Reads .file d (.file (Request.named name f))
  | message {d : Document} {m : Message} (read : Message.ofDocument d = .ok m) :
      Reads .message d (.message m)
  | field {d : Document} {f : Descriptor.Field} (read : Descriptor.Field.ofDocument d = .ok f) :
      Reads .field d (.field f)
  | enum {d : Document} {e : Descriptor.Enum} (read : Descriptor.Enum.ofDocument d = .ok e) :
      Reads .enum d (.enum e)
  | enumValue {d : Document} {v : EnumValue} (read : EnumValue.ofDocument d = .ok v) :
      Reads .enumValue d (.enumValue v)

section Members

variable {α : Type} {read : Document → Read α} {o : Option Document} {items : List Document}
  {ms inner entries : List (Text × Document)} {i : Nat}

theorem Document.mem_flatten_of_membersOf {names : List (List Text)}
    (h : membersOf names (.object ms) = .ok inner) : ∀ m ∈ ms, m.1 ∈ names.flatten := by
  intro m mem
  by_contra unknown
  have filtered : m ∈ ms.filter fun m => m.1 ∉ names.flatten :=
    List.mem_filter.2 ⟨mem, by simpa using unknown⟩
  rw [membersOf] at h
  split at h
  · rename_i none_
    rw [none_] at filtered
    cases filtered
  · cases h

theorem Document.getElem?_of_toParts {parts : List (Option α)} (h : toParts read items = .ok parts)
    (here : items[i]? = some (.object inner)) :
    ∃ a, read (.object inner) = .ok a ∧ parts[i]? = some (some a) := by
  induction items generalizing i parts with
  | nil => cases here
  | cons d rest ih =>
    obtain ⟨part, others, rfl, listed, first⟩ := toParts_cons_eq_ok h
    cases i with
    | zero =>
      obtain rfl := Option.some.inj here
      obtain ⟨a, read, rfl⟩ := first.resolve_left nofun
      exact ⟨a, read, rfl⟩
    | succ i =>
      obtain ⟨a, read, there⟩ := ih listed here
      exact ⟨a, read, there⟩

theorem Document.part?_of_toParts? {parts : Option (List (Option α))}
    (h : toParts? read o = .ok parts) (found : o = some (.array items)) (here : items[i]? = some (.object inner)) :
    ∃ a, read (.object inner) = .ok a ∧ Node.part? parts i = some a := by
  subst found
  obtain ⟨listed, parted, eq⟩ := bind_eq_ok_iff.1 h
  cases eq
  obtain ⟨a, first, there⟩ := getElem?_of_toParts parted here
  exact ⟨a, first, by rw [Node.part?, Option.getD_some, there]; rfl⟩

theorem Document.optionNames_of_toOptions? {value : Document → α} {options : Option (OrderedMap α)}
    (h : toOptions? value o = .ok options) (found : o = some (.object entries))
    (keyed : Keyed entries) : optionNames options = entries.map Prod.fst := by
  subst found
  obtain ⟨map, made, eq⟩ := bind_eq_ok_iff.1 h
  cases made
  cases eq
  have keys : (entries.map fun m => (m.1, value m.2)).map Prod.fst = entries.map Prod.fst := by
    rw [List.map_map]
    rfl
  change ((OrderedMap.ofList _).entries).map Prod.fst = _
  rw [OrderedMap.entries_ofList (keys ▸ keyed), keys]

end Members

section Named

variable (name : Text) (f : Descriptor.File)

@[simp] theorem Request.messages_named : (Request.named name f).messages = f.messages := by
  unfold Request.named
  split <;> rfl

@[simp] theorem Request.enums_named : (Request.named name f).enums = f.enums := by
  unfold Request.named
  split <;> rfl

@[simp] theorem Request.options_named : (Request.named name f).options = f.options := by
  unfold Request.named
  split <;> rfl

end Named

/-! ## What reading a carrier comes to -/

section Inversion

open Document (eq_object_of_membersOf mem_flatten_of_membersOf)

variable {ms : List (Text × Document)}

theorem Descriptor.EnumValue.of_ofDocument {v : EnumValue}
    (read : EnumValue.ofDocument (.object ms) = .ok v) :
    ∀ m ∈ ms, m.1 ∈ Carrier.enumValue.names := by
  obtain ⟨_, object, -⟩ := bind_eq_ok_iff.1 read
  exact mem_flatten_of_membersOf object

theorem Descriptor.Enum.of_ofDocument {e : Descriptor.Enum}
    (read : Descriptor.Enum.ofDocument (.object ms) = .ok e) :
    (∀ m ∈ ms, m.1 ∈ Carrier.enum.names) ∧
      toParts? EnumValue.ofDocument (member? ["values"] ms) = .ok e.values := by
  obtain ⟨members, object, h⟩ := bind_eq_ok_iff.1 read
  cases eq_object_of_membersOf object
  obtain ⟨_, -, h⟩ := bind_eq_ok_iff.1 h
  obtain ⟨values, readValues, eq⟩ := bind_eq_ok_iff.1 h
  cases eq
  exact ⟨mem_flatten_of_membersOf object, readValues⟩

theorem Descriptor.Field.of_ofDocument {f : Descriptor.Field}
    (read : Descriptor.Field.ofDocument (.object ms) = .ok f) :
    (∀ m ∈ ms, m.1 ∈ Carrier.field.names) ∧
      toOptions? Document.truth (member? ["options"] ms) = .ok f.options := by
  obtain ⟨members, object, h⟩ := bind_eq_ok_iff.1 read
  cases eq_object_of_membersOf object
  obtain ⟨_, -, h⟩ := bind_eq_ok_iff.1 h
  obtain ⟨_, -, h⟩ := bind_eq_ok_iff.1 h
  obtain ⟨_, -, h⟩ := bind_eq_ok_iff.1 h
  obtain ⟨_, -, h⟩ := bind_eq_ok_iff.1 h
  obtain ⟨_, -, h⟩ := bind_eq_ok_iff.1 h
  obtain ⟨options, readOptions, eq⟩ := bind_eq_ok_iff.1 h
  cases eq
  exact ⟨mem_flatten_of_membersOf object, readOptions⟩

theorem Descriptor.Message.of_ofDocument {m : Message}
    (read : Message.ofDocument (.object ms) = .ok m) :
    (∀ member ∈ ms, member.1 ∈ Carrier.message.names) ∧
      toParts? Descriptor.Field.ofDocument (member? ["fields"] ms) = .ok m.fields ∧
      toParts? Message.ofDocument (member? nestedMessagesNames ms) = .ok m.nestedMessages ∧
      toParts? Descriptor.Enum.ofDocument (member? nestedEnumsNames ms) = .ok m.nestedEnums ∧
      toOptions? Document.truth (member? ["options"] ms) = .ok m.options := by
  rw [Message.ofDocument_eq] at read
  obtain ⟨members, object, h⟩ := bind_eq_ok_iff.1 read
  cases eq_object_of_membersOf object
  obtain ⟨_, -, h⟩ := bind_eq_ok_iff.1 h
  obtain ⟨fields, readFields, h⟩ := bind_eq_ok_iff.1 h
  obtain ⟨messages, readMessages, h⟩ := bind_eq_ok_iff.1 h
  obtain ⟨enums, readEnums, h⟩ := bind_eq_ok_iff.1 h
  obtain ⟨options, readOptions, eq⟩ := bind_eq_ok_iff.1 h
  cases eq
  exact ⟨mem_flatten_of_membersOf object, readFields, readMessages, readEnums, readOptions⟩

theorem Descriptor.File.of_ofDocument {f : Descriptor.File}
    (read : Descriptor.File.ofDocument (.object ms) = .ok f) :
    (∀ m ∈ ms, m.1 ∈ Carrier.file.names) ∧
      toParts? Message.ofDocument (member? ["messages"] ms) = .ok f.messages ∧
      toParts? Descriptor.Enum.ofDocument (member? ["enums"] ms) = .ok f.enums ∧
      toOptions? Document.toText (member? ["options"] ms) = .ok f.options := by
  obtain ⟨members, object, h⟩ := bind_eq_ok_iff.1 read
  cases eq_object_of_membersOf object
  obtain ⟨_, -, h⟩ := bind_eq_ok_iff.1 h
  obtain ⟨_, -, h⟩ := bind_eq_ok_iff.1 h
  obtain ⟨_, -, h⟩ := bind_eq_ok_iff.1 h
  obtain ⟨messages, readMessages, h⟩ := bind_eq_ok_iff.1 h
  obtain ⟨enums, readEnums, h⟩ := bind_eq_ok_iff.1 h
  obtain ⟨options, readOptions, eq⟩ := bind_eq_ok_iff.1 h
  cases eq
  exact ⟨mem_flatten_of_membersOf object, readMessages, readEnums, readOptions⟩

theorem Request.of_ofDocument {r : Request} (read : Request.ofDocument (.object ms) = .ok r) :
    (∀ m ∈ ms, m.1 ∈ Carrier.request.names) ∧
      Request.protoFilesOf (member? Request.protoFilesNames ms) = .ok r.protoFiles := by
  obtain ⟨_, object, h⟩ := bind_eq_ok_iff.1 read
  obtain ⟨_, -, h⟩ := bind_eq_ok_iff.1 h
  obtain ⟨_, -, h⟩ := bind_eq_ok_iff.1 h
  obtain ⟨files, readFiles, eq⟩ := bind_eq_ok_iff.1 h
  cases eq
  exact ⟨mem_flatten_of_membersOf object, readFiles⟩

/-- Each file is filed under its name, in the order of the document. -/
theorem Request.forall₂_filed {files : List (Text × Document)}
    {listed : List (Text × Option Descriptor.File)} {filed_ : List (Text × Descriptor.File)}
    (readMembers : Request.fileMembers files = .ok listed)
    (read : Request.filed listed = .ok filed_) :
    List.Forall₂ (fun member entry => entry.1 = member.1 ∧
      ∃ f, Descriptor.File.ofDocument member.2 = .ok f ∧ entry.2 = Request.named member.1 f)
      files filed_ := by
  induction files generalizing listed filed_ with
  | nil =>
    cases readMembers
    cases read
    exact .nil
  | cons member rest ih =>
    unfold Request.fileMembers at readMembers
    split at readMembers
    · rename_i nothing
      cases nothing
    · obtain ⟨others, -, eq⟩ := bind_eq_ok_iff.1 readMembers
      cases eq
      cases read
    · rename_i same
      cases same
      obtain ⟨f, readFirst, readMembers⟩ := bind_eq_ok_iff.1 readMembers
      obtain ⟨others, readOthers, eq⟩ := bind_eq_ok_iff.1 readMembers
      cases eq
      obtain ⟨entries, filedOthers, eq⟩ := bind_eq_ok_iff.1 read
      cases eq
      exact .cons ⟨rfl, f, readFirst, rfl⟩ (ih readOthers filedOthers)

end Inversion

namespace Reads

open Document (part?_of_toParts? optionNames_of_toOptions?)

variable {c c' : Carrier} {n : Node} {ms inner entries : List (Text × Document)}
  {items : List Document} {names : List Text} {key name : Text} {i : Nat} {d : Document}

theorem mem_names (reads : Reads c (.object ms) n) : ∀ m ∈ ms, m.1 ∈ c.names := by
  cases reads with
  | request read => exact (Request.of_ofDocument read).1
  | file _ read => exact (Descriptor.File.of_ofDocument read).1
  | message read => exact (Message.of_ofDocument read).1
  | field read => exact (Descriptor.Field.of_ofDocument read).1
  | enum read => exact (Descriptor.Enum.of_ofDocument read).1
  | enumValue read => exact EnumValue.of_ofDocument read

/-- An object in a list was read as the part at the same place in the list. -/
theorem child_list (reads : Reads c (.object ms) n) (listed : (names, .list c') ∈ c.members)
    (given : key ∈ names) (found : member? names ms = some (.array items))
    (here : items[i]? = some (.object inner)) :
    ∃ child, n.child? key (.index i) = some child ∧ Reads c' (.object inner) child := by
  cases reads with
  | request | field | enumValue => simp [Carrier.members] at listed
  | file name read =>
    obtain ⟨-, messages, enums, -⟩ := Descriptor.File.of_ofDocument read
    simp only [Node.child?, Request.messages_named, Request.enums_named]
    obtain ⟨rfl, rfl⟩ | ⟨rfl, rfl⟩ : (names = [("messages" : Text)] ∧ c' = .message) ∨
        names = [("enums" : Text)] ∧ c' = .enum := by simpa [Carrier.members] using listed
    · obtain ⟨m, first, there⟩ := part?_of_toParts? messages found here
      exact ⟨.message m, by rw [if_pos given, there]; rfl, .message first⟩
    · have other : ∀ key ∈ [("enums" : Text)], key ∉ [("messages" : Text)] := by decide
      obtain ⟨e, first, there⟩ := part?_of_toParts? enums found here
      exact ⟨.enum e, by rw [if_neg (other key given), if_pos given, there]; rfl, .enum first⟩
  | message read =>
    obtain ⟨-, fields, messages, enums, -⟩ := Message.of_ofDocument read
    simp only [Node.child?]
    obtain ⟨rfl, rfl⟩ | ⟨rfl, rfl⟩ | ⟨rfl, rfl⟩ : (names = [("fields" : Text)] ∧ c' = .field) ∨
        (names = nestedMessagesNames ∧ c' = .message) ∨ names = nestedEnumsNames ∧ c' = .enum := by
      simpa [Carrier.members] using listed
    · obtain ⟨f, first, there⟩ := part?_of_toParts? fields found here
      exact ⟨.field f, by rw [if_pos given, there]; rfl, .field first⟩
    · have other : ∀ key ∈ nestedMessagesNames, key ∉ [("fields" : Text)] := by decide
      obtain ⟨m, first, there⟩ := part?_of_toParts? messages found here
      exact ⟨.message m, by rw [if_neg (other key given), if_pos given, there]; rfl, .message first⟩
    · have other : ∀ key ∈ nestedEnumsNames, key ∉ [("fields" : Text)] ∧
          key ∉ nestedMessagesNames := by decide
      obtain ⟨e, first, there⟩ := part?_of_toParts? enums found here
      exact ⟨.enum e, by
        rw [if_neg (other key given).1, if_neg (other key given).2, if_pos given, there]; rfl,
        .enum first⟩
  | enum read =>
    obtain ⟨-, values⟩ := Descriptor.Enum.of_ofDocument read
    simp only [Node.child?]
    obtain ⟨rfl, rfl⟩ : names = [("values" : Text)] ∧ c' = .enumValue := by
      simpa [Carrier.members] using listed
    obtain ⟨v, first, there⟩ := part?_of_toParts? values found here
    exact ⟨.enumValue v, by rw [if_pos given, there]; rfl, .enumValue first⟩

theorem of_files (reads : Reads c (.object ms) n) (listed : (names, .files) ∈ c.members)
    (found : member? names ms = some (.object entries)) (keyed : Keyed entries) :
    names = Request.protoFilesNames ∧ ∃ r, n = .request r ∧
      List.Forall₂ (fun member entry => entry.1 = member.1 ∧
        ∃ f, Descriptor.File.ofDocument member.2 = .ok f ∧ entry.2 = Request.named member.1 f)
        entries r.protoFiles.entries := by
  cases reads with
  | file | message | field | enum | enumValue => simp [Carrier.members] at listed
  | @request _ r read =>
    obtain rfl : names = Request.protoFilesNames := by simpa [Carrier.members] using listed
    obtain ⟨-, files⟩ := Request.of_ofDocument read
    rw [found] at files
    obtain ⟨listed, readMembers, files⟩ := bind_eq_ok_iff.1 files
    obtain ⟨filed, readFiled, eq⟩ := bind_eq_ok_iff.1 files
    have each := Request.forall₂_filed readMembers readFiled
    have keys : filed.map Prod.fst = entries.map Prod.fst := by
      rw [← List.forall₂_eq_eq_eq, List.forall₂_map_left_iff, List.forall₂_map_right_iff]
      exact each.flip.imp fun _ _ h => h.1
    refine ⟨rfl, r, rfl, ?_⟩
    rw [← Except.ok.inj eq, OrderedMap.entries_ofList (keys ▸ keyed)]
    exact each

theorem child_file (reads : Reads c (.object ms) n) (listed : (names, .files) ∈ c.members)
    (given : key ∈ names) (found : member? names ms = some (.object entries))
    (keyed : Keyed entries) (here : entries.lookup name = some d) :
    ∃ child, n.child? key (.key name) = some child ∧ Reads .file d child := by
  obtain ⟨rfl, r, rfl, filed⟩ := reads.of_files listed found keyed
  obtain ⟨entry, mem, same, f, read, eq⟩ :=
    (exists_of_forall₂ filed).1 _ (OrderedMap.mem_of_lookup here)
  obtain rfl : entry = (name, Request.named name f) := Prod.ext same eq
  have there := (OrderedMap.lookup_eq_some_iff r.protoFiles.nodup).2 mem
  exact ⟨_, by rw [Node.child?, if_pos given, OrderedMap.get?, there]; rfl, .file name read⟩

/-- The keys of a map were read as they are, in their order. -/
theorem mapKeys_eq (reads : Reads c (.object ms) n)
    (listed : (names, .map) ∈ c.members ∨ (names, .files) ∈ c.members)
    (found : member? names ms = some (.object entries)) (keyed : Keyed entries) :
    n.mapKeys = entries.map Prod.fst := by
  rcases listed with listed | listed
  · cases reads with
    | request | enum | enumValue => simp [Carrier.members] at listed
    | file name read =>
      obtain rfl : names = [("options" : Text)] := by simpa [Carrier.members] using listed
      obtain ⟨-, -, -, options⟩ := Descriptor.File.of_ofDocument read
      rw [Node.mapKeys, Request.options_named, optionNames_of_toOptions? options found keyed]
    | message read =>
      obtain rfl : names = [("options" : Text)] := by simpa [Carrier.members] using listed
      obtain ⟨-, -, -, -, options⟩ := Message.of_ofDocument read
      exact optionNames_of_toOptions? options found keyed
    | field read =>
      obtain rfl : names = [("options" : Text)] := by simpa [Carrier.members] using listed
      exact optionNames_of_toOptions? (Descriptor.Field.of_ofDocument read).2 found keyed
  · obtain ⟨-, r, rfl, filed⟩ := reads.of_files listed found keyed
    rw [Node.mapKeys, OrderedMap.keys, ← List.forall₂_eq_eq_eq, List.forall₂_map_left_iff,
      List.forall₂_map_right_iff]
    exact filed.flip.imp fun _ _ h => h.1

end Reads

theorem Leads.exists_eq_object {c c' : Carrier} {path : List Step} {d : Document}
    {ms : List (Text × Document)} (leads : Leads c path c')
    (found : d.at? path = some (.object ms)) : ∃ own, d = .object own := by
  cases leads with
  | here => exact ⟨ms, Option.some.inj found⟩
  | list | file =>
    obtain ⟨child, first, -⟩ := Document.at?_cons_eq_some_iff.1 found
    cases d with
    | object own => exact ⟨own, rfl⟩
    | _ => cases first

theorem Carrier.Single.member?_eq_some {c : Carrier} {ms : List (Text × Document)}
    {names : List Text} {holding : Holding} {key : Text} {d : Document} (single : c.Single ms)
    (keyed : Keyed ms) (listed : (names, holding) ∈ c.members) (given : key ∈ names)
    (found : ms.lookup key = some d) : member? names ms = some d := by
  refine Document.member?_eq_some keyed given (fun other alike there => ?_) found
  have here := List.mem_map_of_mem (f := Prod.fst) (OrderedMap.mem_of_lookup found)
  exact single _ listed key given other alike here there

/-- Where a part was read from a document, the carriers in it were read as the parts that are at the
same places. -/
theorem Reads.at? {c c' : Carrier} {d : Document} {n : Node} {path : List Step}
    {ms : List (Text × Document)} (reads : Reads c d n) (keyed : d.Throughout Keyed)
    (single : ∀ path c' ms, Leads c path c' → d.at? path = some (.object ms) → c'.Single ms)
    (leads : Leads c path c') (found : d.at? path = some (.object ms)) :
    ∃ part, n.at? path = some part ∧ Reads c' (.object ms) part := by
  induction leads generalizing d n with
  | here =>
    obtain rfl := Option.some.inj found
    exact ⟨n, rfl, reads⟩
  | @list c c' c'' names key i path listed given inside ih =>
    have leads := Leads.list (i := i) listed given inside
    obtain ⟨own, rfl⟩ := leads.exists_eq_object found
    obtain ⟨list, member, hop⟩ := Document.at?_cons_eq_some_iff.1 found
    obtain ⟨item, there, further⟩ := Document.at?_cons_eq_some_iff.1 hop
    obtain ⟨inner, rfl⟩ := inside.exists_eq_object further
    cases list with
    | array items =>
      have counts := (single [] c own .here rfl).member?_eq_some keyed.members listed given member
      obtain ⟨child, step, read⟩ := reads.child_list listed given counts there
      obtain ⟨part, rest, last⟩ := ih read ((keyed.child? member).child? there)
        (fun path c ms leads found => single _ c ms (.list listed given leads)
          (Document.at?_cons_eq_some_iff.2 ⟨_, member,
            Document.at?_cons_eq_some_iff.2 ⟨_, there, found⟩⟩)) further
      exact ⟨part, by rw [Node.at?, step]; exact rest, last⟩
    | _ => cases there
  | @file c c' names key name path listed given inside ih =>
    have leads := @Leads.file c c' names key name path listed given inside
    obtain ⟨own, rfl⟩ := leads.exists_eq_object found
    obtain ⟨files, member, hop⟩ := Document.at?_cons_eq_some_iff.1 found
    obtain ⟨d, there, further⟩ := Document.at?_cons_eq_some_iff.1 hop
    cases files with
    | object entries =>
      have counts := (single [] c own .here rfl).member?_eq_some keyed.members listed given member
      obtain ⟨child, step, read⟩ := reads.child_file listed given counts
        (keyed.child? member).members there
      obtain ⟨part, rest, last⟩ := ih read ((keyed.child? member).child? there)
        (fun path c ms leads found => single _ c ms (.file listed given leads)
          (Document.at?_cons_eq_some_iff.2 ⟨_, member,
            Document.at?_cons_eq_some_iff.2 ⟨_, there, found⟩⟩)) further
      exact ⟨part, by rw [Node.at?, step]; exact rest, last⟩
    | _ => cases there

end SchemaPlugin
