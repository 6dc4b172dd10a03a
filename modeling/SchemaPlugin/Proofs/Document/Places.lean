import SchemaPlugin.Document.Encoded
import SchemaPlugin.Document.Shape
import SchemaPlugin.Proofs.Document.Inherited
import SchemaPlugin.Proofs.OrderedMap

/-!
Places in a document, each a path of keys and indices. In a document that was read no object has a
key twice, so that a key leads to the only member that has it.
-/

namespace SchemaPlugin.Document

/-- A property of members that each object in a document has. -/
inductive Throughout (P : List (Text × Document) → Prop) : Document → Prop
  | atom {d : Document} (atom : d.Atom) : Throughout P d
  | string (t : Text) : Throughout P (string t)
  | array {items : List Document} (each : ∀ d ∈ items, Throughout P d) : Throughout P (array items)
  | object {ms : List (Text × Document)} (here : P ms) (each : ∀ m ∈ ms, Throughout P m.2) :
      Throughout P (object ms)

/-- No key twice. -/
def Keyed (ms : List (Text × Document)) : Prop := (ms.map Prod.fst).Nodup

theorem inherited_keyed :
    Inherited (fun _ => True) (fun _ => True) (Throughout Keyed) where
  suffix _ _ := trivial
  stringRest _ _ := ⟨trivial, trivial⟩
  atom := .atom
  ofString _ := .string _
  array := .array
  ofMembers each :=
    .object (OrderedMap.ofList _).nodup fun m hm =>
      (OrderedMap.forall_entries_ofList each m hm).2

theorem keyed_of_parse {t : Text} {d : Document} (h : parse t = .ok d) : d.Throughout Keyed :=
  inherited_keyed.of_ofDecoded trivial (ofDecoded_of_parse h)

theorem keyed_of_ofBytes {bytes : Bytes} {d : Document} (h : ofBytes bytes = .ok d) :
    d.Throughout Keyed := by
  obtain ⟨t, -, read⟩ := bind_eq_ok_iff.1 h
  exact inherited_keyed.of_ofDecoded trivial (mapError_eq_ok_iff.1 read)

inductive Step
  | key (key : Text)
  | index (i : Nat)

def child? : Document → Step → Option Document
  | object ms, .key key => ms.lookup key
  | array items, .index i => items[i]?
  | _, _ => none

/-- What is at a place. -/
def at? : Document → List Step → Option Document
  | d, [] => some d
  | d, step :: path => (d.child? step).bind fun d => d.at? path

variable {P : List (Text × Document) → Prop} {d e : Document} {ms : List (Text × Document)}
  {step : Step} {path : List Step}

theorem at?_cons_eq_some_iff :
    d.at? (step :: path) = some e ↔ ∃ child, d.child? step = some child ∧ child.at? path = some e :=
  Option.bind_eq_some_iff

theorem Throughout.child? (h : d.Throughout P) (found : d.child? step = some e) :
    e.Throughout P := by
  unfold Document.child? at found
  split at found
  · cases h with
    | atom impossible => cases impossible
    | object _ each => exact each _ (OrderedMap.mem_of_lookup found)
  · cases h with
    | atom impossible => cases impossible
    | array each => exact each e (List.mem_of_getElem? found)
  · cases found

theorem Throughout.at? (h : d.Throughout P) (found : d.at? path = some e) : e.Throughout P := by
  induction path generalizing d with
  | nil => exact Option.some.inj found ▸ h
  | cons step path ih =>
    obtain ⟨child, first, further⟩ := at?_cons_eq_some_iff.1 found
    exact ih (h.child? first) further

theorem Throughout.members (h : (Document.object ms).Throughout P) : P ms := by
  cases h with
  | atom impossible => cases impossible
  | object here _ => exact here

theorem Throughout.items {items : List Document} (h : (Document.array items).Throughout P) :
    ∀ item ∈ items, item.Throughout P := by
  cases h with
  | atom impossible => cases impossible
  | array each => exact each

theorem Throughout.of_lookup {key : Text} (h : (Document.object ms).Throughout P)
    (found : ms.lookup key = some d) : d.Throughout P :=
  have child : (Document.object ms).child? (.key key) = some d := found
  h.child? child

/-- If no other of the names is a key, the member under one of them is the one that counts. -/
theorem member?_eq_some (keyed : Keyed ms) {names : List Text} {key : Text} (name : key ∈ names)
    (alone : ∀ other ∈ names, other ∈ ms.map Prod.fst → other = key)
    (found : ms.lookup key = some d) : member? names ms = some d := by
  have mem := OrderedMap.mem_of_lookup found
  have first : ms.reverse.find? (fun m => m.1 ∈ names) = some (key, d) := by
    cases any : ms.reverse.find? fun m => m.1 ∈ names with
    | none =>
      have never := List.find?_eq_none.1 any (key, d) (List.mem_reverse.2 mem)
      simp [name] at never
    | some m =>
      have listed := List.mem_reverse.1 (List.mem_of_find?_eq_some any)
      have same := alone m.1 (by simpa using List.find?_some any) (List.mem_map_of_mem listed)
      have there := (OrderedMap.lookup_eq_some_iff keyed).2 listed
      rw [same, found] at there
      exact congrArg some (Prod.ext same (Option.some.inj there).symm)
  rw [member?, first]
  rfl

end SchemaPlugin.Document
