import SchemaPlugin.Text

/-!
Maps from texts that keep their entries in the order in which the keys first came. Assigning a key
again keeps its place and replaces its value.
-/

namespace SchemaPlugin

/-- Entries in order of arrival, no key twice. -/
structure OrderedMap (α : Type) where
  entries : List (Text × α) := []
  nodup : (entries.map Prod.fst).Nodup := by exact List.nodup_nil

namespace OrderedMap

variable {α : Type}

/-- The entries after `key` has been assigned `value`. -/
def assign (key : Text) (value : α) : List (Text × α) → List (Text × α)
  | [] => [(key, value)]
  | entry :: rest => if entry.1 = key then (key, value) :: rest else entry :: assign key value rest

theorem keys_assign (key : Text) (value : α) (entries : List (Text × α)) :
    (assign key value entries).map Prod.fst =
      if key ∈ entries.map Prod.fst then entries.map Prod.fst
      else entries.map Prod.fst ++ [key] := by
  induction entries with
  | nil => simp [assign]
  | cons entry rest ih =>
    by_cases h : entry.1 = key
    · simp [assign, h]
    · have h' : key ≠ entry.1 := fun e => h e.symm
      rw [assign, if_neg h, List.map_cons, ih, List.map_cons]
      by_cases hk : key ∈ rest.map Prod.fst <;> simp [hk, h']

theorem nodup_keys_assign (key : Text) (value : α) {entries : List (Text × α)}
    (h : (entries.map Prod.fst).Nodup) : ((assign key value entries).map Prod.fst).Nodup := by
  rw [keys_assign]
  split
  · exact h
  · rename_i hk
    refine List.nodup_append.2 ⟨h, by simp, ?_⟩
    intro a ha b hb hab
    rw [List.mem_singleton] at hb
    exact hk (hb ▸ hab ▸ ha)

def empty : OrderedMap α := {}

instance : EmptyCollection (OrderedMap α) := ⟨empty⟩

def insert (map : OrderedMap α) (key : Text) (value : α) : OrderedMap α :=
  ⟨assign key value map.entries, nodup_keys_assign key value map.nodup⟩

/-- The map that assigning the entries one after the other gives. -/
def ofList (entries : List (Text × α)) : OrderedMap α :=
  entries.foldl (fun map entry => map.insert entry.1 entry.2) empty

def keys (map : OrderedMap α) : List Text := map.entries.map Prod.fst

def values (map : OrderedMap α) : List α := map.entries.map Prod.snd

def size (map : OrderedMap α) : Nat := map.entries.length

def isEmpty (map : OrderedMap α) : Bool := map.entries.isEmpty

def get? (map : OrderedMap α) (key : Text) : Option α := map.entries.lookup key

def contains (map : OrderedMap α) (key : Text) : Bool := (map.get? key).isSome

@[simp] theorem keys_empty : (∅ : OrderedMap α).keys = [] := rfl

theorem keys_insert (map : OrderedMap α) (key : Text) (value : α) :
    (map.insert key value).keys = if key ∈ map.keys then map.keys else map.keys ++ [key] :=
  keys_assign key value map.entries

end OrderedMap

end SchemaPlugin
