import SchemaPlugin.Proofs.Basic

/-!
Looking up in maps, and assigning the entries of one map to another. A map is known by its keys, in
their order, and by what is found under each of them.
-/

namespace SchemaPlugin.OrderedMap

variable {α : Type}

theorem lookup_cons (entry : Text × α) (rest : List (Text × α)) (k : Text) :
    (entry :: rest).lookup k = if k = entry.1 then some entry.2 else rest.lookup k := by
  rw [List.lookup_cons]
  by_cases h : k = entry.1
  · rw [if_pos h, beq_iff_eq.2 h]
  · rw [if_neg h, beq_eq_false_iff_ne.2 h]

theorem lookup_assign (key k : Text) (value : α) (entries : List (Text × α)) :
    (assign key value entries).lookup k = if k = key then some value else entries.lookup k := by
  induction entries with
  | nil => rw [assign, lookup_cons]
  | cons entry rest ih =>
    by_cases here : entry.1 = key
    · rw [assign, if_pos here, lookup_cons, lookup_cons, here]
      split_ifs <;> rfl
    · rw [assign, if_neg here, lookup_cons, lookup_cons, ih]
      by_cases h : k = entry.1
      · rw [if_pos h, if_pos h, if_neg (h ▸ here)]
      · rw [if_neg h, if_neg h]

@[simp] theorem get?_insert (map : OrderedMap α) (key : Text) (value : α) (k : Text) :
    (map.insert key value).get? k = if k = key then some value else map.get? k :=
  lookup_assign key k value map.entries

theorem lookup_of_notMem {k : Text} {entries : List (Text × α)}
    (absent : k ∉ entries.map Prod.fst) : entries.lookup k = none :=
  List.lookup_eq_none_iff.2 fun _ mem => bne_iff_ne.2 fun same =>
    absurd (List.mem_map.2 ⟨_, mem, same.symm⟩) absent

theorem mem_of_lookup {k : Text} {v : α} {entries : List (Text × α)}
    (found : entries.lookup k = some v) : (k, v) ∈ entries := by
  obtain ⟨before, after, rfl, -⟩ := List.lookup_eq_some_iff.1 found
  exact List.mem_append_right _ List.mem_cons_self

theorem lookup_eq_some_iff {k : Text} {v : α} {entries : List (Text × α)}
    (nodup : (entries.map Prod.fst).Nodup) : entries.lookup k = some v ↔ (k, v) ∈ entries := by
  refine ⟨mem_of_lookup, fun mem => ?_⟩
  induction entries with
  | nil => cases mem
  | cons first rest ih =>
    rw [List.map_cons, List.nodup_cons] at nodup
    rw [lookup_cons]
    rcases List.mem_cons.1 mem with rfl | later
    · exact if_pos rfl
    · have other : k ≠ first.1 := fun same => nodup.1 (same ▸ List.mem_map_of_mem later)
      rw [if_neg other]
      exact ih nodup.2 later

/-- Entries under different keys are the entries of their map. -/
theorem entries_ofList {entries : List (Text × α)} (nodup : (entries.map Prod.fst).Nodup) :
    (ofList entries).entries = entries :=
  entries_foldl_insert (by exact nodup)

theorem eq_of_lookup {entries entries' : List (Text × α)}
    (keys : entries.map Prod.fst = entries'.map Prod.fst)
    (nodup : (entries.map Prod.fst).Nodup)
    (found : ∀ k, entries.lookup k = entries'.lookup k) : entries = entries' := by
  induction entries generalizing entries' with
  | nil => exact (List.map_eq_nil_iff.1 keys.symm).symm
  | cons entry rest ih =>
    obtain ⟨entry', rest', rfl⟩ : ∃ entry' rest', entries' = entry' :: rest' :=
      List.exists_cons_of_ne_nil (by rintro rfl; simp at keys)
    simp only [List.map_cons, List.cons.injEq] at keys
    simp only [List.map_cons, List.nodup_cons] at nodup
    simp only [lookup_cons, ← keys.1] at found
    have value : entry.2 = entry'.2 := by simpa using found entry.1
    have first : entry = entry' := Prod.ext keys.1 value
    refine List.cons_eq_cons.2 ⟨first, ih keys.2 nodup.2 fun k => ?_⟩
    by_cases here : k = entry.1
    · rw [here, lookup_of_notMem nodup.1, lookup_of_notMem (keys.2 ▸ nodup.1)]
    · simpa [here] using found k

theorem ext_get? {map map' : OrderedMap α} (keys : map.keys = map'.keys)
    (found : ∀ k, map.get? k = map'.get? k) : map = map' :=
  ext (eq_of_lookup keys map.nodup found)

/-- The same entries, in whatever order. -/
def Agrees (map map' : OrderedMap α) : Prop := ∀ k, map.get? k = map'.get? k

theorem Agrees.insert {map map' : OrderedMap α} (agrees : map.Agrees map') (key : Text)
    (value : α) : (map.insert key value).Agrees (map'.insert key value) := by
  intro k
  rw [get?_insert, get?_insert, agrees k]

/-- The map after the entries of another have been assigned to it, in their order. -/
def update (map other : OrderedMap α) : OrderedMap α :=
  other.entries.foldl (fun map entry => map.insert entry.1 entry.2) map

@[simp] theorem update_empty (map : OrderedMap α) : map.update ∅ = map := rfl

/-- The keys of the map keep their places; those that are new follow. -/
theorem keys_update (map other : OrderedMap α) :
    (map.update other).keys = map.keys ++ other.keys.filter (· ∉ map.keys) := by
  obtain ⟨entries, nodup⟩ := other
  change (entries.foldl _ map).keys = map.keys ++ (entries.map Prod.fst).filter (· ∉ map.keys)
  induction entries generalizing map with
  | nil => simp
  | cons entry rest ih =>
    rw [List.map_cons, List.nodup_cons] at nodup
    rw [List.foldl_cons, ih _ nodup.2, keys_insert, List.map_cons]
    by_cases old : entry.1 ∈ map.keys
    · rw [if_pos old, List.filter_cons_of_neg (by simpa using old)]
    · rw [if_neg old, List.filter_cons_of_pos (by simpa using old), List.append_assoc]
      refine congrArg _ (congrArg _ (List.filter_congr fun k mem => ?_))
      have other : k ≠ entry.1 := fun same => nodup.1 (same ▸ mem)
      simp [other]

/-- An entry of the other map wins. -/
theorem get?_update (map other : OrderedMap α) (k : Text) :
    (map.update other).get? k = (other.get? k).or (map.get? k) := by
  obtain ⟨entries, nodup⟩ := other
  change (entries.foldl _ map).get? k = (entries.lookup k).or (map.get? k)
  induction entries generalizing map with
  | nil => rfl
  | cons entry rest ih =>
    rw [List.map_cons, List.nodup_cons] at nodup
    rw [List.foldl_cons, ih _ nodup.2, get?_insert, lookup_cons]
    split_ifs with here
    · rw [here, lookup_of_notMem nodup.1]
      rfl
    · rfl

theorem update_insert (map other : OrderedMap α) (key : Text) (value : α) :
    map.update (other.insert key value) = (map.update other).insert key value := by
  refine ext_get? ?_ fun k => ?_
  · simp only [keys_update, keys_insert]
    by_cases inOther : key ∈ other.keys <;> by_cases inMap : key ∈ map.keys <;>
      simp [inOther, inMap]
  · simp only [get?_update, get?_insert]
    split_ifs <;> rfl

end SchemaPlugin.OrderedMap
