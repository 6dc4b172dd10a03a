import Mathlib.Data.List.Forall2
import Mathlib.Tactic.SplitIfs
import SchemaPlugin.OrderedMap

/-!
Outcomes that may be errors, one step after the other, and maps whose entries come from a list.
-/

namespace SchemaPlugin

section Outcome

variable {ε α β : Type}

@[simp] theorem ok_bind (a : α) (f : α → Except ε β) : (Except.ok a >>= f) = f a := rfl

@[simp] theorem error_bind (e : ε) (f : α → Except ε β) : (Except.error e >>= f) = .error e := rfl

@[simp] theorem pure_eq_ok (a : α) : (pure a : Except ε α) = .ok a := rfl

theorem bind_eq_ok_iff {x : Except ε α} {f : α → Except ε β} {b : β} :
    (x >>= f) = .ok b ↔ ∃ a, x = .ok a ∧ f a = .ok b := by
  cases x <;> simp

theorem bind_eq_error_iff {x : Except ε α} {f : α → Except ε β} {e : ε} :
    (x >>= f) = .error e ↔ x = .error e ∨ ∃ a, x = .ok a ∧ f a = .error e := by
  cases x <;> simp

theorem bind_congr_ok {x y : Except ε α} {f g : α → Except ε β} (same : x = y)
    (each : ∀ a, y = .ok a → f a = g a) : (x >>= f) = (y >>= g) := by
  subst same
  cases x with
  | error e => rfl
  | ok a => exact each a rfl

theorem bind_ok_eq_error_iff {x : Except ε α} {f : α → β} {e : ε} :
    (x >>= fun a => .ok (f a)) = .error e ↔ x = .error e := by
  cases x <;> simp

theorem map_eq_error_iff {x : Except ε α} {f : α → β} {e : ε} :
    x.map f = .error e ↔ x = .error e := by
  cases x <;> simp [Except.map]

theorem exists_bind_ok_iff {x : Except ε α} {f : α → β} :
    (∃ b, (x >>= fun a => .ok (f a)) = .ok b) ↔ ∃ a, x = .ok a := by
  cases x <;> simp

theorem mapError_eq_ok_iff {ε' : Type} {f : ε → ε'} {x : Except ε α} {a : α} :
    x.mapError f = .ok a ↔ x = .ok a := by
  cases x <;> simp [Except.mapError]

theorem mapError_eq_error_iff {ε' : Type} {f : ε → ε'} {x : Except ε α} {e' : ε'} :
    x.mapError f = .error e' ↔ ∃ e, x = .error e ∧ f e = e' := by
  cases x <;> simp [Except.mapError]

/-- Two parts that are read alike are put alike. -/
theorem exists_bind_ok_of_alike {σ : Type} {x x' : Except ε α} {put put' : α → σ} {t : σ}
    {Q : α → α → Prop} {R : σ → σ → Prop} (h : (x >>= fun a => .ok (put a)) = .ok t)
    (alike : ∀ a, x = .ok a → ∃ a', x' = .ok a' ∧ Q a a')
    (related : ∀ a a', Q a a' → R (put a) (put' a')) :
    ∃ t', (x' >>= fun a => .ok (put' a)) = .ok t' ∧ R t t' := by
  obtain ⟨a, read, eq⟩ := bind_eq_ok_iff.1 h
  obtain ⟨a', read', q⟩ := alike a read
  cases eq
  exact ⟨put' a', bind_eq_ok_iff.2 ⟨a', read', rfl⟩, related a a' q⟩

theorem exists_bind_ok {σ : Type} {x : Except ε α} {put put' : α → σ} {t : σ} {R : σ → σ → Prop}
    (h : (x >>= fun a => .ok (put a)) = .ok t) (related : ∀ a, R (put a) (put' a)) :
    ∃ t', (x >>= fun a => .ok (put' a)) = .ok t' ∧ R t t' :=
  exists_bind_ok_of_alike h (fun a read => ⟨a, read, rfl⟩) fun a _ same => same ▸ related a

/-- A traversal that succeeds does so item by item. -/
theorem mapM_eq_ok_iff {f : α → Except ε β} {as : List α} {bs : List β} :
    as.mapM f = .ok bs ↔ List.Forall₂ (fun a b => f a = .ok b) as bs := by
  induction as generalizing bs with
  | nil => cases bs <;> simp
  | cons a as ih =>
    rw [List.mapM_cons, bind_eq_ok_iff]
    constructor
    · rintro ⟨b, first, later⟩
      obtain ⟨bs, others, eq⟩ := bind_eq_ok_iff.1 later
      cases eq
      exact .cons first (ih.1 others)
    · rintro (_ | ⟨first, others⟩)
      exact ⟨_, first, bind_eq_ok_iff.2 ⟨_, ih.2 others, rfl⟩⟩

theorem mapM_map_some_eq_ok {f : Option α → Except ε β} {g : α → β} {as : List α}
    (each : ∀ a ∈ as, f (some a) = .ok (g a)) : (as.map some).mapM f = .ok (as.map g) := by
  induction as with
  | nil => rfl
  | cons a as ih =>
    obtain ⟨first, others⟩ := List.forall_mem_cons.1 each
    rw [List.map_cons, List.mapM_cons, first, ih others]
    rfl

end Outcome

theorem forall_mem_concat {α : Type} {P : α → Prop} {as : List α} {a : α} (each : ∀ b ∈ as, P b)
    (last : P a) : ∀ b ∈ as ++ [a], P b :=
  List.forall_mem_append.2 ⟨each, List.forall_mem_singleton.2 last⟩

theorem exists_of_forall₂ {α β : Type} {R : α → β → Prop} {as : List α} {bs : List β}
    (h : List.Forall₂ R as bs) :
    (∀ a ∈ as, ∃ b ∈ bs, R a b) ∧ ∀ b ∈ bs, ∃ a ∈ as, R a b := by
  induction h with
  | nil => exact ⟨List.forall_mem_nil _, List.forall_mem_nil _⟩
  | cons first _ ih =>
    constructor
    · refine List.forall_mem_cons.2 ⟨⟨_, List.mem_cons_self, first⟩, fun a mem => ?_⟩
      obtain ⟨b, mem', related⟩ := ih.1 a mem
      exact ⟨b, List.mem_cons_of_mem _ mem', related⟩
    · refine List.forall_mem_cons.2 ⟨⟨_, List.mem_cons_self, first⟩, fun b mem => ?_⟩
      obtain ⟨a, mem', related⟩ := ih.2 b mem
      exact ⟨a, List.mem_cons_of_mem _ mem', related⟩

theorem exists_forall₂ {α β : Type} {R : α → β → Prop} {as : List α}
    (each : ∀ a ∈ as, ∃ b, R a b) : ∃ bs, List.Forall₂ R as bs := by
  induction as with
  | nil => exact ⟨[], .nil⟩
  | cons a as ih =>
    obtain ⟨⟨b, first⟩, others⟩ := List.forall_mem_cons.1 each
    obtain ⟨bs, later⟩ := ih others
    exact ⟨b :: bs, .cons first later⟩

/-- Two lists with one between them that is related to both, item by item. -/
theorem exists_forall₂_and_iff {α β γ : Type} {R : α → β → Prop} {S : β → γ → Prop} {as : List α}
    {cs : List γ} :
    (∃ bs, List.Forall₂ R as bs ∧ List.Forall₂ S bs cs) ↔
      List.Forall₂ (fun a c => ∃ b, R a b ∧ S b c) as cs := by
  constructor
  · rintro ⟨bs, front, back⟩
    induction front generalizing cs with
    | nil =>
      cases back
      exact .nil
    | cons r _ ih =>
      cases back with
      | cons s back => exact .cons ⟨_, r, s⟩ (ih back)
  · intro both
    induction both with
    | nil => exact ⟨[], .nil, .nil⟩
    | cons first _ ih =>
      obtain ⟨b, r, s⟩ := first
      obtain ⟨bs, front, back⟩ := ih
      exact ⟨b :: bs, .cons r front, .cons s back⟩

theorem filterMap_eq_iff_forall₂ {α β : Type} {f : α → Option β} {as : List α} {bs : List β}
    (each : ∀ a ∈ as, (f a).isSome) :
    as.filterMap f = bs ↔ List.Forall₂ (fun a b => f a = some b) as bs := by
  induction as generalizing bs with
  | nil => cases bs <;> simp
  | cons a as ih =>
    obtain ⟨first, others⟩ := List.forall_mem_cons.1 each
    obtain ⟨b, found⟩ := Option.isSome_iff_exists.1 first
    rw [List.filterMap_cons_some found]
    cases bs with
    | nil => simp
    | cons c bs =>
      rw [List.cons.injEq, List.forall₂_cons, found, Option.some.injEq]
      exact and_congr_right' (ih others)

/-- Items that are distinguished alike are distinct alike. -/
theorem nodup_map_iff_of_forall₂ {α β γ δ : Type} {R : α → β → Prop} {f : α → γ} {g : β → δ}
    {as : List α} {bs : List β} (related : List.Forall₂ R as bs)
    (same : ∀ a a' b b', R a b → R a' b' → (f a = f a' ↔ g b = g b')) :
    (as.map f).Nodup ↔ (bs.map g).Nodup := by
  induction related with
  | nil => simp
  | @cons a b as bs first others ih =>
    obtain ⟨left, right⟩ := exists_of_forall₂ others
    have fresh : f a ∈ as.map f ↔ g b ∈ bs.map g := by
      simp only [List.mem_map]
      constructor
      · rintro ⟨a', mem, eq⟩
        obtain ⟨b', mem', r⟩ := left a' mem
        exact ⟨b', mem', (same a' a b' b r first).1 eq⟩
      · rintro ⟨b', mem, eq⟩
        obtain ⟨a', mem', r⟩ := right b' mem
        exact ⟨a', mem', (same a' a b' b r first).2 eq⟩
    rw [List.map_cons, List.map_cons, List.nodup_cons, List.nodup_cons, fresh, ih]

namespace OrderedMap

variable {α : Type}

theorem ext {map map' : OrderedMap α} (h : map.entries = map'.entries) : map = map' := by
  cases map
  cases map'
  simp_all

theorem assign_fresh {key : Text} {entries : List (Text × α)} (value : α)
    (fresh : key ∉ entries.map Prod.fst) :
    assign key value entries = entries ++ [(key, value)] := by
  induction entries with
  | nil => rfl
  | cons entry rest ih =>
    simp only [List.map_cons, List.mem_cons, not_or] at fresh
    rw [assign, if_neg (Ne.symm fresh.1), ih fresh.2, List.cons_append]

/-- The entries, inserted after those of a map that has none of their keys. -/
theorem entries_foldl_insert {map : OrderedMap α} {entries : List (Text × α)}
    (nodup : ((map.entries ++ entries).map Prod.fst).Nodup) :
    (entries.foldl (fun map entry => map.insert entry.1 entry.2) map).entries =
      map.entries ++ entries := by
  induction entries generalizing map with
  | nil => simp
  | cons entry rest ih =>
    have fresh : entry.1 ∉ map.entries.map Prod.fst := by
      intro h
      rw [List.map_append, List.map_cons] at nodup
      exact (List.nodup_append.1 nodup).2.2 _ h _ List.mem_cons_self rfl
    have inserted : (map.insert entry.1 entry.2).entries = map.entries ++ [entry] :=
      assign_fresh entry.2 fresh
    rw [List.foldl_cons, ih (by simpa [inserted] using nodup), inserted]
    simp

theorem ofList_entries (map : OrderedMap α) : ofList map.entries = map :=
  ext (entries_foldl_insert map.nodup)

/-- The entries whose keys are among some names. -/
def restrict (names : List Text) (map : OrderedMap α) : OrderedMap α where
  entries := map.entries.filter fun entry => entry.1 ∈ names
  nodup := (List.filter_sublist.map Prod.fst).nodup map.nodup

theorem restrict_eq_self_iff {names : List Text} {map : OrderedMap α} :
    map.restrict names = map ↔ ∀ key ∈ map.keys, key ∈ names := by
  constructor
  · intro h key hk
    obtain ⟨entry, he, rfl⟩ := List.mem_map.1 hk
    rw [← h] at he
    simpa using (List.mem_filter.1 he).2
  · intro h
    refine ext (List.filter_eq_self.2 fun entry he => ?_)
    simpa using h entry.1 (List.mem_map_of_mem he)

theorem forall_keys_insert {map : OrderedMap α} {key : Text} {value : α} {P : Text → Prop}
    (each : ∀ k ∈ map.keys, P k) (new : P key) : ∀ k ∈ (map.insert key value).keys, P k := by
  rw [keys_insert]
  split_ifs
  · exact each
  · exact forall_mem_concat each new

theorem forall_entries_insert {map : OrderedMap α} {key : Text} {value : α} {P : Text × α → Prop}
    (each : ∀ entry ∈ map.entries, P entry) (new : P (key, value)) :
    ∀ entry ∈ (map.insert key value).entries, P entry := by
  obtain ⟨entries, nodup⟩ := map
  change ∀ entry ∈ entries, P entry at each
  change ∀ entry ∈ assign key value entries, P entry
  clear nodup
  induction entries with
  | nil => simpa [assign] using new
  | cons head rest ih =>
    obtain ⟨first, others⟩ := List.forall_mem_cons.1 each
    rw [assign]
    split_ifs
    · exact List.forall_mem_cons.2 ⟨new, others⟩
    · exact List.forall_mem_cons.2 ⟨first, ih others⟩

theorem forall_entries_ofList {entries : List (Text × α)} {P : Text × α → Prop}
    (each : ∀ entry ∈ entries, P entry) : ∀ entry ∈ (ofList entries).entries, P entry := by
  have keep (map : OrderedMap α) (before : ∀ entry ∈ map.entries, P entry) :
      ∀ entry ∈ (entries.foldl (fun map entry => map.insert entry.1 entry.2) map).entries,
        P entry := by
    induction entries generalizing map with
    | nil => exact before
    | cons head rest ih =>
      obtain ⟨first, others⟩ := List.forall_mem_cons.1 each
      exact ih others (map.insert head.1 head.2) (forall_entries_insert before first)
  exact keep ∅ nofun

theorem assign_map {β : Type} (f : α → β) (key : Text) (value : α) (entries : List (Text × α)) :
    assign key (f value) (entries.map fun entry => (entry.1, f entry.2)) =
      (assign key value entries).map fun entry => (entry.1, f entry.2) := by
  induction entries with
  | nil => rfl
  | cons entry rest ih =>
    rw [List.map_cons, assign, assign, ih]
    split_ifs <;> rfl

/-- To change the values and to make a map of the entries can be done in either order. -/
theorem entries_ofList_map {β : Type} (f : α → β) (entries : List (Text × α)) :
    (ofList (entries.map fun entry => (entry.1, f entry.2))).entries =
      (ofList entries).entries.map fun entry => (entry.1, f entry.2) := by
  have keep (map : OrderedMap α) (map' : OrderedMap β)
      (same : map'.entries = map.entries.map fun entry => (entry.1, f entry.2)) :
      ((entries.map fun entry => (entry.1, f entry.2)).foldl
          (fun map entry => map.insert entry.1 entry.2) map').entries =
        (entries.foldl (fun map entry => map.insert entry.1 entry.2) map).entries.map
          fun entry => (entry.1, f entry.2) := by
    induction entries generalizing map map' with
    | nil => exact same
    | cons head rest ih =>
      refine ih (map.insert head.1 head.2) (map'.insert head.1 (f head.2)) ?_
      change assign head.1 (f head.2) map'.entries = _
      rw [same, assign_map]
      rfl
  exact keep ∅ ∅ rfl

/-- The entries changed in key and value. Those whose keys become the same are one entry. -/
def mapEntries {β : Type} (f : Text → Text) (g : α → β) (map : OrderedMap α) : OrderedMap β :=
  ofList (map.entries.map fun entry => (f entry.1, g entry.2))

theorem mapEntries_eq_self {f : Text → Text} {g : α → α} {map : OrderedMap α}
    (each : ∀ entry ∈ map.entries, f entry.1 = entry.1 ∧ g entry.2 = entry.2) :
    map.mapEntries f g = map := by
  have same : (map.entries.map fun entry => (f entry.1, g entry.2)) = map.entries := by
    refine (List.map_congr_left fun entry he => ?_).trans (List.map_id _)
    obtain ⟨key, value⟩ := each entry he
    exact Prod.ext key value
  rw [mapEntries, same, ofList_entries]

theorem entries_mapEntries_comp {β γ : Type} (f : Text → Text) (g : α → β) (h : β → γ)
    (map : OrderedMap α) :
    (map.mapEntries f fun value => h (g value)).entries =
      (map.mapEntries f g).entries.map fun entry => (entry.1, h entry.2) := by
  rw [mapEntries, mapEntries, ← entries_ofList_map, List.map_map]
  rfl

end OrderedMap

end SchemaPlugin
