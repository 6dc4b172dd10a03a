import SchemaPlugin.Proofs.Descriptor.Joined
import SchemaPlugin.Proofs.Request.Canonical

/-!
The texts of what was read from bytes have no surrogates, so that there are no pairs to join.
-/

namespace SchemaPlugin

namespace Descriptor

variable {P : Text → Prop}

theorem forall_mem_partTexts {α : Type} {texts : α → List Text} {parts : Option (List (Option α))} :
    (∀ t ∈ partTexts texts parts, P t) ↔ Each (fun a => ∀ t ∈ texts a, P t) parts := by
  cases parts with
  | none => simp [partTexts, Each]
  | some parts =>
    constructor
    · rintro each _ ⟨⟩ a ha t ht
      exact each t (List.mem_flatMap.2 ⟨some a, ha, ht⟩)
    · intro each t ht
      obtain ⟨part, hp, ht⟩ := List.mem_flatMap.1 ht
      cases part with
      | none => cases ht
      | some a => exact each parts rfl a hp t ht

theorem forall_mem_toList {t : Option Text} : (∀ u ∈ t.toList, P u) ↔ ∀ u, t = some u → P u := by
  cases t <;> simp

/-- The names in a table are without surrogates if those of the options are among them. -/
theorem encodable_optionNames {α : Type} {options : OrderedMap α} {names : List Text}
    (plain : ∀ name ∈ names, name.Encodable) (known : options.restrict names = options) :
    ∀ t ∈ optionNames (some options), t.Encodable :=
  fun t ht => plain t (OrderedMap.restrict_eq_self_iff.1 known t ht)

theorem EnumValue.Canonical.encodable_texts {v : EnumValue} (h : v.Canonical) :
    ∀ t ∈ v.texts, t.Encodable := by
  cases h with
  | mk encodable _ => exact List.forall_mem_singleton.2 encodable

theorem Enum.Canonical.encodable_texts {e : Enum} (h : e.Canonical) :
    ∀ t ∈ e.texts, t.Encodable := by
  cases h with
  | mk encodable values =>
    refine List.forall_mem_append.2 ⟨List.forall_mem_singleton.2 encodable, ?_⟩
    exact forall_mem_partTexts.2 (each_map_some.2 fun v hv => (values v hv).encodable_texts)

theorem Field.Canonical.encodable_texts {f : Field} (h : f.Canonical) :
    ∀ t ∈ f.texts, t.Encodable := by
  cases h with
  | mk encodable _ _ typeEncodable known =>
    simp only [texts, List.forall_mem_append]
    exact ⟨List.forall_mem_singleton.2 encodable, forall_mem_toList.2 typeEncodable,
      encodable_optionNames (by decide) known⟩

theorem Message.forall_mem_textsOf {messages : List (Option Message)} :
    (∀ t ∈ textsOf messages, P t) ↔ ∀ m, some m ∈ messages → ∀ t ∈ m.texts, P t := by
  induction messages with
  | nil => simp [textsOf]
  | cons part rest ih =>
    cases part with
    | none => simp [textsOf, ih]
    | some m => simp [textsOf, ih, or_imp, forall_and]

theorem Message.forall_mem_texts {m : Message} :
    (∀ t ∈ m.texts, P t) ↔ (∀ t ∈ m.name.toList, P t) ∧
      (∀ t ∈ partTexts Field.texts m.fields, P t) ∧
      (∀ t ∈ partTexts Enum.texts m.nestedEnums, P t) ∧ (∀ t ∈ optionNames m.options, P t) ∧
      Each (fun k => ∀ t ∈ k.texts, P t) m.nestedMessages := by
  obtain ⟨name, fields, messages, enums, options⟩ := m
  cases messages with
  | none => simp only [texts, List.forall_mem_append, Each, reduceCtorEq, false_imp_iff,
      implies_true, and_true]
  | some messages =>
    simp only [texts, List.forall_mem_append, Each, Option.some.injEq, forall_eq',
      forall_mem_textsOf]

theorem Message.Canonical.encodable_texts {levels : Nat} {m : Message} (h : m.Canonical levels) :
    ∀ t ∈ m.texts, t.Encodable := by
  induction h with
  | mk encodable fields _ enums known ih =>
    refine forall_mem_texts.2 ⟨List.forall_mem_singleton.2 encodable, ?_, ?_,
      encodable_optionNames (by decide) known, each_map_some.2 ih⟩
    · exact forall_mem_partTexts.2 (each_map_some.2 fun f hf => (fields f hf).encodable_texts)
    · exact forall_mem_partTexts.2 (each_map_some.2 fun e he => (enums e he).encodable_texts)

theorem File.Canonical.encodable_texts {f : File} (h : f.Canonical) :
    ∀ t ∈ f.texts, t.Encodable := by
  cases h with
  | mk encodable packageEncodable dependenciesEncodable messages enums known optionsEncodable =>
    simp only [texts, List.forall_mem_append]
    refine ⟨List.forall_mem_singleton.2 encodable, forall_mem_toList.2 packageEncodable,
      dependenciesEncodable, ?_, ?_, encodable_optionNames (by decide) known, ?_⟩
    · exact forall_mem_partTexts.2 (each_map_some.2 fun m hm => (messages m hm).encodable_texts)
    · exact forall_mem_partTexts.2 (each_map_some.2 fun e he => (enums e he).encodable_texts)
    · exact List.forall_mem_map.2 optionsEncodable

end Descriptor

theorem Request.Canonical.encodable_texts {r : Request} (h : r.Canonical) :
    ∀ t ∈ r.texts, t.Encodable := by
  cases h with
  | mk namesEncodable parameterEncodable files named =>
    simp only [texts, List.forall_mem_append]
    refine ⟨namesEncodable, List.forall_mem_singleton.2 parameterEncodable, ?_, fun t ht => ?_⟩
    · refine List.forall_mem_map.2 fun entry he => ?_
      have own := (files entry he).encodable_texts
      refine own entry.1 (List.mem_append_left _ ?_)
      rw [(named entry he).1]
      exact List.mem_singleton_self _
    · obtain ⟨f, hf, ht⟩ := List.mem_flatMap.1 ht
      obtain ⟨entry, he, rfl⟩ := List.mem_map.1 hf
      exact (files entry he).encodable_texts t ht

end SchemaPlugin
