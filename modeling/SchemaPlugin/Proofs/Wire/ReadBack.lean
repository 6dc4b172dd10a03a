import SchemaPlugin.Descriptor.Encode
import SchemaPlugin.Proofs.Text.WellFormed
import SchemaPlugin.Proofs.Wire.FieldRuns

/-!
Reading back what was written. Bytes lead a message from one state to another if they do so wherever
they stand and whatever follows, so that a message may be taken piece by piece. A piece reads back
if it leads to the intended state just when its contents fit; otherwise reading breaks off in it.
-/

namespace SchemaPlugin

/-- Bytes whose number is below 2^64. No buffer in memory is longer, and no length prefix tells
more. -/
def Addressable (bytes : Bytes) : Prop := bytes.length < Wire.word64

instance : DecidablePred Addressable := fun _ => inferInstanceAs (Decidable (_ < _))

theorem Addressable.left {front back : Bytes} (h : Addressable (front ++ back)) :
    Addressable front := by
  rw [Addressable, List.length_append] at h
  exact Nat.lt_of_le_of_lt (Nat.le_add_right _ _) h

theorem Addressable.right {front back : Bytes} (h : Addressable (front ++ back)) :
    Addressable back := by
  rw [Addressable, List.length_append] at h
  exact Nat.lt_of_le_of_lt (Nat.le_add_left _ _) h

/-- What was written in `bytes` is read as `x`: that is `a` if the contents fit, and an error if
not. Only a length prefix can stand in the way of contents that fit. -/
structure Decodes {α : Type} (x : Except Wire.DecodeError α) (bytes : Bytes) (fits : Prop)
    (a : α) : Prop where
  outcome : (∃ e, x = .error e) ∨ fits ∧ x = .ok a
  complete : fits → Addressable bytes → x = .ok a

namespace Wire.Fields

variable {σ α : Type} {guard : Tag → Nat → Except DecodeError Unit}
  {step : σ → Field → Except DecodeError σ} {s t u : σ} {front back bytes : Bytes}
  {fits fits' : Prop}

section

variable (guard step)

/-- Wherever the bytes stand, and whatever follows them, they take the state `s` to `t`. -/
def Leads (s : σ) (bytes : Bytes) (t : σ) : Prop :=
  ∀ offset rest, fold guard step s (ofReader ⟨offset, bytes ++ rest⟩) =
    fold guard step t (ofReader ⟨offset + bytes.length, rest⟩)

/-- Wherever the bytes stand, and whatever follows them, reading fails. -/
def Breaks (s : σ) (bytes : Bytes) : Prop :=
  ∀ offset rest, ∃ e, fold guard step s (ofReader ⟨offset, bytes ++ rest⟩) = .error e

/-- The bytes take the state `s` to `t` if their contents fit, and else reading fails. -/
structure ReadsBack (s : σ) (bytes : Bytes) (fits : Prop) (t : σ) : Prop where
  outcome : Breaks guard step s bytes ∨ fits ∧ Leads guard step s bytes t
  complete : fits → Addressable bytes → Leads guard step s bytes t

end

theorem leads_nil (s : σ) : Leads guard step s [] s := fun _ _ => rfl

theorem Leads.append (h : Leads guard step s front t) (h' : Leads guard step t back u) :
    Leads guard step s (front ++ back) u := by
  intro offset rest
  rw [List.append_assoc, h, h', List.length_append, Nat.add_assoc]

theorem Leads.breaks (h : Leads guard step s front t) (h' : Breaks guard step t back) :
    Breaks guard step s (front ++ back) := by
  intro offset rest
  rw [List.append_assoc, h]
  exact h' _ rest

theorem Breaks.append (h : Breaks guard step s front) (back : Bytes) :
    Breaks guard step s (front ++ back) := by
  intro offset rest
  rw [List.append_assoc]
  exact h offset _

theorem readsBack_nil (s : σ) : ReadsBack guard step s [] True s :=
  ⟨.inr ⟨trivial, leads_nil s⟩, fun _ _ => leads_nil s⟩

theorem ReadsBack.append (h : ReadsBack guard step s front fits t)
    (h' : ReadsBack guard step t back fits' u) :
    ReadsBack guard step s (front ++ back) (fits ∧ fits') u where
  outcome := by
    rcases h.outcome with broken | ⟨hf, leads⟩
    · exact .inl (broken.append back)
    · rcases h'.outcome with broken | ⟨hf', leads'⟩
      · exact .inl (leads.breaks broken)
      · exact .inr ⟨⟨hf, hf'⟩, leads.append leads'⟩
  complete := fun hf size =>
    (h.complete hf.1 size.left).append (h'.complete hf.2 size.right)

theorem ReadsBack.congr (h : ReadsBack guard step s bytes fits t) (iff : fits ↔ fits') :
    ReadsBack guard step s bytes fits' t :=
  propext iff ▸ h

/-- A message that is nothing but these bytes. -/
theorem ReadsBack.decodes (h : ReadsBack guard step s bytes fits t) :
    Decodes (fold guard step s (ofBytes bytes)) bytes fits t := by
  have whole (leads : Leads guard step s bytes t) :
      fold guard step s (ofBytes bytes) = .ok t := by
    have eq := leads 0 []
    rw [List.append_nil, ofReader_nil, fold] at eq
    exact eq
  refine ⟨?_, fun hf size => whole (h.complete hf size)⟩
  rcases h.outcome with broken | ⟨hf, leads⟩
  · have failed := broken 0 []
    rw [List.append_nil] at failed
    exact .inl failed
  · exact .inr ⟨hf, whole leads⟩

section Field

variable {number : Nat} {value : Value}

theorem leads_field (whole : WholeField number value bytes)
    (guarded : ∀ start, guard ⟨number, value.wireType⟩ start = .ok ())
    (stepped : ∀ start, step s ⟨number, value, start⟩ = .ok t) : Leads guard step s bytes t := by
  intro offset rest
  obtain ⟨start, eq⟩ := ofReader_append whole offset
  rw [eq]
  simp only [fold, Field.tag, guarded, ok_bind, stepped]

theorem breaks_step (whole : WholeField number value bytes)
    (guarded : ∀ start, guard ⟨number, value.wireType⟩ start = .ok ())
    (failed : ∀ start, ∃ e, step s ⟨number, value, start⟩ = .error e) :
    Breaks guard step s bytes := by
  intro offset rest
  obtain ⟨start, eq⟩ := ofReader_append whole offset
  obtain ⟨e, failed⟩ := failed start
  rw [eq]
  exact ⟨e, by simp only [fold, Field.tag, guarded, ok_bind, failed, error_bind]⟩

theorem breaks_guard (whole : WholeField number value bytes)
    (refused : ∀ start, ∃ e, guard ⟨number, value.wireType⟩ start = .error e) :
    Breaks guard step s bytes := by
  intro offset rest
  obtain ⟨start, eq⟩ := ofReader_append whole offset
  obtain ⟨e, refused⟩ := refused start
  rw [eq]
  exact ⟨e, by simp only [fold, Field.tag, refused, error_bind]⟩

theorem breaks_value {tag : Tag} (ht : tag.Spelled front)
    (unread : ∀ offset rest, ∃ e, Reader.value ⟨offset, back ++ rest⟩ tag.wireType = .error e) :
    Breaks guard step s (front ++ back) := by
  intro offset rest
  have read : Reader.tag ⟨offset, front ++ back ++ rest⟩ =
      .ok (tag, ⟨offset + front.length, back ++ rest⟩) :=
    Reader.tag_eq_ok_iff.2 ⟨front, ht, List.append_assoc _ _ _, rfl⟩
  obtain ⟨e, unread⟩ := unread (offset + front.length) rest
  rw [ofReader_badValue read unread, fold]
  cases guard tag (offset + front.length) with
  | error e => exact ⟨e, rfl⟩
  | ok _ => exact ⟨e, rfl⟩

end Field

section Written

variable {number : Nat}

/-- A field number that fits into a tag of 64 bits. -/
def ValidNumber (number : Nat) : Prop := 0 < number ∧ number < 0x2000000000000000

instance : DecidablePred ValidNumber := fun _ => inferInstanceAs (Decidable (_ ∧ _))

theorem spelled_tag {type : WireType} (valid : ValidNumber number) :
    Tag.Spelled ⟨number, type⟩ (Tag.encode ⟨number, type⟩) := by
  have low := type.number_lt
  have small := valid.2
  refine ⟨valid.1, Varint.spelled_ofNat ?_⟩
  simp only [word64]
  omega

/-- A number reads back if it is below 2^64. -/
theorem readsBack_varintField (valid : ValidNumber number) {i : Int}
    (guarded : ∀ start, guard ⟨number, .varint⟩ start = .ok ())
    (stepped : i < word64 →
      ∀ start, step s ⟨number, .varint (Varint.unsigned i), start⟩ = .ok t) :
    ReadsBack guard step s (Encode.varintField number i) (i < word64) t := by
  have tag : Tag.Spelled ⟨number, .varint⟩ _ := spelled_tag valid
  have leads (h : i < word64) : Leads guard step s (Encode.varintField number i) t :=
    leads_field ⟨_, _, tag, .varint (Varint.spelled_ofNat (Varint.unsigned_lt_iff.2 h)), rfl⟩ guarded
      (stepped h)
  refine ⟨?_, fun h _ => leads h⟩
  by_cases h : i < word64
  · exact .inr ⟨h, leads h⟩
  · refine .inl (breaks_value tag fun offset rest => ⟨⟨.varintOverflow, offset⟩, ?_⟩)
    rw [Reader.value, Varint.encode,
      Reader.varint_ofNat_overflow (mt Varint.unsigned_lt_iff.1 h), error_bind]

theorem wholeField_partField (valid : ValidNumber number)
    {payload : Bytes} (size : Addressable payload) :
    WholeField number (.lengthDelimited payload) (Encode.partField number payload) :=
  ⟨_, _, spelled_tag valid, .lengthDelimited (Varint.spelled_ofNat size), rfl⟩

/-- No length prefix can tell the size of a part this large. -/
theorem breaks_partField (valid : ValidNumber number)
    {payload : Bytes} (size : ¬Addressable payload) :
    Breaks guard step s (Encode.partField number payload) := by
  have tag : Tag.Spelled ⟨number, .lengthDelimited⟩ _ := spelled_tag valid
  refine breaks_value tag fun offset rest => ⟨⟨.varintOverflow, offset⟩, ?_⟩
  rw [Reader.value, Reader.delimited, delimitedBytes, List.append_assoc,
    Reader.varint_ofNat_overflow size, error_bind, error_bind]

/-- A part reads back if its payload does. -/
theorem readsBack_partField (valid : ValidNumber number)
    {payload : Bytes} {x : Nat → Except DecodeError α} {a : α} (add : α → σ)
    (guarded : ∀ start, guard ⟨number, .lengthDelimited⟩ start = .ok ())
    (stepped : ∀ start, step s ⟨number, .lengthDelimited payload, start⟩ =
      x start >>= fun a => .ok (add a))
    (decodes : ∀ start, Decodes (x start) payload fits a) :
    ReadsBack guard step s (Encode.partField number payload) fits (add a) := by
  have leads (size : Addressable payload) (hf : fits) :
      Leads guard step s (Encode.partField number payload) (add a) :=
    leads_field (wholeField_partField valid size) guarded fun start => by
      rw [stepped, (decodes start).complete hf size, ok_bind]
  refine ⟨?_, fun hf size => leads size.right.right hf⟩
  by_cases size : Addressable payload
  · by_cases hf : fits
    · exact .inr ⟨hf, leads size hf⟩
    · refine .inl (breaks_step (wholeField_partField valid size) guarded fun start => ?_)
      rcases (decodes start).outcome with ⟨e, failed⟩ | ⟨hf', _⟩
      · exact ⟨e, by rw [stepped, failed, error_bind]⟩
      · exact absurd hf' hf
  · exact .inl (breaks_partField valid size)

theorem breaks_partField_guard (valid : ValidNumber number)
    {payload : Bytes} (refused : ∀ start, ∃ e, guard ⟨number, .lengthDelimited⟩ start = .error e) :
    Breaks guard step s (Encode.partField number payload) := by
  by_cases size : Addressable payload
  · exact breaks_guard (wholeField_partField valid size) refused
  · exact breaks_partField valid size

end Written

section Writes

variable {β : Type} {number : Nat} {x : Encode Bytes}

/-- What is written reads back, the state then being `t`. -/
def Writes (guard : Tag → Nat → Except DecodeError Unit)
    (step : σ → Field → Except DecodeError σ) (s : σ) (x : Encode Bytes) (fits : Prop) (t : σ) :
    Prop :=
  ∃ bytes, x = .ok bytes ∧ ReadsBack guard step s bytes fits t

theorem writes_nil (s : σ) : Writes guard step s (.ok []) True s := ⟨[], rfl, readsBack_nil s⟩

theorem writes_textField (add : Text → σ) (valid : ValidNumber number) {text : Text}
    (encodable : text.Encodable)
    (guarded : ∀ start, guard ⟨number, .lengthDelimited⟩ start = .ok ())
    (stepped : ∀ payload start, step s ⟨number, .lengthDelimited payload, start⟩ =
      decodeText payload start >>= fun text => .ok (add text)) :
    Writes guard step s (Encode.textField number text) True (add text) := by
  have encoded := Utf8.encode_eq_ok_iff.2 ⟨encodable, rfl⟩
  refine ⟨_, by rw [Encode.textField, encoded], readsBack_partField valid add guarded
    (stepped _) fun start => ?_⟩
  have decoded : decodeText (text.flatMap Utf8.bytesOf) start = .ok text := by
    rw [decodeText, Utf8.decode_of_encode encoded]
  exact ⟨.inr ⟨trivial, decoded⟩, fun _ _ => decoded⟩

/-- A text that may be absent is written if it is there. -/
def textIfAny (number : Nat) : Option Text → Encode Bytes
  | none => .ok []
  | some text => Encode.textField number text

theorem writes_textIfAny (put : Option Text → σ) (valid : ValidNumber number) {text? : Option Text}
    (encodable : ∀ t, text? = some t → t.Encodable)
    (guarded : ∀ start, guard ⟨number, .lengthDelimited⟩ start = .ok ())
    (stepped : ∀ payload start, step (put none) ⟨number, .lengthDelimited payload, start⟩ =
      decodeText payload start >>= fun text => .ok (put (some text))) :
    Writes guard step (put none) (textIfAny number text?) True (put text?) := by
  cases text? with
  | none => exact writes_nil _
  | some text =>
    exact writes_textField (fun text => put (some text)) valid (encodable text rfl) guarded stepped

/-- A text is written unless it is empty or absent. -/
def textUnlessEmpty (number : Nat) : Option Text → Encode Bytes
  | none | some [] => .ok []
  | some (c :: rest) => Encode.textField number (c :: rest)

theorem writes_textUnlessEmpty (put : Option Text → σ) (valid : ValidNumber number)
    {text? : Option Text} (encodable : ∀ t, text? = some t → t.Encodable)
    (guarded : ∀ start, guard ⟨number, .lengthDelimited⟩ start = .ok ())
    (stepped : ∀ payload start, step (put none) ⟨number, .lengthDelimited payload, start⟩ =
      decodeText payload start >>= fun text => .ok (put (some text))) :
    Writes guard step (put none) (textUnlessEmpty number text?) True
      (put (text?.filter fun text => !text.isEmpty)) := by
  match text? with
  | none | some [] => exact writes_nil _
  | some (c :: rest) =>
    exact writes_textField (fun text => put (some text)) valid (encodable _ rfl) guarded stepped

theorem writes_numberField (valid : ValidNumber number)
    {n : Descriptor.Number} (guarded : ∀ start, guard ⟨number, .varint⟩ start = .ok ())
    (stepped : n.value < word64 →
      ∀ start, step s ⟨number, .varint (Varint.unsigned n.value), start⟩ = .ok t) :
    Writes guard step s (Encode.numberField? number (some n)) (n.value < word64) t :=
  ⟨_, rfl, readsBack_varintField valid guarded stepped⟩

/-- What is written is read as `a`, on its own. -/
def RoundTrips (x : Encode Bytes) (decode : Bytes → Except DecodeError α) (fits : Prop) (a : α) :
    Prop :=
  ∃ bytes, x = .ok bytes ∧ Decodes (decode bytes) bytes fits a

theorem Writes.roundTrips (h : Writes guard step s x fits t) :
    RoundTrips x (fun bytes => fold guard step s (ofBytes bytes)) fits t :=
  let ⟨bytes, written, readsBack⟩ := h
  ⟨bytes, written, readsBack.decodes⟩

theorem writes_parts (put : List β → σ) {encode : α → Encode Bytes} {P : α → Prop} {f : α → β}
    {as : List α}
    (each : ∀ a ∈ as, ∃ payload, encode a = .ok payload ∧
      ∀ bs, ReadsBack guard step (put bs) (Encode.partField number payload) (P a)
        (put (bs ++ [f a]))) (bs : List β) :
    Writes guard step (put bs) (Encode.partFields number encode (as.map some)) (∀ a ∈ as, P a)
      (put (bs ++ as.map f)) := by
  induction as generalizing bs with
  | nil => exact ⟨[], rfl, by simpa using readsBack_nil (put bs)⟩
  | cons a as ih =>
    obtain ⟨payload, ha, head⟩ := each a List.mem_cons_self
    obtain ⟨rest, hr, tail⟩ := ih (fun b hb => each b (List.mem_cons_of_mem a hb)) (bs ++ [f a])
    refine ⟨_, by rw [List.map_cons, Encode.partFields, ha, hr]; rfl, ?_⟩
    rw [List.map_cons, List.append_cons]
    exact ((head bs).append tail).congr List.forall_mem_cons.symm

theorem writes_partFields (put : List β → σ) (valid : ValidNumber number)
    (guarded : ∀ start, guard ⟨number, .lengthDelimited⟩ start = .ok ())
    {encode : α → Encode Bytes} {decode : Bytes → Except DecodeError β} {P : α → Prop}
    {f : α → β}
    (stepped : ∀ bs payload start, step (put bs) ⟨number, .lengthDelimited payload, start⟩ =
      decode payload >>= fun b => .ok (put (bs ++ [b])))
    {as : List α} (trips : ∀ a ∈ as, RoundTrips (encode a) decode (P a) (f a)) (bs : List β) :
    Writes guard step (put bs) (Encode.partFields number encode (as.map some)) (∀ a ∈ as, P a)
      (put (bs ++ as.map f)) := by
  refine writes_parts put (fun a ha => ?_) bs
  obtain ⟨payload, encoded, decodes⟩ := trips a ha
  exact ⟨payload, encoded, fun bs => readsBack_partField valid (fun b => put (bs ++ [b])) guarded
    (stepped bs payload) fun _ => decodes⟩

/-- Where the parts are refused, they read back if there are none. -/
theorem writes_refusedFields (put : List β → σ) (valid : ValidNumber number)
    (refused : ∀ start, ∃ e, guard ⟨number, .lengthDelimited⟩ start = .error e)
    {encode : α → Encode Bytes} {P : α → Prop} {f : α → β} {as : List α}
    (encoded : ∀ a ∈ as, ∃ bytes, encode a = .ok bytes) (unfit : ∀ a, ¬P a) (bs : List β) :
    Writes guard step (put bs) (Encode.partFields number encode (as.map some)) (∀ a ∈ as, P a)
      (put (bs ++ as.map f)) := by
  refine writes_parts put (fun a ha => ?_) bs
  obtain ⟨payload, encoded⟩ := encoded a ha
  exact ⟨payload, encoded, fun _ =>
    ⟨.inl (breaks_partField_guard valid refused), fun fits => absurd fits (unfit a)⟩⟩

theorem writes_textFields (put : List Text → σ) (valid : ValidNumber number)
    (guarded : ∀ start, guard ⟨number, .lengthDelimited⟩ start = .ok ())
    (stepped : ∀ texts payload start, step (put texts) ⟨number, .lengthDelimited payload, start⟩ =
      decodeText payload start >>= fun text => .ok (put (texts ++ [text])))
    {texts : List Text} (encodable : ∀ t ∈ texts, t.Encodable) (before : List Text) :
    Writes guard step (put before) (Encode.textFields number texts) True
      (put (before ++ texts)) := by
  induction texts generalizing before with
  | nil => exact ⟨[], rfl, by simpa using readsBack_nil (put before)⟩
  | cons text texts ih =>
    obtain ⟨front, hf, head⟩ := writes_textField (fun text => put (before ++ [text])) valid
      (encodable text List.mem_cons_self)
      guarded (stepped before)
    obtain ⟨back, hb, tail⟩ :=
      ih (fun t ht => encodable t (List.mem_cons_of_mem text ht)) (before ++ [text])
    refine ⟨_, by rw [Encode.textFields, hf, hb]; rfl, ?_⟩
    rw [List.append_cons]
    exact (head.append tail).congr (by simp)

end Writes

section Options

variable {number : Nat} {table : List (Nat × Text)} {options : OrderedMap α}

theorem numberOf?_eq_none_iff {name : Text} :
    Descriptor.numberOf? table name = none ↔ name ∉ table.map Prod.snd := by
  simp only [Descriptor.numberOf?, Option.map_eq_none_iff, List.find?_eq_none, decide_eq_true_eq,
    List.mem_map, not_exists, not_and]

theorem writes_optionFields {encode : Nat → α → Encode Bytes}
    {step : OrderedMap α → Field → Except DecodeError (OrderedMap α)}
    {entries : List (Text × α)}
    (each : ∀ entry ∈ entries, ∀ number, Descriptor.numberOf? table entry.1 = some number →
      ∀ options, Writes noGuard step options (encode number entry.2) True
        (options.insert entry.1 entry.2)) (options : OrderedMap α) :
    Writes noGuard step options (Encode.optionFields table encode entries) True
      ((entries.filter fun entry => entry.1 ∈ table.map Prod.snd).foldl
        (fun options entry => options.insert entry.1 entry.2) options) := by
  induction entries generalizing options with
  | nil => exact ⟨[], rfl, readsBack_nil options⟩
  | cons entry rest ih =>
    have tail := ih fun e he => each e (List.mem_cons_of_mem entry he)
    cases hn : Descriptor.numberOf? table entry.1 with
    | none =>
      have unknown := numberOf?_eq_none_iff.1 hn
      rw [Encode.optionFields, hn, List.filter_cons_of_neg (by simpa using unknown)]
      exact tail options
    | some number =>
      have known : entry.1 ∈ table.map Prod.snd := by
        by_contra unknown
        rw [numberOf?_eq_none_iff.2 unknown] at hn
        cases hn
      obtain ⟨front, hf, head⟩ := each entry List.mem_cons_self number hn options
      obtain ⟨back, hb, tail⟩ := tail (options.insert entry.1 entry.2)
      refine ⟨front ++ back, ?_, ?_⟩
      · rw [Encode.optionFields, hn]
        simp only [hf, hb, ok_bind, pure_eq_ok]
      · rw [List.filter_cons_of_pos (by simpa using known), List.foldl_cons]
        exact (head.append tail).congr (by simp)

/-- The options in a field of their own; no field is the same as one with nothing in it. -/
theorem writes_optionsField (put : OrderedMap α → σ) (valid : ValidNumber number)
    (guarded : ∀ start, guard ⟨number, .lengthDelimited⟩ start = .ok ())
    {encode : Nat → α → Encode Bytes} {decode : Bytes → Except DecodeError (OrderedMap α)}
    (stepped : ∀ payload start, step (put ∅) ⟨number, .lengthDelimited payload, start⟩ =
      decode payload >>= fun options => .ok (put options))
    (trips : RoundTrips (Encode.optionFields table encode options.entries) decode True
      (options.restrict (table.map Prod.snd))) :
    Writes guard step (put ∅) (Encode.optionsField number table encode (some options)) True
      (put (options.restrict (table.map Prod.snd))) := by
  by_cases empty : options.isEmpty
  · have none : options.restrict (table.map Prod.snd) = ∅ :=
      OrderedMap.ext (by simp_all [OrderedMap.restrict, OrderedMap.isEmpty]; rfl)
    rw [Encode.optionsField, if_pos empty, none]
    exact writes_nil _
  · obtain ⟨payload, hp, decodes⟩ := trips
    refine ⟨_, by rw [Encode.optionsField, if_neg empty, hp]; rfl, ?_⟩
    exact readsBack_partField valid put guarded (stepped payload) fun _ => decodes

end Options

end Wire.Fields

end SchemaPlugin
