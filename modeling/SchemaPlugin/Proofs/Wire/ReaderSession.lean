import SchemaPlugin.Proofs.Wire.FieldRuns
import SchemaPlugin.Wire.ReaderSession

/-!
Runs of operations on one reader. An operation moves the reader in one of a few ways: it takes
bytes, at least one, or it fails and takes none. The exceptions are a text whose bytes are no UTF-8,
which has been passed, and a scan, which stops where it breaks off. What holds all along a run
follows from the moves alone.
-/

namespace SchemaPlugin.Wire

namespace Reader

variable {r mid next : Reader}

/-- `next` is at the same place of the buffer or further on. -/
def Reaches (r next : Reader) : Prop := ∃ front, r.Passes front next

/-- `next` is further on in the buffer. -/
def Advances (r next : Reader) : Prop := ∃ front, front ≠ [] ∧ r.Passes front next

theorem reaches_self (r : Reader) : r.Reaches r := ⟨[], rfl, rfl⟩

theorem Reaches.trans (h : r.Reaches mid) (h' : mid.Reaches next) : r.Reaches next := by
  obtain ⟨front, passes⟩ := h
  obtain ⟨back, passes'⟩ := h'
  exact ⟨front ++ back, passes.trans passes'⟩

theorem Reaches.offset_le (h : r.Reaches next) : r.offset ≤ next.offset := by
  obtain ⟨front, -, offset⟩ := h
  exact offset ▸ Nat.le_add_right _ _

theorem Advances.reaches (h : r.Advances next) : r.Reaches next := by
  obtain ⟨front, -, passes⟩ := h
  exact ⟨front, passes⟩

theorem Advances.offset_lt (h : r.Advances next) : r.offset < next.offset := by
  obtain ⟨front, some, -, offset⟩ := h
  have := List.length_pos_iff.2 some
  omega

/-- A reader that comes from the beginning of the bytes divides them. -/
theorem Reaches.divides {data : Bytes} (h : (ofBytes data).Reaches r) :
    ∃ front, data = front ++ r.rest ∧ r.offset = front.length := by
  obtain ⟨front, rest, offset⟩ := h
  exact ⟨front, rest, offset.trans (Nat.zero_add _)⟩

theorem Reaches.within {data : Bytes} (h : (ofBytes data).Reaches r) : r.offset ≤ data.length := by
  obtain ⟨front, rfl, offset⟩ := h.divides
  rw [offset, List.length_append]
  exact Nat.le_add_right _ _

theorem Reaches.rest_eq {data : Bytes} (h : (ofBytes data).Reaches r) :
    r.rest = data.drop r.offset := by
  obtain ⟨front, eq, offset⟩ := h.divides
  rw [offset, eq, List.drop_left]

theorem Reaches.hasMore_eq {data : Bytes} (h : (ofBytes data).Reaches r) :
    r.hasMore = decide (r.offset < data.length) := by
  rw [hasMore, h.rest_eq]
  by_cases inside : r.offset < data.length
  · simp [inside]
  · simp [inside, Nat.le_of_not_lt inside]

theorem advances_varint {n : Nat} (h : r.varint = .ok (n, next)) : r.Advances next := by
  obtain ⟨front, spelled, passes⟩ := varint_eq_ok_iff.1 h
  exact ⟨front, spelled.ne_nil, passes⟩

theorem advances_tag {t : Tag} (h : r.tag = .ok (t, next)) : r.Advances next := by
  obtain ⟨front, ⟨-, spelled⟩, passes⟩ := tag_eq_ok_iff.1 h
  exact ⟨front, spelled.ne_nil, passes⟩

theorem advances_take {value : Sized} {n : Nat} {bytes : Bytes}
    (h : r.take value (n + 1) = .ok (bytes, next)) : r.Advances next := by
  obtain ⟨length, passes⟩ := take_eq_ok_iff.1 h
  exact ⟨bytes, List.ne_nil_of_length_eq_add_one length, passes⟩

theorem advances_fixed32 {n : Nat} (h : r.fixed32 = .ok (n, next)) : r.Advances next := by
  obtain ⟨⟨bytes, last⟩, taken, eq⟩ := bind_eq_ok_iff.1 h
  cases eq
  exact advances_take taken

theorem advances_fixed64 {n : Nat} (h : r.fixed64 = .ok (n, next)) : r.Advances next := by
  obtain ⟨⟨bytes, last⟩, taken, eq⟩ := bind_eq_ok_iff.1 h
  cases eq
  exact advances_take taken

theorem advances_delimited {payload : Bytes} (h : r.delimited = .ok (payload, next)) :
    r.Advances next := by
  obtain ⟨length, spelled, passes⟩ := delimited_eq_ok_iff.1 h
  exact ⟨length ++ payload, List.append_ne_nil_of_left_ne_nil spelled.ne_nil payload, passes⟩

theorem advances_value {w : WireType} {v : Value} (h : r.value w = .ok (v, next)) :
    r.Advances next := by
  obtain ⟨-, front, spelled, passes⟩ := value_eq_ok_iff.1 h
  exact ⟨front, spelled.ne_nil, passes⟩

theorem skip_number (r : Reader) (w : WireType) :
    r.skip w.number = r.value w >>= fun p => .ok p.2 := by
  rw [skip, WireType.ofNumber?_eq_some_iff.2 rfl]
  rfl

/-- What is no number of a wire type is no value that could be passed over. -/
theorem skip_unknown (r : Reader) {n : Int} (unknown : ∀ w : WireType, n ≠ w.number) :
    r.skip n = .error ⟨.unknownWireType n, r.offset⟩ := by
  have varint : n ≠ 0 := unknown .varint
  have fixed64 : n ≠ 1 := unknown .fixed64
  have lengthDelimited : n ≠ 2 := unknown .lengthDelimited
  have fixed32 : n ≠ 5 := unknown .fixed32
  have none : WireType.ofNumber? n = none := by
    rw [WireType.ofNumber?, if_neg varint, if_neg fixed64, if_neg lengthDelimited, if_neg fixed32]
  rw [skip, none]
  rfl

theorem advances_skip {n : Int} (h : r.skip n = .ok next) : r.Advances next := by
  rw [skip] at h
  split at h
  · cases h
  · obtain ⟨⟨v, last⟩, read, eq⟩ := bind_eq_ok_iff.1 h
    cases eq
    exact advances_value read

/-- The tags of whole fields, one after the other, each value passed over. -/
inductive Scanned : Reader → List Tag → Reader → Prop
  | nil (r : Reader) : Scanned r [] r
  | cons {r mid last stop : Reader} {t : Tag} {ts : List Tag} (tag : r.tag = .ok (t, mid))
      (skip : mid.skip t.wireType.number = .ok last) (rest : Scanned last ts stop) :
      Scanned r (t :: ts) stop

theorem Scanned.reaches {ts : List Tag} (h : r.Scanned ts next) : r.Reaches next := by
  induction h with
  | nil r => exact reaches_self r
  | cons tag skip _ ih =>
    exact ((advances_tag tag).reaches.trans (advances_skip skip).reaches).trans ih

/-- The step at `r` fails, and leaves the reader at `stop`: at a tag that is not read, or after a
tag whose value cannot be passed over. -/
inductive BreaksOff (r : Reader) (e : DecodeError) : Reader → Prop
  | tag (more : r.hasMore = true) (failed : r.tag = .error e) : BreaksOff r e r
  | value {t : Tag} {stop : Reader} (tag : r.tag = .ok (t, stop))
      (failed : stop.skip t.wireType.number = .error e) : BreaksOff r e stop

theorem BreaksOff.reaches {e : DecodeError} (h : r.BreaksOff e next) : r.Reaches next := by
  cases h with
  | tag => exact reaches_self r
  | value tag _ => exact (advances_tag tag).reaches

theorem scan_badTag {e : DecodeError} (more : r.hasMore = true) (ht : r.tag = .error e) :
    r.scan = (.error e, r) := by
  rw [scan, if_pos more]
  split <;> simp_all

theorem scan_badValue {t : Tag} {e : DecodeError} (ht : r.tag = .ok (t, next))
    (hv : next.value t.wireType = .error e) : r.scan = (.error e, next) := by
  rw [scan, if_pos (Fields.hasMore_of_tag ht)]
  split
  · simp_all
  · rename_i heq
    cases ht.symm.trans heq
    split <;> simp_all

theorem scan_field {t : Tag} {v : Value} (ht : r.tag = .ok (t, mid))
    (hv : mid.value t.wireType = .ok (v, next)) :
    r.scan = (next.scan.1.map (t :: ·), next.scan.2) := by
  rw [scan, if_pos (Fields.hasMore_of_tag ht)]
  split
  · simp_all
  · rename_i heq
    cases ht.symm.trans heq
    split
    · simp_all
    · rename_i heq
      cases hv.symm.trans heq
      rfl

/-- A scan goes to the end, or to the first step that fails. -/
theorem scan_cases (r : Reader) :
    (∃ ts stop, r.scan = (.ok ts, stop) ∧ r.Scanned ts stop ∧ stop.hasMore = false) ∨
      ∃ ts last e stop, r.scan = (.error e, stop) ∧ r.Scanned ts last ∧ last.BreaksOff e stop := by
  induction r using scan.induct with
  | case1 r more e ht =>
    exact .inr ⟨[], r, e, r, scan_badTag more ht, .nil r, .tag more ht⟩
  | case2 r more t mid ht e hv =>
    have skipped : mid.skip t.wireType.number = .error e := by rw [skip_number, hv, error_bind]
    exact .inr ⟨[], r, e, mid, scan_badValue ht hv, .nil r, .value ht skipped⟩
  | case3 r more t mid ht v last hv _ _ _ ih =>
    have skipped : mid.skip t.wireType.number = .ok last := by rw [skip_number, hv, ok_bind]
    have step := scan_field ht hv
    rcases ih with ⟨ts, stop, eq, scanned, ended⟩ | ⟨ts, brink, e, stop, eq, scanned, broken⟩
    · exact .inl ⟨t :: ts, stop, by rw [step, eq]; rfl, .cons ht skipped scanned, ended⟩
    · exact .inr ⟨t :: ts, brink, e, stop, by rw [step, eq]; rfl, .cons ht skipped scanned, broken⟩
  | case4 r more =>
    exact .inl ⟨[], r, by rw [scan, if_neg more], .nil r, by simpa using more⟩

/-- Two reads end at the same place, or fail and tell of the same place and the same bytes. -/
inductive SameMove {α β : Type} :
    Except DecodeError (α × Reader) → Except DecodeError (β × Reader) → Prop
  | moved (a : α) (b : β) (next : Reader) : SameMove (.ok (a, next)) (.ok (b, next))
  | failed {e e' : DecodeError} (offset : e'.offset = e.offset)
      (expected : e'.expected? = e.expected?) (available : e'.available? = e.available?) :
      SameMove (.error e) (.error e')

section SameMove

variable {α β γ : Type} {x : Except DecodeError (α × Reader)} {y : Except DecodeError (β × Reader)}

theorem sameMove_self (x : Except DecodeError (α × Reader)) : SameMove x x := by
  cases x with
  | error e => exact .failed rfl rfl rfl
  | ok p => exact .moved p.1 p.1 p.2

theorem SameMove.map_left (h : SameMove x y) (f : α → γ) :
    SameMove (x >>= fun p => .ok (f p.1, p.2)) y := by
  cases h with
  | moved a b next => exact .moved (f a) b next
  | failed offset expected available => exact .failed offset expected available

theorem SameMove.map_right (h : SameMove x y) (f : β → γ) :
    SameMove x (y >>= fun p => .ok (f p.1, p.2)) := by
  cases h with
  | moved a b next => exact .moved a (f b) next
  | failed offset expected available => exact .failed offset expected available

/-- Whether so many bytes are left does not depend on what they are for. -/
theorem sameMove_take (r : Reader) (value value' : Sized) (n : Nat) :
    SameMove (r.take value n) (r.take value' n) := by
  rw [take, take]
  split_ifs
  · exact .failed rfl rfl rfl
  · exact .moved _ _ _

end SameMove

end Reader

namespace ReaderSession

variable {s s' : ReaderSession} {op : Operation} {outcome : Except DecodeError Answer}

/-- Performs operations one after the other, whatever comes of each. -/
def run : ReaderSession → List Operation → List (Except DecodeError Answer) × ReaderSession
  | s, [] => ([], s)
  | s, op :: ops =>
    let (answer, next) := s.perform op
    let (answers, last) := run next ops
    (answer :: answers, last)

/-- Whether an operation takes one value. The others look, or go over the tags. -/
def Operation.takes : Operation → Bool
  | .tag | .varint | .int64 | .bool | .fixed32 | .fixed64 | .bytes | .message | .text | .skip _ =>
    true
  | .hasMore | .nextTag | .scan => false

/-- How an operation moves the reader, by its outcome. The tags end, if they have not, at a step that
yields none. -/
inductive Moves (s : ReaderSession) :
    Operation → Except DecodeError Answer → ReaderSession → Prop
  | looked : Moves s .hasMore (.ok (.flag s.reader.hasMore)) s
  | took {op : Operation} {answer : Answer} {next : Reader} (takes : op.takes)
      (advances : s.reader.Advances next) : Moves s op (.ok answer) { s with reader := next }
  | stayed {op : Operation} {e : DecodeError} (takes : op.takes)
      (cut : op = .text → s.reader.delimited = .error e) : Moves s op (.error e) s
  | passed {payload : Bytes} {next : Reader} {e : DecodeError}
      (whole : s.reader.delimited = .ok (payload, next)) (invalid : ¬Utf8.WellFormed payload) :
      Moves s .text (.error e) { s with reader := next }
  | yielded {t : Tag} {next : Reader} (advances : s.reader.Advances next) :
      Moves s .nextTag (.ok (.tag t)) { s with reader := next }
  | ended {outcome : Except DecodeError Answer} (none : ∀ t, outcome ≠ .ok (.tag t)) :
      Moves s .nextTag outcome { s with tagsEnded := true }
  | scanned {ts : List Tag} {stop : Reader} (scanned : s.reader.Scanned ts stop)
      (done : stop.hasMore = false) : Moves s .scan (.ok (.tags ts)) { s with reader := stop }
  | brokeOff {ts : List Tag} {last stop : Reader} {e : DecodeError}
      (scanned : s.reader.Scanned ts last) (broken : last.BreaksOff e stop) :
      Moves s .scan (.error e) { s with reader := stop }

theorem moves_read {α : Type} (op : Operation) (takes : op.takes) (noText : op ≠ .text)
    {read : Reader → Except DecodeError (α × Reader)}
    (advances : ∀ a next, read s.reader = .ok (a, next) → s.reader.Advances next)
    (answer : α → Answer) : Moves s op (s.read read answer).1 (s.read read answer).2 := by
  rw [ReaderSession.read]
  split
  · rename_i a next eq
    exact .took takes (advances a next eq)
  · exact .stayed takes fun text => absurd text noText

theorem moves_text (s : ReaderSession) :
    Moves s .text (s.perform .text).1 (s.perform .text).2 := by
  rw [perform, Reader.text]
  cases read : s.reader.delimited with
  | error e => exact .stayed rfl fun _ => read
  | ok p =>
    obtain ⟨payload, next⟩ := p
    dsimp only
    cases decoded : decodeText payload s.reader.offset with
    | ok t => exact .took rfl (Reader.advances_delimited read)
    | error e =>
      refine .passed read fun wellFormed => ?_
      obtain ⟨t, ok⟩ := decodeText_isOk_iff.2 wellFormed
      cases decoded.symm.trans ok

theorem moves_skip (s : ReaderSession) (wireType : Int) :
    Moves s (.skip wireType) (s.perform (.skip wireType)).1 (s.perform (.skip wireType)).2 := by
  rw [perform]
  split
  · rename_i next skipped
    exact .took rfl (Reader.advances_skip skipped)
  · exact .stayed rfl nofun

theorem moves_nextTag (s : ReaderSession) :
    Moves s .nextTag (s.perform .nextTag).1 (s.perform .nextTag).2 := by
  obtain ⟨r, tagsEnded⟩ := s
  rw [perform]
  split_ifs with ended more
  · change tagsEnded = true at ended
    subst ended
    exact .ended nofun
  · split
    · rename_i t next read
      exact .yielded (Reader.advances_tag read)
    · exact .ended nofun
  · exact .ended nofun

theorem moves_scan (s : ReaderSession) :
    Moves s .scan (s.perform .scan).1 (s.perform .scan).2 := by
  rw [perform]
  rcases s.reader.scan_cases with
    ⟨ts, stop, eq, scanned, done⟩ | ⟨ts, last, e, stop, eq, scanned, broken⟩
  · rw [eq]
    exact .scanned scanned done
  · rw [eq]
    exact .brokeOff scanned broken

theorem moves_perform (s : ReaderSession) (op : Operation) :
    Moves s op (s.perform op).1 (s.perform op).2 := by
  cases op with
  | hasMore => exact .looked
  | tag => exact moves_read .tag rfl nofun (fun _ _ => Reader.advances_tag) _
  | varint => exact moves_read .varint rfl nofun (fun _ _ => Reader.advances_varint) _
  | int64 => exact moves_read .int64 rfl nofun (fun _ _ => Reader.advances_varint) _
  | bool => exact moves_read .bool rfl nofun (fun _ _ => Reader.advances_varint) _
  | fixed32 => exact moves_read .fixed32 rfl nofun (fun _ _ => Reader.advances_fixed32) _
  | fixed64 => exact moves_read .fixed64 rfl nofun (fun _ _ => Reader.advances_fixed64) _
  | bytes => exact moves_read .bytes rfl nofun (fun _ _ => Reader.advances_delimited) _
  | message => exact moves_read .message rfl nofun (fun _ _ => Reader.advances_delimited) _
  | text => exact moves_text s
  | skip wireType => exact moves_skip s wireType
  | nextTag => exact moves_nextTag s
  | scan => exact moves_scan s

theorem Moves.reaches (h : Moves s op outcome s') : s.reader.Reaches s'.reader := by
  cases h with
  | looked | stayed | ended => exact Reader.reaches_self _
  | took _ advances | yielded advances => exact advances.reaches
  | passed whole _ => exact (Reader.advances_delimited whole).reaches
  | scanned scanned _ => exact scanned.reaches
  | brokeOff scanned broken => exact scanned.reaches.trans broken.reaches

theorem Moves.tagsEnded (h : Moves s op outcome s') (ended : s.tagsEnded = true) :
    s'.tagsEnded = true := by
  cases h with
  | ended => rfl
  | _ => exact ended

theorem Moves.offset_lt_of_takes {answer : Answer} (h : Moves s op (.ok answer) s')
    (takes : op.takes) : s.reader.offset < s'.reader.offset := by
  cases h with
  | took _ advances => exact advances.offset_lt
  | looked | yielded | ended | scanned => cases takes

theorem Moves.offset_lt_of_yields {t : Tag} (h : Moves s .nextTag (.ok (.tag t)) s') :
    s.reader.offset < s'.reader.offset := by
  cases h with
  | took _ advances | yielded advances => exact advances.offset_lt
  | ended none => exact absurd rfl (none t)

theorem Moves.ended_of_nextTag (h : Moves s .nextTag outcome s')
    (none : ∀ t, outcome ≠ .ok (.tag t)) : s' = { s with tagsEnded := true } := by
  cases h with
  | took takes | stayed takes => cases takes
  | yielded => exact absurd rfl (none _)
  | ended => rfl

theorem reaches_run (s : ReaderSession) (ops : List Operation) :
    s.reader.Reaches (s.run ops).2.reader := by
  induction ops generalizing s with
  | nil => exact Reader.reaches_self _
  | cons op ops ih => exact (moves_perform s op).reaches.trans (ih (s.perform op).2)

/-- What has ended stays ended. -/
theorem tagsEnded_run (ops : List Operation) (ended : s.tagsEnded = true) :
    (s.run ops).2.tagsEnded = true := by
  induction ops generalizing s with
  | nil => exact ended
  | cons op ops ih => exact ih ((moves_perform s op).tagsEnded ended)

/-- Where an operation that fails leaves the reader: where it was, except after a text that is
complete but no UTF-8, or at the step of a scan that fails. -/
inductive FailsAt (r : Reader) (e : DecodeError) : Operation → Reader → Prop
  | stays {op : Operation} (noText : op ≠ .text) (noScan : op ≠ .scan) : FailsAt r e op r
  | cut (failed : r.delimited = .error e) : FailsAt r e .text r
  | passed {payload : Bytes} {next : Reader} (whole : r.delimited = .ok (payload, next))
      (invalid : ¬Utf8.WellFormed payload) : FailsAt r e .text next
  | scan {ts : List Tag} {last stop : Reader} (scanned : r.Scanned ts last)
      (broken : last.BreaksOff e stop) : FailsAt r e .scan stop

theorem Moves.failsAt {e : DecodeError} (h : Moves s op (.error e) s') :
    FailsAt s.reader e op s'.reader := by
  cases h with
  | @stayed op e takes cut =>
    by_cases text : op = .text
    · subst text
      exact .cut (cut rfl)
    · refine .stays text ?_
      rintro rfl
      cases takes
  | passed whole invalid => exact .passed whole invalid
  | ended => exact .stays nofun nofun
  | brokeOff scanned broken => exact .scan scanned broken

/-- The operation that reads a value of the wire type. -/
def Operation.ofWireType : WireType → Operation
  | .varint => .varint
  | .fixed64 => .fixed64
  | .lengthDelimited => .bytes
  | .fixed32 => .fixed32

/-- To pass over a value of a wire type is to read it: both end at the same place, or both fail and
tell of the same place and the same bytes. -/
def SkipsAs (s : ReaderSession) (w : WireType) : Prop :=
  (∃ answer s', s.perform (.ofWireType w) = (.ok answer, s') ∧
    s.perform (.skip w.number) = (.ok .nothing, s')) ∨
  ∃ e e' : DecodeError, s.perform (.ofWireType w) = (.error e, s) ∧
    s.perform (.skip w.number) = (.error e', s) ∧ e'.offset = e.offset ∧
      e'.expected? = e.expected? ∧ e'.available? = e.available?

theorem perform_skip (s : ReaderSession) (w : WireType) :
    s.perform (.skip w.number) = s.read (fun r => r.value w) fun _ => .nothing := by
  rw [perform, ReaderSession.read, Reader.skip_number]
  cases s.reader.value w <;> rfl

theorem skipsAs_of_sameMove {α : Type} {w : WireType}
    {read : Reader → Except DecodeError (α × Reader)} {answer : α → Answer}
    (reads : s.perform (.ofWireType w) = s.read read answer)
    (same : Reader.SameMove (read s.reader) (s.reader.value w)) : SkipsAs s w := by
  rw [SkipsAs, perform_skip, reads, ReaderSession.read, ReaderSession.read]
  generalize read s.reader = x at same
  generalize s.reader.value w = y at same
  cases same with
  | moved a b next => exact .inl ⟨_, _, rfl, rfl⟩
  | failed offset expected available => exact .inr ⟨_, _, rfl, rfl, offset, expected, available⟩

theorem skipsAs (s : ReaderSession) (w : WireType) : SkipsAs s w := by
  cases w with
  | varint => exact skipsAs_of_sameMove rfl ((Reader.sameMove_self _).map_right _)
  | fixed64 =>
    have taken := Reader.sameMove_take s.reader .fixed64 .skipped 8
    exact skipsAs_of_sameMove rfl
      ((taken.map_left littleEndian).map_right fun bytes => Value.fixed64 (littleEndian bytes))
  | lengthDelimited => exact skipsAs_of_sameMove rfl ((Reader.sameMove_self _).map_right _)
  | fixed32 =>
    have taken := Reader.sameMove_take s.reader .fixed32 .skipped 4
    exact skipsAs_of_sameMove rfl
      ((taken.map_left littleEndian).map_right fun bytes => Value.fixed32 (littleEndian bytes))

/-- What holds of a session on the bytes `data`, whatever has been done before and comes next. -/
structure Orderly (data : Bytes) (s : ReaderSession) : Prop where
  within : s.reader.offset ≤ data.length
  rest : s.reader.rest = data.drop s.reader.offset
  forward : ∀ ops, s.reader.offset ≤ (s.run ops).2.reader.offset
  looks : s.perform .hasMore = (.ok (.flag (s.reader.offset < data.length)), s)
  takes : ∀ op answer, op.takes → (s.perform op).1 = .ok answer →
    s.reader.offset < (s.perform op).2.reader.offset
  yields : ∀ t, (s.perform .nextTag).1 = .ok (.tag t) →
    s.reader.offset < (s.perform .nextTag).2.reader.offset
  fails : ∀ op e, (s.perform op).1 = .error e → FailsAt s.reader e op (s.perform op).2.reader
  skips : ∀ w, SkipsAs s w
  refuses : ∀ n : Int, (∀ w : WireType, n ≠ w.number) →
    s.perform (.skip n) = (.error ⟨.unknownWireType n, s.reader.offset⟩, s)
  ends : (∀ t, (s.perform .nextTag).1 ≠ .ok (.tag t)) →
    (s.perform .nextTag).2.reader = s.reader ∧ ∀ ops,
      let later := ((s.perform .nextTag).2.run ops).2
      later.perform .nextTag = (.ok .nothing, later)

theorem perform_skip_unknown (s : ReaderSession) {n : Int}
    (unknown : ∀ w : WireType, n ≠ w.number) :
    s.perform (.skip n) = (.error ⟨.unknownWireType n, s.reader.offset⟩, s) := by
  rw [perform, Reader.skip_unknown s.reader unknown]

theorem perform_nextTag_of_ended (ended : s.tagsEnded = true) :
    s.perform .nextTag = (.ok .nothing, s) := by
  rw [perform, if_pos ended]

/-- All along a run of operations, whatever they are and whatever comes of each, the session stays
orderly. -/
theorem orderly_run (data : Bytes) (before : List Operation) :
    Orderly data ((ofBytes data).run before).2 := by
  -- What came before leaves only this; the moves of a step are the same in every session.
  have reached : (Reader.ofBytes data).Reaches ((ofBytes data).run before).2.reader :=
    reaches_run (ofBytes data) before
  generalize ((ofBytes data).run before).2 = s at reached
  constructor
  case within => exact reached.within
  case rest => exact reached.rest_eq
  case forward => exact fun ops => (reaches_run s ops).offset_le
  case looks => rw [perform, reached.hasMore_eq]
  case takes =>
    intro op answer takes eq
    exact Moves.offset_lt_of_takes (eq ▸ moves_perform s op) takes
  case yields =>
    intro t eq
    exact Moves.offset_lt_of_yields (eq ▸ moves_perform s .nextTag)
  case fails =>
    intro op e eq
    exact Moves.failsAt (eq ▸ moves_perform s op)
  case skips => exact skipsAs s
  case refuses => exact fun n => perform_skip_unknown s
  case ends =>
    intro none
    rw [(moves_perform s .nextTag).ended_of_nextTag none]
    exact ⟨rfl, fun ops => perform_nextTag_of_ended (tagsEnded_run ops rfl)⟩

-- The text is no UTF-8 and has been passed; there is no wire type 3, so nothing more is.
example : ((ofBytes [1, 0xFF, 7]).run [.text, .skip 3]).2.reader = ⟨2, [7]⟩ := by decide

end ReaderSession

end SchemaPlugin.Wire
