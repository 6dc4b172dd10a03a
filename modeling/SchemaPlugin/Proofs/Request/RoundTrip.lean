import SchemaPlugin.Proofs.Descriptor.RoundTrip

/-!
Requests that are written and read. The files come back in the order in which they were, but each
under its own name, so that a file without a name is lost and of two with one name the later stays,
in the place of the earlier.
-/

namespace SchemaPlugin.Request

open Wire (DecodeError)
open Wire.Fields

theorem step_file (r : Request) (payload : Bytes) (start : Nat) :
    step r ⟨15, .lengthDelimited payload, start⟩ = Descriptor.File.decode payload >>= fun f =>
      .ok { r with protoFiles := file r.protoFiles f } := by
  simp only [step, pure_eq_ok]
  congr 1
  funext f
  unfold file addFile
  split_ifs <;> rfl

theorem WellTyped.roundTrips {r : Request} (typed : r.WellTyped) :
    RoundTrips r.encode decode r.Fits r.normalize := by
  cases typed with
  | @mk names parameter files namesEncodable parameterEncodable filesTyped =>
    let whole (names : List Text) (parameter : Text) (files : List Descriptor.File) : Request :=
      ⟨some names, some parameter, files.foldl file ∅⟩
    have hnames : Writes noGuard step {} (Encode.textFields 1 names) _ (whole names [] []) :=
      writes_textFields (fun names => whole names [] []) (by decide) (fun _ => rfl)
        (fun _ _ _ => rfl) namesEncodable []
    have hparameter : Writes noGuard step (whole names [] []) (textUnlessEmpty 2 (some parameter))
        True (whole names parameter []) := by
      cases parameter with
      | nil => exact writes_nil _
      | cons c rest =>
        exact writes_textField (fun parameter => whole names parameter []) (by decide)
          parameterEncodable (fun _ => rfl) fun _ _ => rfl
    have hfiles : Writes noGuard step (whole names parameter [])
        (Encode.partFields 15 Descriptor.File.encode (files.values.map some)) _
        (whole names parameter (files.values.map Descriptor.File.normalize)) :=
      writes_partFields (whole names parameter) (by decide) (fun _ => rfl)
        (fun _ _ _ => by simp [whole, step_file])
        (fun f hf => (filesTyped f hf).roundTrips) []
    obtain ⟨b₁, h₁, hnames⟩ := hnames
    obtain ⟨b₂, h₂, hparameter⟩ := hparameter
    obtain ⟨b₃, h₃, hfiles⟩ := hfiles
    refine ⟨b₁ ++ b₂ ++ b₃, ?_, (((hnames.append hparameter).append hfiles).congr ?_).decodes⟩
    · cases parameter with
      | nil =>
        cases h₂
        simp [encode, Encode.textFields?, h₁, h₃]
      | cons c rest =>
        rw [textUnlessEmpty] at h₂
        simp [encode, Encode.textFields?, h₁, h₂, h₃]
    · simp [Fits]

/-- A request that is written and read is normalized, and it can be read just if it fits. -/
theorem decode_encode {r : Request} (typed : r.WellTyped) :
    ∃ bytes, r.encode = .ok bytes ∧
      (Addressable bytes → ((∃ t, decode bytes = .ok t) ↔ r.Fits)) ∧
      (∀ t, decode bytes = .ok t → t = r.normalize) ∧
      (¬r.Fits → ∃ e, decode bytes = .error e) := by
  obtain ⟨bytes, written, outcome, complete⟩ := typed.roundTrips
  refine ⟨bytes, written, fun size => ⟨?_, fun fits => ⟨_, complete fits size⟩⟩, ?_, ?_⟩
  · rintro ⟨t, read⟩
    rcases outcome with ⟨e, failed⟩ | ⟨fits, -⟩
    · rw [failed] at read
      cases read
    · exact fits
  · intro t read
    rcases outcome with ⟨e, failed⟩ | ⟨-, read'⟩
    · rw [failed] at read
      cases read
    · rw [read'] at read
      cases read
      rfl
  · intro unfit
    rcases outcome with failed | ⟨fits, -⟩
    · exact failed
    · exact absurd fits unfit

/-- A file under a name that is not its own, with an option that has no field number and a number
that takes all 64 bits. -/
def misfiled : Request where
  filesToGenerate := some ["a.proto"]
  protoFiles := ⟨[("b.proto", {
    name := some "a.proto"
    messages := some [some {
      name := some "M"
      fields := some [some { name := some "f", number := some (.int 0xFFFFFFFFFFFFFFFF) }]
      options := some ⟨[("deprecated", true), ("unknown", true)], by decide⟩ }] })], by decide⟩

theorem decode_encode_misfiled :
    misfiled.WellTyped ∧ misfiled.normalize.protoFiles.keys = [("a.proto" : Text)] ∧
      ∃ bytes, misfiled.encode = .ok bytes ∧ decode bytes = .ok misfiled.normalize := by
  have typed : misfiled.WellTyped := by
    refine .mk (by decide) (by decide) fun f hf => ?_
    obtain rfl := List.mem_singleton.1 hf
    refine @Descriptor.File.WellTyped.mk _ none [] [_] [] ∅ (by decide) nofun nofun
      (fun m hm => ?_) nofun nofun
    obtain rfl := List.mem_singleton.1 hm
    refine @Descriptor.Message.WellTyped.mk _ [_] [] [] _ (by decide) (fun f hf => ?_) nofun nofun
    obtain rfl := List.mem_singleton.1 hf
    exact .mk (by decide) nofun
  obtain ⟨bytes, written, readable, normal, -⟩ := decode_encode typed
  have size : Addressable bytes := by
    have same : bytes = misfiled.encode.toOption.getD [] := by rw [written]; rfl
    rw [same]
    decide +kernel
  have fits : misfiled.Fits := by
    intro f hf
    obtain rfl := List.mem_singleton.1 hf
    refine ⟨(@Descriptor.each_map_some _ _ [_]).2 fun m hm => ?_,
      (@Descriptor.each_map_some _ _ []).2 nofun⟩
    obtain rfl := List.mem_singleton.1 hm
    refine ⟨(@Descriptor.Message.fits_iff _ [_] [] [] _).2 ⟨fun f hf => ?_, nofun, nofun⟩,
      by decide⟩
    obtain rfl := List.mem_singleton.1 hf
    exact ⟨by rintro _ ⟨⟩; decide, by rintro _ ⟨⟩; decide⟩
  obtain ⟨r, read⟩ := (readable size).2 fits
  exact ⟨typed, by decide, bytes, written, normal r read ▸ read⟩

end SchemaPlugin.Request
