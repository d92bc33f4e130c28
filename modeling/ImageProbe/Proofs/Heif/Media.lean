import ImageProbe.Proofs.Heif.Looks

namespace ImageProbe

open Box ByteReader

namespace Heif

open Reading

def Begins (name bs : Bytes) : Prop :=
  8 ≤ bs.length ∧ slice bs 4 4 = name ∧
    (bigEndian (bs.take 4) = 0 ∨ 8 ≤ bigEndian (bs.take 4) ∨
      bigEndian (bs.take 4) = 1 ∧ 16 ≤ bs.length ∧ 16 ≤ bigEndian (slice bs 8 8))

instance (name bs : Bytes) : Decidable (Begins name bs) := inferInstanceAs (Decidable (_ ∧ _))

theorem header_of_begins {name bs : Bytes} (h : Begins name bs) (format : ImageFormat)
    (e : Option Fault) :
    ∃ header t, (Box.header format (bs.take headLength)).Gives ⟨bs.drop headLength, e⟩ header t ∧
      header.name = name := by
  obtain ⟨hlen, hname, hsize⟩ := h
  have htake : (bs.take headLength).take 4 = bs.take 4 := by rw [List.take_take]; rfl
  have hdrop : (bs.take headLength).drop 4 = name := by rw [List.drop_take, ← hname]; rfl
  unfold Box.header
  rw [htake, hdrop]
  rcases hsize with hopen | hnarrow | ⟨hone, hlen, hwide⟩
  · rw [if_pos hopen]
    exact ⟨_, _, .pure _ _, rfl⟩
  · rw [if_neg (by omega), if_neg (by omega)]
    exact ⟨_, _, Gives.bind (Gives.require format (decide_eq_true hnarrow) _ _) (.pure _ _), rfl⟩
  · rw [if_neg (by omega), if_pos hone]
    exact ⟨_, _, Gives.bind (Gives.number_at bigEndian bs 8 8 hlen e)
      (Gives.bind (Gives.require format (decide_eq_true hwide) _ _) (.pure _ _)), rfl⟩

variable {brands : BrandRule} {ρ : Type} [ByteReader ρ] {f f' : Findings} {ps : List Parcel}

theorem runFrom_media (brands : BrandRule) (f : Findings) {s : Session ρ}
    (hs : Begins (ascii "mdat") (tape s.reader).bytes) :
    ((walk brands).runFrom .never f s).1 = (refusal f .mediaBeforeMeta, f) := by
  have hlong : ¬ ((tape s.reader).haul headLength).bytes.length < headLength := by
    rw [Tape.haul, List.length_take, headLength]
    have hlen := hs.1
    omega
  obtain ⟨header, t, hheader, hname⟩ := header_of_begins hs
    (Findings.ofBrands brands).errorFormat (tape s.reader).ending
  have hlook (t : Tape) : ((lookInto brands (enclosed 0 (level brands maxDepth)) header f).eval
      t).1 = .done (refusal f .mediaBeforeMeta, f) := by
    rw [lookInto_media hname]
    rfl
  have hturn : (((walk brands).turn f).eval (tape s.reader)).1 =
      .done (refusal f .mediaBeforeMeta, f) := by
    rw [eval_round brands f hlong]
    exact (congrArg Prod.fst (box_header hheader)).trans (Header.visit_done (hlook _))
  rw [Walk.runFrom_done hturn]

/-- What is reported of a stream that holds these boxes alone. -/
def alone (brands : BrandRule) (ps : List Parcel) : Except ProbeError ImageInfo :=
  ((decoder brands).decode .never (⟨⟨ps.flatMap Parcel.bytes, none⟩, 0, []⟩ : Session Tape)).1

theorem alone_eq (hps : ∀ p ∈ ps, p.Fits) :
    alone brands ps = match through brands ps (.ofBrands brands) with
      | .more f => verdict (.ok (), f)
      | .done o => verdict o := by
  have hrun := runFrom_through brands hps (t := ⟨[], none⟩) (.ofBrands brands)
    (s := (⟨⟨ps.flatMap Parcel.bytes, none⟩, 0, []⟩ : Session Tape))
    (congrArg (Tape.mk · none) (List.append_nil _).symm)
  rw [alone, decode_eq]
  rcases hthrough : through brands ps (.ofBrands brands) with f | o <;> rw [hthrough] at hrun
  · obtain ⟨s', hs', hrun⟩ := hrun
    have hempty : (tape s'.reader).haul headLength = ⟨[], none⟩ := by rw [hs']; rfl
    have hend := runFrom_short brands f (s := s') (by rw [hempty]; decide)
    rw [hempty] at hend
    exact congrArg verdict ((congrArg Prod.fst hrun).trans hend)
  · exact congrArg verdict hrun

theorem decode_media_never {m : Bytes} (hps : ∀ p ∈ ps, p.Fits) (hm : Begins (ascii "mdat") m)
    (s : Session ρ) (hs : (tape s.reader).bytes = ps.flatMap Parcel.bytes ++ m) :
    ((decoder brands).decode .never s).1 = match through brands ps (.ofBrands brands) with
      | .more f => verdict (refusal f .mediaBeforeMeta, f)
      | .done o => verdict o := by
  have htape : tape s.reader = ⟨ps.flatMap Parcel.bytes ++ m, (tape s.reader).ending⟩ := by rw [← hs]
  have hrun := runFrom_through brands hps (t := ⟨m, (tape s.reader).ending⟩) (.ofBrands brands) htape
  rw [decode_eq]
  rcases hthrough : through brands ps (.ofBrands brands) with f | o <;> rw [hthrough] at hrun
  · obtain ⟨s', hs', hrun⟩ := hrun
    have hbegins : Begins (ascii "mdat") (tape s'.reader).bytes := by rwa [hs']
    exact congrArg verdict ((congrArg Prod.fst hrun).trans (runFrom_media brands f hbegins))
  · exact congrArg verdict hrun

theorem refused_untold (f : Findings) (defect : Defect) (why : StopReason) :
    ¬ Reported why (refusal f defect, f) := nofun

theorem verdict_refused (f : Findings) (defect : Defect) :
    verdict (refusal f defect, f) =
      if f.isKnown then answer f else .error (.malformed f.errorFormat defect) := by
  by_cases hknown : f.isKnown = true
  · rw [if_pos hknown]
    exact if_pos (.inl hknown)
  · rw [if_neg hknown]
    exact if_neg (not_or.2 ⟨hknown, nofun⟩)

/-- After boxes that are all there, media data adds nothing to what they alone come to. If the walk
gets to it, they have told a format and a size already, or there is an error. -/
theorem decode_media {m : Bytes} (hps : ∀ p ∈ ps, p.Fits) (hm : Begins (ascii "mdat") m)
    (stop : Stop) (s : Session ρ) (hs : (tape s.reader).bytes = ps.flatMap Parcel.bytes ++ m) :
    (∃ i why, stop i = some why ∧ ((decoder brands).decode stop s).1 = .error (.stopped why)) ∨
      (∀ info, ((decoder brands).decode stop s).1 = .ok info ↔ alone brands ps = .ok info) ∧
      ∀ f, through brands ps (.ofBrands brands) = .more f →
        ((decoder brands).decode stop s).1 =
          if f.format.isSome ∧ Positive (best f.extents) then alone brands ps
          else .error (.malformed f.errorFormat .mediaBeforeMeta) := by
  have hnever : ((decoder brands).decode .never s).1 = _ := decode_media_never hps hm s hs
  rcases (decoder_heeds brands).run_result stop hnever with hstop | hrun
  · exact .inl hstop
  right
  rw [Decoder.decode, hrun, alone_eq hps]
  rcases through brands ps (.ofBrands brands) with f | o
  · refine ⟨fun info => ?_, ?_⟩
    · rw [verdict_ok_iff (refused_untold f .mediaBeforeMeta),
        verdict_ok_iff fun why => not_told_ok why ()]
    · rintro _ ⟨⟩
      dsimp only
      rw [verdict_refused]
      by_cases hknown : f.isKnown = true
      · rw [if_pos hknown, if_pos (f.isKnown_iff_positive.1 hknown)]
        rfl
      · rw [if_neg hknown, if_neg (mt f.isKnown_iff_positive.2 hknown)]
  · refine ⟨fun _ => Iff.rfl, fun f hmore => ?_⟩
    cases hmore

def sizeParcel (width height : UInt8) : Parcel :=
  ⟨false, ascii "ispe", [0, 0, 0, 0, 0, 0, 0, width, 0, 0, 0, height]⟩

def heicParcel : Parcel := ⟨false, ascii "ftyp", ascii "heic" ++ [0, 0, 0, 0]⟩

def mediaParcel : Parcel := ⟨false, ascii "mdat", [1, 2, 3, 4]⟩

theorem decode_media_late :
    ((decoder heifBrands).decode .never
      ⟨(⟨heicParcel.bytes ++ mediaParcel.bytes ++ (sizeParcel 1 1).bytes, none⟩ : Tape), 0, []⟩).1 =
        .error (.malformed .heic .mediaBeforeMeta) := by
  have hps : ∀ p ∈ [heicParcel], p.Fits := by decide
  have hm : Begins (ascii "mdat") (mediaParcel.bytes ++ (sizeParcel 1 1).bytes) := by decide +kernel
  have hthrough : through heifBrands [heicParcel] (.ofBrands heifBrands) = .more ⟨some .heic, []⟩ := by
    have hformat : (brandsOf heicParcel.payload).findSome? heifBrands.format? = some .heic := by
      decide
    rw [through, look_fileType rfl (by decide) hformat]
    rfl
  have hmedia := @decode_media heifBrands Tape _ _ _ hps hm .never
    (⟨⟨heicParcel.bytes ++ mediaParcel.bytes ++ (sizeParcel 1 1).bytes, none⟩, 0, []⟩ : Session Tape)
    (by decide +kernel)
  rcases hmedia with ⟨i, why, hi, -⟩ | ⟨-, herror⟩
  · cases hi
  · exact (herror _ hthrough).trans (if_neg (by decide))

theorem media_reported :
    (∀ p ∈ [heicParcel, sizeParcel 10 10, mediaParcel], p.Fits ∧ p.name ≠ ascii "meta") ∧
      mediaParcel.name = ascii "mdat" ∧
      ((decoder heifBrands).decode .never
        ⟨(⟨heicParcel.bytes ++ (sizeParcel 10 10).bytes ++ mediaParcel.bytes, none⟩ : Tape), 0,
          []⟩).1 = .ok ⟨.heic, 10, 10⟩ ∧
      ((decoder heicBrands).decode .never
        ⟨(⟨heicParcel.bytes ++ (sizeParcel 10 10).bytes ++ mediaParcel.bytes, none⟩ : Tape), 0,
          []⟩).1 = .ok ⟨.heic, 10, 10⟩ := by
  refine ⟨?_, ?_, ?_, ?_⟩ <;> decide +kernel

end Heif

end ImageProbe
