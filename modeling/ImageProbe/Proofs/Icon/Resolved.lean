import Mathlib.Data.List.Permutation
import ImageProbe.Icon.Embedded
import ImageProbe.Proofs.Bytes
import ImageProbe.Proofs.Prompt.Decoders
import ImageProbe.Proofs.Unstopped

namespace ImageProbe

open ByteReader

namespace Bitmap

theorem complete_eq {dib file : Bytes} (h : complete dib = .ok file) :
    infoHeaderLength ≤ dib.length ∧
      file = ascii "BM" ++ toLittleEndian 4 (dib.length + fileHeaderLength) ++ [0, 0, 0, 0] ++
        toLittleEndian 4 (pixelOffset dib) ++ dib.take 8 ++
        toLittleEndian 4 (littleEndian (slice dib 8 4) / 2) ++ dib.drop 12 := by
  unfold complete at h
  dsimp only at h
  split at h
  · exact nomatch h
  · rename_i hlen
    split at h
    · exact nomatch h
    split at h
    · exact nomatch h
    · exact ⟨Nat.le_of_not_lt hlen, (Except.ok.inj h).symm⟩

theorem complete_drop {dib file : Bytes} (h : complete dib = .ok file) :
    ∃ height : Bytes, height.length = 4 ∧
      file.drop fileHeaderLength = dib.take 8 ++ height ++ dib.drop 12 := by
  obtain ⟨-, rfl⟩ := complete_eq h
  refine ⟨toLittleEndian 4 (littleEndian (slice dib 8 4) / 2), length_toLittleEndian _ _, ?_⟩
  rw [List.append_assoc _ (dib.take 8), List.append_assoc _ (dib.take 8 ++ _)]
  apply List.drop_left'
  simp [length_toLittleEndian, ascii, fileHeaderLength]

theorem complete_length {dib file : Bytes} (h : complete dib = .ok file) :
    file.length = dib.length + fileHeaderLength := by
  obtain ⟨hlen, rfl⟩ := complete_eq h
  rw [infoHeaderLength] at hlen
  simp [length_toLittleEndian, ascii, fileHeaderLength]
  omega

end Bitmap

namespace Table

def RefusedBy (e : Entry) : Prop :=
  ∃ q ∈ [(0, 0x42), (6, (0 : UInt8))], ∃ p ∈ e.pattern[q.1]?, p ≠ Entry.wildcard ∧ p ≠ q.2

instance (e : Entry) : Decidable (RefusedBy e) :=
  inferInstanceAs (Decidable (∃ q ∈ [(0, 0x42), (6, (0 : UInt8))],
    ∃ p ∈ e.pattern[q.1]?, p ≠ Entry.wildcard ∧ p ≠ q.2))

theorem not_fits_of_refusedBy {e : Entry} (h : RefusedBy e) {bs : Bytes} (h0 : bs[0]? = some 0x42)
    (h6 : bs[6]? = some 0) : ¬ e.Fits bs := by
  apply Entry.not_fits_of_misses h
  intro q hq
  rcases List.mem_cons.1 hq with rfl | hq
  · exact h0
  · obtain rfl := List.mem_singleton.1 hq
    exact h6

theorem routed_complete {dib file : Bytes} (h : Bitmap.complete dib = .ok file) :
    Routed knownFormats file ⟨ascii "BM", Bitmap.decoder⟩ := by
  obtain ⟨-, rfl⟩ := Bitmap.complete_eq h
  have hbefore : ∀ e ∈ knownFormats.take 16, RefusedBy e := by decide +kernel
  have hafter : ∀ e ∈ knownFormats.drop 17, RefusedBy e := by decide +kernel
  have hfits : Entry.Fits ⟨ascii "BM", Bitmap.decoder⟩ (ascii "BM" ++
      toLittleEndian 4 (dib.length + Bitmap.fileHeaderLength) ++ [0, 0, 0, 0] ++
      toLittleEndian 4 (Bitmap.pixelOffset dib) ++ dib.take 8 ++
      toLittleEndian 4 (littleEndian (slice dib 8 4) / 2) ++ dib.drop 12) :=
    (Entry.fits_iff _ _).2 rfl
  refine ⟨knownFormats.take 16, knownFormats.drop 17, rfl, hfits, ?_, ?_⟩
  · intro e he hfit
    exact absurd hfit (not_fits_of_refusedBy (hbefore e he) rfl rfl)
  · intro e he hfit
    exact absurd hfit (not_fits_of_refusedBy (hafter e he) rfl rfl)

end Table

namespace Icon

open Table

variable {limits : Limits} {stop : Stop} {canLoad : ImageFormat → Bool} {icon bs : Bytes}
  {e : Entry} {a : Account} {image : Embedded}

/-- The bitmap made of the headerless one that an icon holds, and its length is allowed. -/
structure Completed (limits : Limits) (dib file : Bytes) : Prop where
  complete_eq : Bitmap.complete dib = .ok file
  length_eq : file.length = dib.length + Bitmap.fileHeaderLength
  behind_header : ∃ height : Bytes, height.length = 4 ∧
    file.drop Bitmap.fileHeaderLength = dib.take 8 ++ height ++ dib.drop 12
  allowed : ∀ limit, limits.memory = some limit → file.length ≤ limit

theorem allow_ok {n : Nat} (h : limits.allow n = .ok ()) :
    ∀ limit, limits.memory = some limit → n ≤ limit := by
  intro limit hlimit
  rw [Limits.allow, hlimit] at h
  dsimp only at h
  split at h
  · exact nomatch h
  · omega

theorem ok_of_complete (h : (complete limits stop e bs a).1 = .ok image) :
    image.offset = e.offset ∧ image.size = e.size ∧ image.completed = true ∧
      Completed limits bs image.data ∧
      (readBytes Bitmap.reading stop image.data a).1 = .ok image.info := by
  unfold complete at h
  rcases hallow : limits.allow (bs.length + Bitmap.fileHeaderLength) with err | u
  · rw [hallow] at h
    exact nomatch h
  rcases hfile : Bitmap.complete bs with err | file
  · rw [hallow, hfile] at h
    exact nomatch h
  rw [hallow, hfile] at h
  dsimp only at h
  rcases hread : readBytes Bitmap.reading stop file a with ⟨err | info, a'⟩
  · rw [hread] at h
    exact nomatch h
  · rw [hread] at h
    obtain rfl := Except.ok.inj h
    have hlength := Bitmap.complete_length hfile
    refine ⟨rfl, rfl, rfl, ⟨hfile, hlength, Bitmap.complete_drop hfile, ?_⟩, congrArg Prod.fst hread⟩
    rw [hlength]
    exact allow_ok hallow

theorem ok_of_identify {table : Table} (h : (identify table limits stop e bs a).1 = .ok image) :
    image.offset = e.offset ∧ image.size = e.size ∧
      (image.completed = false ∧ image.data = bs ∧
          (probeBytes table limits stop bs a).1 = .ok image.info ∨
        image.completed = true ∧ Completed limits bs image.data ∧
          ∃ a', (readBytes Bitmap.reading stop image.data a').1 = .ok image.info) := by
  unfold identify at h
  rcases hprobe : probeBytes table limits stop bs a with ⟨err | info, checks, log⟩
  · rw [hprobe] at h
    dsimp only at h
    split at h
    · obtain ⟨hoffset, hsize, hflag, hdone, hread⟩ := ok_of_complete h
      exact ⟨hoffset, hsize, .inr ⟨hflag, hdone, _, hread⟩⟩
    · exact nomatch h
  · rw [hprobe] at h
    obtain rfl := Except.ok.inj h
    exact ⟨rfl, rfl, .inl ⟨rfl, rfl, rfl⟩⟩

theorem ok_of_embedded {table : Table} (h : (embedded table limits stop icon).1 = .ok image) :
    ∃ e a, (readBytes directory stop icon (0, [])).1 = .ok e ∧ e.offset + e.size ≤ icon.length ∧
      (identify table limits stop e (slice icon e.offset e.size) a).1 = .ok image := by
  unfold embedded at h
  rcases hread : readBytes directory stop icon (0, []) with ⟨err | e, a⟩
  · rw [hread] at h
    exact nomatch h
  · rw [hread] at h
    dsimp only at h
    split at h
    · rename_i hin
      exact ⟨e, a, rfl, hin, h⟩
    · exact nomatch h

theorem ok_of_resolve {table : Table}
    (h : (resolve table limits stop canLoad icon).result = .ok image) :
    (embedded table limits stop icon).1 = .ok image ∧ image.info.format ≠ .ico ∧
      canLoad image.info.format = true ∧
      (resolve table limits stop canLoad icon).asked = [image.info.format] := by
  unfold resolve at h ⊢
  rcases hfound : embedded table limits stop icon with ⟨err | found, checks, log⟩
  · rw [hfound] at h
    exact nomatch h
  · rw [hfound] at h
    dsimp only at h ⊢
    by_cases hico : found.info.format = .ico
    · rw [if_pos hico] at h
      exact nomatch h
    · rw [if_neg hico] at h ⊢
      by_cases hload : canLoad found.info.format = true
      · rw [if_pos hload] at h
        obtain rfl := Except.ok.inj h
        exact ⟨rfl, hico, hload, rfl⟩
      · rw [if_neg hload] at h
        exact nomatch h

theorem readBytes_eq (p : Reading ImageInfo) (stop : Stop) (bs : Bytes) (a : Account) :
    (readBytes p stop bs a).1 =
      ((Decoder.ofReading p).decode stop (⟨⟨bs, none⟩, a.1, a.2⟩ : Session Tape)).1 := by
  have hrun : (Decoder.ofReading p).decode stop (⟨⟨bs, none⟩, a.1, a.2⟩ : Session Tape) =
      p.run.run stop ⟨⟨bs, none⟩, a.1, a.2⟩ := Walk.ofScript_run _ _ _
  rw [hrun, readBytes]

theorem probe_completed {file : Bytes} {info : ImageInfo} (hfile : Bitmap.complete bs = .ok file)
    (h : (readBytes Bitmap.reading stop file a).1 = .ok info) :
    (builtin.probe limits .never ⟨{ inner := (⟨file, none⟩ : Tape) }, 0, []⟩).1 = .ok info := by
  have hfind := find?_of_routed (routed_complete hfile)
  rw [(probe_of_found builtin limits .never (⟨file, none⟩ : Tape) 0 [] rfl hfind).1]
  have hread : (Bitmap.decoder.decode stop (⟨⟨file, none⟩, a.1, a.2⟩ : Session Tape)).1 =
      (readBytes Bitmap.reading stop file a).1 := (readBytes_eq Bitmap.reading stop file a).symm
  have hheeds : Bitmap.decoder.Heeds Told := .ofScript Bitmap.reading_prompt.heeds
  rcases Decoder.decode_unstopped hheeds stop (s := (⟨⟨file, none⟩, a.1, a.2⟩ : Session Tape))
    (t := (⟨⟨file, none⟩, 0, []⟩ : Session Tape)) rfl with hhalt | hsame
  · rw [hread, h] at hhalt
    exact absurd hhalt (Decoder.not_halted_ok stop info)
  · rw [hsame, hread, h]

theorem probe_of_identify (h : (identify builtin limits stop e bs a).1 = .ok image) :
    (builtin.probe limits .never ⟨{ inner := (⟨image.data, none⟩ : Tape) }, 0, []⟩).1 =
      .ok image.info := by
  obtain ⟨-, -, ⟨-, hdata, hprobe⟩ | ⟨-, hdone, a', hread⟩⟩ := ok_of_identify h
  · rw [hdata]
    rcases probe_unstopped builtin_heeds limits stop
      (s := ⟨{ inner := (⟨bs, none⟩ : Tape) }, a.1, a.2⟩) (t := ⟨_, 0, []⟩) rfl with hhalt | hsame
    · have hok : ¬ Decoder.Halted stop (probeBytes builtin limits stop bs a).1 := by
        rw [hprobe]
        exact Decoder.not_halted_ok stop image.info
      exact absurd hhalt hok
    · exact hsame.trans hprobe
  · exact probe_completed hdone.complete_eq hread

/-- What is told of an icon: where its directory says that the image lies, the bytes there or the
bitmap made of them, and what a probe of these tells, which the caller has been asked about. -/
theorem resolve_sound (limits : Limits) (stop : Stop) (canLoad : ImageFormat → Bool) (icon : Bytes)
    {image : Embedded} (h : (resolve builtin limits stop canLoad icon).result = .ok image) :
    (∃ e, (readBytes directory stop icon (0, [])).1 = .ok e ∧ image.offset = e.offset ∧
        image.size = e.size ∧ image.offset + image.size ≤ icon.length) ∧
      (image.completed = false ∧ image.data = slice icon image.offset image.size ∨
        image.completed = true ∧
          Completed limits (slice icon image.offset image.size) image.data) ∧
      (∀ (stop' : Stop) (checks : Nat) (log : List Note),
        let again := (builtin.probe limits stop'
          ⟨{ inner := (⟨image.data, none⟩ : Tape) }, checks, log⟩).1
        again = .ok image.info ∨ Decoder.Halted stop' again) ∧
      image.info.format ≠ .ico ∧ canLoad image.info.format = true ∧
      (resolve builtin limits stop canLoad icon).asked = [image.info.format] := by
  obtain ⟨hfound, hico, hload, hasked⟩ := ok_of_resolve h
  obtain ⟨e, a, hread, hin, hidentify⟩ := ok_of_embedded hfound
  obtain ⟨hoffset, hsize, hdata⟩ := ok_of_identify hidentify
  refine ⟨⟨e, hread, hoffset, hsize, ?_⟩, ?_, ?_, hico, hload, hasked⟩
  · rwa [hoffset, hsize]
  · rw [hoffset, hsize]
    rcases hdata with ⟨hflag, hsame, -⟩ | ⟨hflag, hdone, -⟩
    · exact .inl ⟨hflag, hsame⟩
    · exact .inr ⟨hflag, hdone⟩
  · intro stop' checks log again
    rcases probe_unstopped builtin_heeds limits stop'
      (s := ⟨{ inner := (⟨image.data, none⟩ : Tape) }, checks, log⟩) (t := ⟨_, 0, []⟩) rfl with
      hhalt | hsame
    · exact .inr hhalt
    · exact .inl (hsame.symm.trans (probe_of_identify hidentify))

theorem resolve_headerless :
    let dib : Bytes := [40, 0, 0, 0, 32, 0, 0, 0, 64, 0, 0, 0, 1, 0, 32, 0] ++ List.replicate 24 0
    let icon : Bytes := [0, 0, 1, 0, 2, 0,
      16, 16, 0, 0, 1, 0, 32, 0, 5, 0, 0, 0, 0, 1, 0, 0,
      32, 32, 0, 0, 1, 0, 32, 0, 40, 0, 0, 0, 38, 0, 0, 0] ++ dib
    let file : Bytes := [0x42, 0x4d, 54, 0, 0, 0, 0, 0, 0, 0, 54, 0, 0, 0,
      40, 0, 0, 0, 32, 0, 0, 0, 32, 0, 0, 0, 1, 0, 32, 0] ++ List.replicate 24 0
    let image : Embedded := ⟨⟨.bmp, 32, 32⟩, 38, 40, file, true⟩
    (resolve builtin {} .never (· = .bmp) icon).result = .ok image ∧
      Completed {} dib file ∧
      (resolve builtin {} .never (· = .bmp) icon).asked = [.bmp] := by
  intro dib icon file image
  have hresolve : (resolve builtin {} .never (· = .bmp) icon).result = .ok image := by
    cbv
  obtain ⟨-, hdata, -, -, -, hasked⟩ := resolve_sound {} .never (· = .bmp) icon hresolve
  rcases hdata with ⟨hflag, -⟩ | ⟨-, hdone⟩
  · cases hflag
  · exact ⟨hresolve, hdone, hasked⟩

end Icon

end ImageProbe
