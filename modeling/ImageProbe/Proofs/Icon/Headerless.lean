import ImageProbe.Proofs.Bitmap.Completed
import ImageProbe.Proofs.Markup.Document

namespace ImageProbe

open ByteReader

namespace Bitmap

/-- What an icon may hold in place of a bitmap file, told apart from any other format, and a file
can be made of it. -/
structure Recoverable (dib : Bytes) : Prop where
  headerless : isHeaderless dib = true
  positive : isNegative range32 (storedWidth dib) = false
  unbranded : slice dib 4 4 ≠ ascii "ftyp"
  palette : pixelOffset dib < range32
  short : dib.length + fileHeaderLength < range32

def leads : Bytes := headerLengths.map Nat.toUInt8

theorem lead_of_headerless {dib : Bytes} (h : isHeaderless dib = true) :
    ∃ b rest, dib = b :: rest ∧ b ∈ leads := by
  obtain ⟨hlong, hlisted, -⟩ := (isHeaderless_iff dib).1 h
  cases dib with
  | nil => exact absurd hlong (by decide)
  | cons b rest =>
    refine ⟨b, rest, rfl, ?_⟩
    have hbyte : ∀ n ∈ headerLengths, n < 256 := by decide
    have hlisted : b.toNat + 256 * littleEndian (rest.take 3) ∈ headerLengths := hlisted
    have hsmall := hbyte _ hlisted
    have hrest : littleEndian (rest.take 3) = 0 := by omega
    rw [hrest, Nat.mul_zero, Nat.add_zero] at hlisted
    rw [leads, ← UInt8.ofNat_toNat (x := b)]
    exact List.mem_map_of_mem hlisted

namespace Recoverable

variable {dib : Bytes}

theorem complete_ok (h : Recoverable dib) : ∃ file, complete dib = .ok file := by
  obtain ⟨hlong, -⟩ := (isHeaderless_iff dib).1 h.headerless
  rw [complete, if_neg (Nat.not_lt.2 hlong), if_neg (Nat.not_le.2 h.short),
    if_neg (Nat.not_le.2 h.palette)]
  exact ⟨_, rfl⟩

theorem not_fits (h : Recoverable dib) : ∀ e ∈ Table.builtin, ¬ e.Fits dib := by
  have hknown : ∀ b ∈ leads, ∀ e ∈ Table.knownFormats, e.Misses [(0, b)] ∨
      8 ≤ e.pattern.length ∧ slice e.pattern 4 4 = ascii "ftyp" := by decide +kernel
  intro e he hfits
  obtain ⟨b, rest, rfl, hb⟩ := lead_of_headerless h.headerless
  rcases hknown b hb e ((Table.mem_registered _ e).1 he) with hmisses | ⟨hlong, hbrand⟩
  · exact Entry.not_fits_of_misses hmisses (by simp) hfits
  · apply h.unbranded
    rw [hfits.slice_eq hlong (by rw [hbrand]; decide), hbrand]

theorem not_svg (h : Recoverable dib) (n : Nat) : Markup.isSvg (dib.take n) = false := by
  have hlead : ∀ b ∈ leads, Markup.isBlank b = false ∧ b ≠ Markup.lessThan ∧ b ≠ 0xef := by
    decide +kernel
  obtain ⟨b, rest, rfl, hb⟩ := lead_of_headerless h.headerless
  obtain ⟨hblank, hopen, hmark⟩ := hlead b hb
  exact Markup.not_svg_take hblank hopen hmark rest n

end Recoverable

end Bitmap

namespace Icon

open Table

variable {table : Table} {limits : Limits} {stop : Stop} {canLoad : ImageFormat → Bool}
  {icon dib : Bytes} {e : Entry} {image : Embedded} {err : ProbeError}

theorem probe_recoverable (limits : Limits) (stop : Stop) (h : Bitmap.Recoverable dib) (a : Account) :
    (probeBytes builtin limits stop dib a).1 = .error .unknownFormat := by
  obtain ⟨hprobe, -⟩ :=
    probe_of_not_found builtin limits stop (⟨dib, none⟩ : Tape) a.1 a.2 rfl h.not_fits
  rw [show (tape (⟨dib, none⟩ : Tape)).bytes = dib from rfl, h.not_svg] at hprobe
  exact hprobe

theorem identify_recoverable (h : Bitmap.Recoverable dib) (a : Account) :
    ∃ a', (identify builtin limits stop e dib a).1 = (complete limits stop e dib a').1 := by
  have hprobe := probe_recoverable limits stop h a
  unfold identify
  rcases hout : probeBytes builtin limits stop dib a with ⟨found, checks, log⟩
  rw [hout] at hprobe
  obtain rfl : found = .error .unknownFormat := hprobe
  have hmay : mayBeHeaderless .unknownFormat dib = true := h.headerless
  dsimp only
  rw [if_pos hmay]
  exact ⟨_, rfl⟩

theorem allow_of_le {n : Nat} (h : ∀ limit, limits.memory = some limit → n ≤ limit) :
    limits.allow n = .ok () := by
  rw [Limits.allow]
  cases hmemory : limits.memory with
  | none => rfl
  | some limit => exact if_neg (Nat.not_lt.2 (h limit hmemory))

theorem allow_of_lt {n limit : Nat} (hmemory : limits.memory = some limit) (h : limit < n) :
    limits.allow n = .error (.limitExceeded "peak memory limit exceeded") := by
  rw [Limits.allow, hmemory]
  exact if_pos h

theorem complete_limited (h : limits.allow (dib.length + Bitmap.fileHeaderLength) = .error err)
    (a : Account) : (complete limits stop e dib a).1 = .error err := by
  rw [complete, h]

theorem complete_allowed (h : limits.allow (dib.length + Bitmap.fileHeaderLength) = .ok ())
    {file : Bytes} (hfile : Bitmap.complete dib = .ok file) (a : Account) :
    (complete limits stop e dib a).1 =
      (readBytes Bitmap.reading stop file a).1.map fun info =>
        ⟨info, e.offset, e.size, file, true⟩ := by
  rw [complete, h, hfile]

theorem embedded_of_chosen (hchosen : (readBytes directory stop icon (0, [])).1 = .ok e)
    (hinside : e.offset + e.size ≤ icon.length) :
    ∃ a, (embedded table limits stop icon).1 =
      (identify table limits stop e (slice icon e.offset e.size) a).1 := by
  unfold embedded
  rcases hread : readBytes directory stop icon (0, []) with ⟨result, a⟩
  rw [hread] at hchosen
  obtain rfl : result = .ok e := hchosen
  dsimp only
  rw [if_pos hinside]
  exact ⟨a, rfl⟩

theorem resolve_of_error (h : (embedded table limits stop icon).1 = .error err) :
    let resolution := resolve table limits stop canLoad icon
    resolution.result = .error err ∧ resolution.asked = [] := by
  intro resolution
  rcases hout : embedded table limits stop icon with ⟨found, checks, log⟩
  rw [hout] at h
  obtain rfl : found = .error err := h
  have hresolution : resolution = ⟨.error err, [], checks, log⟩ := by
    simp only [resolution, resolve, hout]
  rw [hresolution]
  exact ⟨rfl, rfl⟩

theorem resolve_of_ok (h : (embedded table limits stop icon).1 = .ok image)
    (hico : image.info.format ≠ .ico) (hload : canLoad image.info.format = true) :
    let resolution := resolve table limits stop canLoad icon
    resolution.result = .ok image ∧ resolution.asked = [image.info.format] := by
  intro resolution
  rcases hout : embedded table limits stop icon with ⟨found, checks, log⟩
  rw [hout] at h
  obtain rfl : found = .ok image := h
  have hresolution : resolution = ⟨.ok image, [image.info.format], checks, log⟩ := by
    simp only [resolution, resolve, hout, if_neg hico, if_pos hload]
  rw [hresolution]
  exact ⟨rfl, rfl⟩

/-- A bitmap without a file header is recovered whenever there is memory for it with its header;
whether there is, is asked before anything is built. -/
theorem resolve_recovers (limits : Limits) (stop : Stop) (canLoad : ImageFormat → Bool) (icon : Bytes)
    {e : Entry} (hchosen : (readBytes directory stop icon (0, [])).1 = .ok e)
    (hinside : e.offset + e.size ≤ icon.length)
    (hdib : Bitmap.Recoverable (slice icon e.offset e.size)) :
    let dib := slice icon e.offset e.size
    let due := dib.length + Bitmap.fileHeaderLength
    let resolution := resolve builtin limits stop canLoad icon
    ((∀ limit, limits.memory = some limit → due ≤ limit) → canLoad .bmp = true →
        ∃ file, Bitmap.complete dib = .ok file ∧
          resolution.result =
            .ok ⟨⟨.bmp, Bitmap.storedWidth dib, Bitmap.storedHeight dib / 2⟩, e.offset, e.size, file,
              true⟩ ∧
          resolution.asked = [.bmp]) ∧
      ∀ limit, limits.memory = some limit → limit < due →
        resolution.result = .error (.limitExceeded "peak memory limit exceeded") ∧
          resolution.asked = [] := by
  intro dib due resolution
  obtain ⟨a, hembedded⟩ : ∃ a, (embedded builtin limits stop icon).1 =
      (identify builtin limits stop e dib a).1 := embedded_of_chosen hchosen hinside
  obtain ⟨a', hidentify⟩ := identify_recoverable hdib a
  rw [hidentify] at hembedded
  constructor
  · intro hmemory hload
    obtain ⟨file, hfile⟩ := hdib.complete_ok
    have hread : (readBytes Bitmap.reading stop file a').1 =
        .ok ⟨.bmp, Bitmap.storedWidth dib, Bitmap.storedHeight dib / 2⟩ := by
      rw [readBytes_eq]
      exact Bitmap.decode_complete stop hfile (Bitmap.statedLength_of_headerless hdib.headerless)
        hdib.positive (List.append_nil file).symm
    rw [complete_allowed (allow_of_le hmemory) hfile, hread] at hembedded
    obtain ⟨hresult, hasked⟩ := resolve_of_ok hembedded nofun hload
    exact ⟨file, hfile, hresult, hasked⟩
  · intro limit hmemory hshort
    rw [complete_limited (allow_of_lt hmemory hshort)] at hembedded
    exact resolve_of_error hembedded

theorem resolve_recovers_tight :
    let icon : Bytes := [0, 0, 1, 0, 1, 0, 16, 16, 0, 0, 1, 0, 32, 0, 40, 0, 0, 0, 22, 0, 0, 0] ++
      Bitmap.headerOf 40 32
    let tight := resolve builtin ⟨0, some 54⟩ .never (· = .bmp) icon
    let scarce := resolve builtin ⟨0, some 53⟩ .never (· = .bmp) icon
    tight.result = .ok ⟨⟨.bmp, 16, 16⟩, 22, 40, Bitmap.fileOf 40 16, true⟩ ∧ tight.asked = [.bmp] ∧
      scarce.result = .error (.limitExceeded "peak memory limit exceeded") ∧ scarce.asked = [] := by
  intro icon tight scarce
  have hchosen : (readBytes directory .never icon (0, [])).1 = .ok ⟨16, 16, 40, 22⟩ := by
    cbv
  have hdib : Bitmap.Recoverable (slice icon 22 40) :=
    ⟨by decide, by decide, by decide, by decide +kernel, by decide⟩
  obtain ⟨file, hfile, hresult, hasked⟩ :=
    (resolve_recovers ⟨0, some 54⟩ .never (· = .bmp) icon hchosen (by decide) hdib).1
      (by rintro _ ⟨⟩; decide) rfl
  have hlimited :=
    (resolve_recovers ⟨0, some 53⟩ .never (· = .bmp) icon hchosen (by decide) hdib).2 53 rfl
      (by decide)
  have hcomplete : Bitmap.complete (slice icon 22 40) = .ok (Bitmap.fileOf 40 16) := by
    decide +kernel
  obtain rfl : Bitmap.fileOf 40 16 = file := Except.ok.inj (hcomplete.symm.trans hfile)
  exact ⟨hresult.trans (by cbv), hasked, hlimited⟩

end Icon

end ImageProbe
