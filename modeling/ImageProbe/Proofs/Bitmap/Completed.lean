import ImageProbe.Proofs.Agree
import ImageProbe.Proofs.Icon.Resolved

namespace ImageProbe

open ByteReader Reading

variable {ρ : Type} [ByteReader ρ]

theorem decode_of_gives (stop : Stop) {p : Reading ImageInfo} (hquiet : p.Quiet) {s : Session ρ}
    {info : ImageInfo} {t : Tape} (h : p.Gives (tape s.reader) info t) :
    ((Decoder.ofReading p).decode stop s).1 = .ok info := by
  rw [Decoder.decode_outcome, outcome_of_gives stop hquiet h]

theorem isNegative_iff (range n : Nat) : isNegative range n = true ↔ range ≤ 2 * n :=
  decide_eq_true_iff

theorem magnitude_half {n : Nat} (h : n < range32) : magnitude range32 (n / 2) = n / 2 := by
  rw [magnitude, if_neg]
  rw [isNegative_iff]
  omega

theorem half_eq_iff {n : Nat} (h : n < range32) :
    n / 2 = magnitude range32 n / 2 ↔ (isNegative range32 n = true → n = range32 / 2) := by
  unfold magnitude
  split
  · rename_i hnegative
    have hlow : range32 ≤ 2 * n := (isNegative_iff _ _).1 hnegative
    unfold range32 at h hlow ⊢
    constructor
    · intro heq _
      omega
    · intro hleast
      have hn : n = _ := hleast hnegative
      omega
  · rename_i hnegative
    exact ⟨fun _ h => absurd h hnegative, fun _ => rfl⟩

namespace Bitmap

theorem reading_quiet : reading.Quiet := by
  apply (Quiet.exactly _).bind
  intro file
  apply (Quiet.require _ _ _).bind
  intro _
  apply ((Quiet.exactly 4).bind fun _ => .pure _ : (leNumber 4).Quiet).bind
  intro length
  split
  · apply (Quiet.exactly 8).bind
    intro sizes
    apply (Quiet.require _ _ _).bind
    intro _
    exact .pure _
  · apply (Quiet.require _ _ _).bind
    intro _
    apply (Quiet.exactly 4).bind
    intro sizes
    exact .pure _

theorem reading_gives {head length width height : Bytes} (rest : Bytes) (e : Option Fault)
    (hhead : head.length = fileHeaderLength) (hmark : head.take 2 = ascii "BM")
    (hlength : length.length = 4) (hwidth : width.length = 4) (hheight : height.length = 4)
    (hlong : infoHeaderLength ≤ littleEndian length)
    (hpositive : isNegative range32 (littleEndian width) = false) :
    reading.Gives ⟨head ++ (length ++ ((width ++ height) ++ rest)), e⟩
      ⟨.bmp, littleEndian width, magnitude range32 (littleEndian height)⟩ ⟨rest, e⟩ := by
  have hsizes : (width ++ height).length = 8 := by rw [List.length_append, hwidth, hheight]
  apply (Gives.exactly hhead e).bind
  apply (Gives.require .bmp (decide_eq_true hmark) _ _).bind
  apply Gives.bind (Gives.bind (Gives.exactly hlength e) (.pure (littleEndian length) _))
  rw [if_pos hlong]
  apply (Gives.exactly hsizes e).bind
  dsimp only
  rw [List.take_left' hwidth, List.drop_left' hwidth]
  apply (Gives.require .bmp (by rw [hpositive]; rfl) _ _).bind
  exact .pure _ _

def storedHeight (dib : Bytes) : Nat := littleEndian (slice dib 8 4)

def storedWidth (dib : Bytes) : Nat := littleEndian (slice dib 4 4)

def statedLength (dib : Bytes) : Nat := littleEndian (slice dib 0 4)

theorem storedHeight_lt {dib : Bytes} (h : infoHeaderLength ≤ dib.length) :
    storedHeight dib < range32 := by
  rw [infoHeaderLength] at h
  exact littleEndian_slice_lt (by omega)

theorem complete_parts {dib file : Bytes} (h : complete dib = .ok file) :
    ∃ head, head.length = fileHeaderLength ∧ head.take 2 = ascii "BM" ∧
      slice head 10 4 = toLittleEndian 4 (pixelOffset dib) ∧
      file = head ++ (slice dib 0 4 ++ ((slice dib 4 4 ++ toLittleEndian 4 (storedHeight dib / 2)) ++
        dib.drop 12)) := by
  obtain ⟨-, rfl⟩ := complete_eq h
  refine ⟨ascii "BM" ++ toLittleEndian 4 (dib.length + fileHeaderLength) ++ [0, 0, 0, 0] ++
    toLittleEndian 4 (pixelOffset dib), rfl, rfl, rfl, ?_⟩
  -- The length and the width, which are read back apart from each other.
  have hfirst : dib.take 8 = slice dib 0 4 ++ slice dib 4 4 := (slice_append_slice dib 0 4 4).symm
  rw [hfirst]
  simp only [List.append_assoc, storedHeight]

theorem decode_complete (stop : Stop) {dib file rest : Bytes} (h : complete dib = .ok file)
    (hlong : infoHeaderLength ≤ statedLength dib)
    (hpositive : isNegative range32 (storedWidth dib) = false) {s : Session ρ}
    (hfile : (tape s.reader).bytes = file ++ rest) :
    (decoder.decode stop s).1 = .ok ⟨.bmp, storedWidth dib, storedHeight dib / 2⟩ := by
  have hdib := (complete_eq h).1
  obtain ⟨head, hhead, hmark, -, rfl⟩ := complete_parts h
  have hheight : littleEndian (toLittleEndian 4 (storedHeight dib / 2)) = storedHeight dib / 2 := by
    rw [littleEndian_toLittleEndian]
    exact Nat.mod_eq_of_lt (Nat.lt_of_le_of_lt (Nat.div_le_self _ _) (storedHeight_lt hdib))
  have hgives := reading_gives (dib.drop 12 ++ rest) (tape s.reader).ending hhead hmark
    (length_slice (by rw [infoHeaderLength] at hdib; omega))
    (length_slice (by rw [infoHeaderLength] at hdib; omega))
    (length_toLittleEndian 4 (storedHeight dib / 2)) hlong hpositive
  rw [hheight, magnitude_half (storedHeight_lt hdib)] at hgives
  have htape : tape s.reader = ⟨_, (tape s.reader).ending⟩ := congrArg (Tape.mk · _) hfile
  simp only [List.append_assoc] at htape hgives
  rw [← htape] at hgives
  exact decode_of_gives stop reading_quiet hgives

/-- A completed bitmap is half as high as the image and its mask together, whichever way the rows
run, exactly if the height is not negative, or is the least there is. -/
theorem decode_complete_iff (stop : Stop) {dib file rest : Bytes} (h : complete dib = .ok file)
    (hlong : infoHeaderLength ≤ statedLength dib)
    (hpositive : isNegative range32 (storedWidth dib) = false) {s : Session ρ}
    (hfile : (tape s.reader).bytes = file ++ rest) :
    (decoder.decode stop s).1 =
        .ok ⟨.bmp, storedWidth dib, magnitude range32 (storedHeight dib) / 2⟩ ↔
      (isNegative range32 (storedHeight dib) = true → storedHeight dib = range32 / 2) := by
  rw [decode_complete stop h hlong hpositive hfile, ← half_eq_iff (storedHeight_lt (complete_eq h).1)]
  simp only [Except.ok.injEq, ImageInfo.mk.injEq, true_and]

def headerOf (length height : Nat) : Bytes :=
  toLittleEndian 4 length ++ toLittleEndian 4 16 ++ toLittleEndian 4 height ++
    [1, 0, 32, 0] ++ List.replicate (length - 16) 0

def fileOf (length height : Nat) : Bytes :=
  ascii "BM" ++ toLittleEndian 4 (length + 14) ++ [0, 0, 0, 0, 54, 0, 0, 0] ++ headerOf length height

theorem decode_complete_least :
    let dib := headerOf 40 (range32 / 2)
    let file := fileOf 40 (range32 / 4)
    complete dib = .ok file ∧ isNegative range32 (storedHeight dib) = true ∧
      (decoder.decode .never (⟨⟨file ++ [0], none⟩, 0, []⟩ : Session Tape)).1 =
        .ok ⟨.bmp, 16, range32 / 4⟩ := by
  intro dib file
  have hcomplete : complete dib = .ok file := by cbv
  have hleast : storedHeight dib = range32 / 2 := by cbv
  have hwidth : storedWidth dib = 16 := by cbv
  have hiff := decode_complete_iff (ρ := Tape) .never hcomplete (by decide) (by rw [hwidth]; rfl)
    (s := ⟨⟨file ++ [0], none⟩, 0, []⟩) rfl
  have hdecode := hiff.2 fun _ => hleast
  rw [hwidth, hleast] at hdecode
  exact ⟨hcomplete, by rw [hleast]; rfl, hdecode⟩

theorem complete_topDown :
    let dib := headerOf 40 (range32 - 32)
    let file := fileOf 40 (range32 / 2 - 16)
    complete dib = .ok file ∧ infoHeaderLength ≤ statedLength dib ∧
      isNegative range32 (storedWidth dib) = false ∧
      magnitude range32 (storedHeight dib) / 2 = 16 ∧
      (decoder.decode .never (⟨⟨file, none⟩, 0, []⟩ : Session Tape)).1 =
        .ok ⟨.bmp, 16, range32 / 2 - 16⟩ := by
  refine ⟨?_, ?_, ?_, ?_, ?_⟩
  · cbv
  · decide
  · cbv
  · cbv
  · cbv

/-- Where a file says that its rows begin. -/
def pointed (file : Bytes) : Nat := littleEndian (slice file 10 4)

theorem pixelOffset_lt {dib file : Bytes} (h : complete dib = .ok file) :
    pixelOffset dib < range32 := by
  unfold complete at h
  dsimp only at h
  split at h
  · exact nomatch h
  split at h
  · exact nomatch h
  split at h
  · exact nomatch h
  · rename_i hoffset
    exact Nat.lt_of_not_le hoffset

theorem pointed_complete {dib file : Bytes} (h : complete dib = .ok file) :
    pointed file = pixelOffset dib := by
  have hlt := pixelOffset_lt h
  obtain ⟨head, hhead, -, hoffset, rfl⟩ := complete_parts h
  have hslice : slice (head ++ (slice dib 0 4 ++ ((slice dib 4 4 ++
      toLittleEndian 4 (storedHeight dib / 2)) ++ dib.drop 12))) 10 4 = slice head 10 4 := by
    rw [slice, List.drop_append_of_le_length (by rw [hhead]; decide),
      List.take_append_of_le_length (by rw [List.length_drop, hhead]; decide), slice]
  rw [pointed, hslice, hoffset, littleEndian_toLittleEndian]
  exact Nat.mod_eq_of_lt hlt

theorem isHeaderless_iff (dib : Bytes) : isHeaderless dib = true ↔
    infoHeaderLength ≤ dib.length ∧ statedLength dib ∈ headerLengths ∧
      littleEndian (slice dib 12 2) = 1 := by
  simp only [isHeaderless, statedLength, Bool.and_eq_true, decide_eq_true_eq, and_assoc]

theorem statedLength_of_headerless {dib : Bytes} (h : isHeaderless dib = true) :
    infoHeaderLength ≤ statedLength dib := by
  obtain ⟨-, hlisted, -⟩ := (isHeaderless_iff dib).1 h
  have hleast : ∀ n ∈ headerLengths, infoHeaderLength ≤ n := by decide
  exact hleast _ hlisted

/-- The place where the rows are said to begin falls short of the end of header and palette by what
the header has beyond the least length. -/
theorem pointed_complete_iff {dib file : Bytes} (hheaderless : isHeaderless dib = true)
    (h : complete dib = .ok file) :
    let behind := fileHeaderLength + statedLength dib + 4 * paletteColours dib
    pointed file + (statedLength dib - infoHeaderLength) = behind ∧
      (pointed file = behind ↔ statedLength dib = infoHeaderLength) ∧
      (behind ≤ pointed file ↔ statedLength dib = infoHeaderLength) := by
  intro behind
  have hleast := statedLength_of_headerless hheaderless
  have hshort : pointed file + (statedLength dib - infoHeaderLength) = behind := by
    rw [pointed_complete h, pixelOffset]
    omega
  refine ⟨hshort, ?_, ?_⟩
  · omega
  · omega

theorem pointed_complete_least :
    let dib := headerOf 40 32
    let file := fileOf 40 16
    isHeaderless dib = true ∧ complete dib = .ok file ∧
      pointed file + (40 - 40) = 14 + 40 + 4 * paletteColours dib ∧
      (pointed file = 14 + 40 + 4 * paletteColours dib ↔ statedLength dib = 40) ∧
      (14 + 40 + 4 * paletteColours dib ≤ pointed file ↔ statedLength dib = 40) := by
  intro dib file
  have hheaderless : isHeaderless dib = true := by decide
  have hcomplete : complete dib = .ok file := by cbv
  exact ⟨hheaderless, hcomplete, pointed_complete_iff hheaderless hcomplete⟩

theorem pointed_insideHeader :
    let dib := headerOf 124 32
    let file := fileOf 124 16
    isHeaderless dib = true ∧ complete dib = .ok file ∧ paletteColours dib = 0 ∧
      pointed file = 54 ∧ fileHeaderLength + statedLength dib + 4 * paletteColours dib = 138 := by
  refine ⟨?_, ?_, ?_, ?_, ?_⟩
  · cbv
  · cbv
  · cbv
  · cbv
  · cbv

end Bitmap

end ImageProbe
