import ImageProbe.Proofs.Bytes
import ImageProbe.Proofs.Markup.Document
import ImageProbe.Proofs.Prompt.Decoders
import ImageProbe.Proofs.Unstopped
import ImageProbe.Table.Builtin

namespace ImageProbe

open ByteReader Reading Table

variable {ρ : Type} [ByteReader ρ]

namespace Webp

def leading : List Bytes := [ascii "ALPH", ascii "VP8 ", ascii "VP8L", ascii "VP8X"]

theorem chunk_of_gives {remaining : Nat} {t t' : Tape} {info : ImageInfo}
    (h : (chunks remaining).Gives t info t') :
    8 ≤ t.bytes.length ∧ t.bytes.take 4 ∈ leading := by
  rw [chunks] at h
  obtain ⟨_, _, hcheck, h⟩ := Gives.of_bind h
  cases hcheck
  split at h
  · exact absurd h (not_gives_refuse _ _ _ _ _)
  obtain ⟨name, _, hname, h⟩ := Gives.of_bind h
  obtain ⟨-, rfl, rfl⟩ := Gives.of_exactly hname
  obtain ⟨length, _, hlength, h⟩ := Gives.of_bind h
  obtain ⟨hlong, -, rfl⟩ := Gives.of_number hlength
  rw [Tape.drop_length] at hlong
  refine ⟨by omega, ?_⟩
  split at h
  · exact absurd h (not_gives_refuse _ _ _ _ _)
  by_contra hother
  simp only [leading, List.mem_cons, List.not_mem_nil, or_false, not_or] at hother
  obtain ⟨halpha, hlossy, hlossless, hextended⟩ := hother
  rw [if_neg halpha, if_neg hlossy, if_neg hlossless, if_neg hextended] at h
  obtain ⟨_, _, hnote, h⟩ := Gives.of_bind h
  exact absurd h (not_gives_refuse _ _ _ _ _)

structure Opening (bs : Bytes) : Prop where
  long : 20 ≤ bs.length
  riff : slice bs 0 4 = ascii "RIFF"
  webp : slice bs 8 4 = ascii "WEBP"
  chunk : slice bs 12 4 ∈ leading

theorem opening_of_gives {t t' : Tape} {info : ImageInfo} (h : reading.Gives t info t') :
    Opening t.bytes := by
  obtain ⟨head, _, hhead, h⟩ := Gives.of_bind h
  obtain ⟨hlong, rfl, rfl⟩ := Gives.of_exactly hhead
  obtain ⟨_, _, hfirst, h⟩ := Gives.of_bind h
  obtain ⟨hriff, rfl⟩ := Gives.of_require hfirst
  obtain ⟨_, _, hsecond, h⟩ := Gives.of_bind h
  obtain ⟨hwebp, rfl⟩ := Gives.of_require hsecond
  obtain ⟨_, _, hthird, h⟩ := Gives.of_bind h
  obtain ⟨-, rfl⟩ := Gives.of_require hthird
  obtain ⟨hchunk, hname⟩ := chunk_of_gives h
  rw [Tape.drop_length] at hchunk
  rw [decide_eq_true_eq, slice_take t.bytes (by decide)] at hriff hwebp
  exact ⟨by omega, hriff, hwebp, hname⟩

def entry : Entry := ⟨ascii "RIFF????WEBPVP8", decoder⟩

variable {bs : Bytes}

theorem Opening.bytes_eq (h : Opening bs) :
    bs = ascii "RIFF" ++ (slice bs 4 4 ++ (ascii "WEBP" ++ (slice bs 12 4 ++ bs.drop 16))) := by
  have hwhole : slice bs 0 4 ++ (slice bs 4 4 ++ (slice bs 8 4 ++ (slice bs 12 4 ++ bs.drop 16))) =
      bs := by
    rw [slice_append_drop bs 12 4, slice_append_drop bs 8 4, slice_append_drop bs 4 4,
      slice_append_drop bs 0 4, List.drop_zero]
  rw [h.riff, h.webp] at hwhole
  exact hwhole.symm

theorem Opening.not_fits (h : Opening bs) {e : Entry}
    (he : e.Misses [(0, 0x52), (8, 0x57)]) : ¬ e.Fits bs := by
  apply Entry.not_fits_of_misses he
  intro q hq
  rcases List.mem_cons.1 hq with rfl | hq
  · exact getElem?_of_slice h.riff
  · obtain rfl := List.mem_singleton.1 hq
    exact getElem?_of_slice h.webp

theorem Opening.fits_iff (h : Opening bs) : entry.Fits bs ↔ slice bs 12 4 ≠ ascii "ALPH" := by
  constructor
  · intro hfit halpha
    have hbyte : bs[12]? = some 0x56 := hfit.get rfl (by decide)
    rw [getElem?_of_slice halpha] at hbyte
    exact absurd hbyte (by decide)
  · intro halpha
    have hpattern : entry.pattern = ascii "RIFF" ++
      (List.replicate 4 Entry.wildcard ++ (ascii "WEBP" ++ ascii "VP8")) := by decide
    have hexact (head : Bytes) :
        List.Forall₂ (fun p b => p = b ∨ p = Entry.wildcard) head head :=
      List.forall₂_same.2 fun _ _ => .inl rfl
    have hwild : List.Forall₂ (fun p b => p = b ∨ p = Entry.wildcard)
        (List.replicate (slice bs 4 4).length Entry.wildcard) (slice bs 4 4) := by
      induction slice bs 4 4 with
      | nil => exact .nil
      | cons b rest ih => exact .cons (.inr rfl) ih
    have hlen : (slice bs 4 4).length = 4 := by
      have hlong := h.long
      rw [slice, List.length_take, List.length_drop]
      omega
    have hkind : ∃ b, slice bs 12 4 = ascii "VP8" ++ [b] := by
      have hchunk := h.chunk
      simp only [leading, List.mem_cons, List.not_mem_nil, or_false, halpha, false_or] at hchunk
      rcases hchunk with hchunk | hchunk | hchunk
      · exact ⟨_, hchunk⟩
      · exact ⟨_, hchunk⟩
      · exact ⟨_, hchunk⟩
    obtain ⟨b, hb⟩ := hkind
    rw [hlen] at hwild
    refine ⟨ascii "RIFF" ++ (slice bs 4 4 ++ (ascii "WEBP" ++ ascii "VP8")), b :: bs.drop 16, ?_, ?_⟩
    · have hbytes := h.bytes_eq
      rw [hb] at hbytes
      simpa only [List.append_assoc, List.singleton_append] using hbytes
    · rw [hpattern]
      exact List.rel_append (hexact _) (List.rel_append hwild (List.rel_append (hexact _) (hexact _)))

theorem length_pattern : ∀ e ∈ builtin, e.pattern.length ≤ 15 := by
  have hknown : ∀ e ∈ knownFormats, e.pattern.length ≤ 15 := by decide +kernel
  exact fun e he => hknown e ((mem_registered knownFormats e).1 he)

theorem Opening.routed (h : Opening bs) (halpha : slice bs 12 4 ≠ ascii "ALPH") :
    Routed knownFormats bs entry := by
  have hbefore : ∀ e ∈ knownFormats.take 4, e.Misses [(0, 0x52), (8, 0x57)] := by decide +kernel
  have hafter : ∀ e ∈ knownFormats.drop 5, e.Misses [(0, 0x52), (8, 0x57)] := by decide +kernel
  refine ⟨knownFormats.take 4, knownFormats.drop 5, rfl, h.fits_iff.2 halpha, ?_, ?_⟩
  · intro e he hfit
    exact absurd hfit (h.not_fits (hbefore e he))
  · intro e he hfit
    exact absurd hfit (h.not_fits (hafter e he))

theorem Opening.not_routed (h : Opening bs) (halpha : slice bs 12 4 = ascii "ALPH") :
    ∀ e ∈ builtin, ¬ e.Fits bs := by
  have hknown : ∀ e ∈ knownFormats,
      e.pattern = entry.pattern ∨ e.Misses [(0, 0x52), (8, 0x57)] := by decide +kernel
  intro e he
  rcases hknown e ((mem_registered knownFormats e).1 he) with hpattern | hmisses
  · intro hfit
    have hentry : entry.Fits bs := by
      rw [Entry.Fits, ← hpattern]
      exact hfit
    exact h.fits_iff.1 hentry halpha
  · exact h.not_fits hmisses

theorem Opening.not_svg (h : Opening bs) (n : Nat) : Markup.isSvg (bs.take n) = false := by
  obtain ⟨rest, hbytes⟩ : ∃ rest, bs = 0x52 :: rest := ⟨_, h.bytes_eq⟩
  subst hbytes
  exact Markup.not_svg_take (by decide) (by decide) (by decide) rest n

/-- The dispatcher agrees with the decoder on what the decoder accepts, unless alpha data come first:
there is no pattern for these. The image is not found then, and the answer is that the format is
unknown, or the fault of a stream that fails within the bytes looked at for an SVG. -/
theorem probe_webp (limits : Limits) {stop : Stop} {r : ρ} {checks : Nat} {log log' : List Note}
    {info : ImageInfo} (h : (decoder.decode stop ⟨r, checks, log'⟩).1 = .ok info) :
    let probed := (builtin.probe limits stop ⟨{ inner := r }, checks, log⟩).1
    (probed = .ok info ↔ slice (tape r).bytes 12 4 ≠ ascii "ALPH") ∧
      (slice (tape r).bytes 12 4 = ascii "ALPH" →
        probed = .error (((tape r).haul limits.svgWindow).fault.elim .unknownFormat .ofFault)) := by
  intro probed
  obtain ⟨t, hgives⟩ := Decoder.gives_of_decode reading_prompt.heeds h
  have hopening : Opening (tape r).bytes := opening_of_gives hgives
  have hlong : ∀ e ∈ builtin, e.pattern.length ≤ (tape r).bytes.length := by
    intro e he
    exact Nat.le_trans (length_pattern e he) (Nat.le_trans (by decide) hopening.long)
  have hmissed (halpha : slice (tape r).bytes 12 4 = ascii "ALPH") :
      probed = .error (((tape r).haul limits.svgWindow).fault.elim .unknownFormat .ofFault) := by
    have hprobe := probe_long_of_not_found builtin limits stop r checks log hlong
      (hopening.not_routed halpha)
    rw [hopening.not_svg] at hprobe
    refine hprobe.trans ?_
    cases ((tape r).haul limits.svgWindow).fault with
    | none => rfl
    | some f => rfl
  refine ⟨⟨fun hok halpha => ?_, fun halpha => ?_⟩, hmissed⟩
  · rw [hmissed halpha] at hok
    exact nomatch hok
  · rw [← h]
    exact probe_long_of_found builtin limits stop r checks log log' hlong
      (find?_of_routed (hopening.routed halpha))

def losslessChunk : Bytes := ascii "VP8L" ++ [5, 0, 0, 0, 0x2f, 0x0f, 0xc0, 0x03, 0, 0]

theorem probe_webp_lossless :
    let t : Tape :=
      ⟨ascii "RIFF" ++ [18, 0, 0, 0] ++ ascii "WEBP" ++ losslessChunk, some ⟨.other, "reset"⟩⟩
    slice t.bytes 12 4 ≠ ascii "ALPH" ∧
      (decoder.decode .never ⟨t, 0, []⟩).1 = .ok ⟨.webp, 16, 16⟩ ∧
      (builtin.probe {} .never ⟨{ inner := t }, 0, []⟩).1 = .ok ⟨.webp, 16, 16⟩ := by
  intro t
  have hfirst : slice t.bytes 12 4 ≠ ascii "ALPH" := by decide
  have hdecode : (decoder.decode .never ⟨t, 0, []⟩).1 = .ok ⟨.webp, 16, 16⟩ := by decide +kernel
  exact ⟨hfirst, hdecode, (probe_webp {} hdecode).1.2 hfirst⟩

theorem alpha_first_unknown :
    let t : Tape := ⟨ascii "RIFF" ++ [30, 0, 0, 0] ++ ascii "WEBP" ++ ascii "ALPH" ++ [3, 0, 0, 0] ++
      ascii "abc" ++ [0] ++ losslessChunk, none⟩
    (decoder.decode .never ⟨t, 0, []⟩).1 = .ok ⟨.webp, 16, 16⟩ ∧
      (builtin.probe {} .never ⟨{ inner := t }, 0, []⟩).1 = .error .unknownFormat := by
  intro t
  constructor
  · decide +kernel
  · decide +kernel

end Webp

end ImageProbe
