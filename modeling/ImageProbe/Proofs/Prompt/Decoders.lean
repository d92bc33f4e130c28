import Mathlib.Control.Monad.Basic
import ImageProbe.Proofs.Prompt
import ImageProbe.Proofs.Table.Order
import ImageProbe.Table.Builtin

namespace ImageProbe

open Reading

theorem FixedHeader.reading_prompt (h : FixedHeader) : Prompt h.reading := by
  apply (Prompt.exactly h.length).bind
  intro bs
  apply (Prompt.require _ _ _).bind
  intro _
  exact .pure _

theorem Bitmap.reading_prompt : Prompt Bitmap.reading := by
  apply (Prompt.exactly _).bind
  intro file
  apply (Prompt.require _ _ _).bind
  intro _
  apply (Prompt.leNumber 4).bind
  intro length
  split
  · apply (Prompt.exactly 8).bind
    intro sizes
    apply (Prompt.require _ _ _).bind
    intro _
    exact .pure _
  · apply (Prompt.require _ _ _).bind
    intro _
    apply (Prompt.exactly 4).bind
    intro sizes
    exact .pure _

namespace Tiff

theorem dimension_prompt (order : ByteOrder) (entry : Bytes) : Prompt (dimension order entry) := by
  unfold dimension
  split
  · exact .pure _
  · exact (Prompt.note _).bind fun _ => .refuse _ _

theorem entries_prompt (order : ByteOrder) (left width height : Nat) :
    Prompt (entries order left width height) := by
  induction left generalizing width height with
  | zero => exact .refuse _ _
  | succ left ih =>
    apply Prompt.checkStop.bind
    intro _
    apply (Prompt.exactly entryLength).bind
    intro entry
    dsimp only
    split
    · apply (dimension_prompt order entry).bind
      intro n
      generalize (if order.number (slice entry 0 2) = widthTag then (n, height) else (width, n)) = size
      obtain ⟨width, height⟩ := size
      dsimp only
      split
      · exact .pure _
      · exact ih width height
    · exact ih _ _

theorem reading_prompt : Prompt reading := by
  apply (Prompt.exactly 8).bind
  intro header
  split
  · exact .refuse _ _
  · apply (Prompt.require _ _ _).bind
    intro _
    apply (Prompt.skip _).bind
    intro _
    apply ((Prompt.exactly 2).map _).bind
    intro count
    exact entries_prompt _ count 0 0

end Tiff

namespace Webp

theorem ofExtent_prompt (size : Except Defect (Nat × Nat)) : Prompt (ofExtent size) := by
  rcases size with defect | ⟨width, height⟩
  · exact .refuse _ _
  · exact .pure _

theorem chunks_prompt (remaining : Nat) : Prompt (chunks remaining) := by
  induction remaining using Nat.strongRecOn with
  | ind remaining ih =>
    rw [chunks]
    apply Prompt.checkStop.bind
    intro _
    split
    · exact .refuse _ _
    apply (Prompt.exactly 4).bind
    intro name
    apply (Prompt.leNumber 4).bind
    intro length
    split
    · exact .refuse _ _
    split
    · apply (Prompt.note _).bind
      intro _
      apply (Prompt.skip _).bind
      intro _
      exact ih _ (by omega)
    split
    · exact (Prompt.exactly _).bind fun head => ofExtent_prompt (lossyExtent head)
    split
    · exact (Prompt.exactly _).bind fun head => ofExtent_prompt (losslessExtent head)
    split
    · apply (Prompt.require _ _ _).bind
      intro _
      exact (Prompt.exactly 10).bind fun head => ofExtent_prompt (.ok (canvasExtent head))
    · exact (Prompt.note _).bind fun _ => .refuse _ _

theorem reading_prompt : Prompt reading := by
  apply (Prompt.exactly 12).bind
  intro head
  apply (Prompt.require _ _ _).bind
  intro _
  apply (Prompt.require _ _ _).bind
  intro _
  apply (Prompt.require _ _ _).bind
  intro _
  exact chunks_prompt _

end Webp

namespace Icon

theorem entries_prompt (left : Nat) (best : Option Entry) : Prompt (entries left best) := by
  induction left generalizing best with
  | zero => exact .pure best
  | succ left ih =>
    apply Prompt.checkStop.bind
    intro _
    apply (Prompt.exactly 16).bind
    intro bs
    exact ih _

theorem directory_prompt : Prompt directory := by
  apply (Prompt.exactly 6).bind
  intro head
  apply (Prompt.require _ _ _).bind
  intro _
  apply (entries_prompt _ none).bind
  rintro (_ | e)
  · exact .refuse _ _
  · exact (Prompt.note _).bind fun _ => .pure e

end Icon

namespace Jpeg

theorem nextMarker_prompt : Prompt nextMarker := Prompt.checkStop.bind fun _ => .pure _

theorem frame_prompt : Prompt frame := by
  apply (Prompt.exactly 5).bind
  intro head
  dsimp only
  split
  · exact .pure _
  · exact (Prompt.note _).bind fun _ => .refuse _ _

theorem segment_prompt (marker : UInt8) : Prompt (segment marker) := by
  unfold segment
  split
  · exact .refuse _ _
  split
  · exact nextMarker_prompt
  apply (Prompt.beNumber 2).bind
  intro length
  dsimp only
  split
  · exact (Prompt.note _).bind fun _ => nextMarker_prompt
  split
  · exact frame_prompt
  split
  · exact .refuse _ _
  · apply (Prompt.note _).bind
    intro _
    exact (Prompt.skip _).bind fun _ => nextMarker_prompt

theorem atBytes_prompt (a b : UInt8) : Prompt (atBytes a b) := by
  unfold atBytes
  split
  · exact .pure _
  split
  · exact nextMarker_prompt
  split
  · exact .pure _
  · exact segment_prompt b

theorem round_prompt (scan : Scan) (bs : Bytes) : Prompt (round scan bs) := by
  cases scan with
  | marker => exact atBytes_prompt _ _
  | sliding last => exact atBytes_prompt last _
  | filling =>
    unfold round
    dsimp only
    split
    · exact .pure _
    · exact segment_prompt _

theorem start_prompt : Prompt start := by
  apply (Prompt.exactly 2).bind
  intro mark
  exact (Prompt.require _ _ _).bind fun _ => nextMarker_prompt

theorem decoder_prompt : Walk.Prompt decoder Lost where
  start := start_prompt.settle_lost
  round scan bs := (round_prompt scan bs).settle_lost
  close _ _ := rfl

theorem decoder_heeds : Walk.Heeds decoder Told where
  start := start_prompt.settle_heeds
  round scan bs := (round_prompt scan bs).settle_heeds
  close _ ending := (shortageAt_plain ending).untold

end Jpeg

namespace Jxl

theorem take_prompt (n : Nat) (codestream : Bytes) : Prompt (take n codestream) :=
  (Prompt.exactly _).bind fun _ => .pure _

theorem whole_prompt (box : Box.Header) (codestream : Bytes) : Prompt (whole box codestream) :=
  (Prompt.require _ _ _).bind fun _ => (take_prompt _ _).map _

theorem part_prompt (box : Box.Header) (codestream : Bytes) : Prompt (part box codestream) := by
  apply (Prompt.require _ _ _).bind
  intro _
  apply (Prompt.beNumber 4).bind
  intro number
  apply (take_prompt _ _).bind
  intro codestream
  split
  · exact .pure _
  split
  · exact .pure _
  split
  · exact .pure _
  · exact .refuse _ _

theorem lookInto_prompt (box : Box.Header) (codestream : Bytes) :
    Prompt (lookInto box codestream) := by
  apply Prompt.checkStop.bind
  intro _
  split
  · exact whole_prompt box codestream
  split
  · exact part_prompt box codestream
  · exact .pure _

theorem start_prompt : Prompt start := by
  apply (Prompt.exactly 2).bind
  intro first
  split
  · exact (take_prompt _ _).map _
  · apply (Prompt.exactly 10).bind
    intro rest
    exact (Prompt.require _ _ _).bind fun _ => .pure _

theorem walk_prompt : walk.Prompt Lost where
  start := start_prompt.settle_lost
  round codestream head := by
    apply (Box.header_prompt .jxl head).lost.bind
    · rintro (e | header)
      · exact trivial
      · refine header.visit_prompt (fun _ _ => rfl)
          ((lookInto_prompt header codestream).lost.map _ ?_)
        rintro e r rfl
        exact ⟨_, rfl, rfl⟩
    · rintro e r rfl
      rfl
  close _ _ := rfl

theorem walk_heeds : walk.Heeds Told where
  start := start_prompt.settle_heeds
  round codestream head := by
    apply (Box.header_prompt .jxl head).heeds.handle
    · intro header
      exact header.visit_heeds (fun _ _ _ => told_error)
        (lookInto_prompt header codestream).settle_heeds
    · exact fun e he => he.untold
    · exact fun _ => rfl
  close _ ending := (shortageAt_plain ending).untold

theorem conclude_heeds (o : Outcome) (h : ∀ why, ¬ Told why o) : (conclude o).Heeds Told := by
  rcases o with e | codestream
  · exact fun why htold => h why (told_error.2 (told_error.1 htold))
  · unfold conclude
    dsimp only
    split <;> exact nofun

theorem decoder_prompt : Walk.Prompt decoder Lost := by
  apply walk_prompt.andThen
  · rintro (e | codestream)
    · exact trivial
    · unfold conclude
      dsimp only
      split <;> exact trivial
  · rintro e r rfl
    rfl

theorem decoder_heeds : Walk.Heeds decoder Told := by
  apply walk_heeds.andThen conclude_heeds
  rintro why r rfl
  rfl

end Jxl

namespace Markup

theorem judge_heeds (bs : Bytes) : (judge bs).Heeds fun _ _ => False := by
  unfold judge
  split <;> exact fun _ => id

theorem upTo_heeds (n : Nat) : (upTo n).run.Heeds Told := by
  rintro ⟨bs, _ | fault⟩
  · exact (not_told_ok · bs)
  · exact (shortageAt_plain (some fault)).untold

theorem reading_heeds : reading.run.Heeds Told := by
  apply heeds_bind (upTo_heeds window)
  intro head
  apply heeds_bind ((judge_heeds head).map _ fun why b => ⟨not_told_ok why b, False.elim⟩)
  intro verdict
  cases verdict <;> exact nofun

end Markup

namespace Heif

variable {brands : BrandRule} {children : Children}

abbrev Reported (why : StopReason) (o : Outcome) : Prop := Told why o.1

theorem compatibleFormat_prompt (brands : BrandRule) (n : Nat) :
    Prompt (compatibleFormat brands n) := by
  induction n with
  | zero => exact .pure _
  | succ n ih =>
    apply (Prompt.exactly 4).bind
    intro brand
    split
    · exact .pure _
    · exact ih

theorem fileType_prompt (brands : BrandRule) (box : Box.Header) (f : Findings) :
    Prompt (fileType brands box f) := by
  apply (Prompt.require _ _ _).bind
  intro _
  apply (Prompt.exactly 4).bind
  intro major
  split
  · exact .pure _
  · apply (Prompt.skip 4).bind
    intro _
    apply (compatibleFormat_prompt brands _).bind
    rintro (_ | format)
    · exact (Prompt.note _).bind fun _ => .refuse _ _
    · exact .pure _

theorem extent_prompt (box : Box.Header) (f : Findings) : Prompt (extent box f) := by
  apply (Prompt.require _ _ _).bind
  intro _
  apply (Prompt.skip 4).bind
  intro _
  apply (Prompt.beNumber 4).bind
  intro width
  apply (Prompt.beNumber 4).bind
  intro height
  exact (Prompt.note _).bind fun _ => .pure _

theorem rotation_prompt (box : Box.Header) (f : Findings) : Prompt (rotation box f) := by
  apply (Prompt.require _ _ _).bind
  intro _
  apply (Prompt.beNumber 1).bind
  intro quarters
  exact (Prompt.note _).bind fun _ => .pure _

theorem handler_heeds (box : Box.Header) (f : Findings) :
    (handler box f).run.Heeds fun _ _ => False := by
  have hneeds : (needs f box 12 .handlerTooShort).run.Heeds fun _ _ => False := by
    rw [needs, require]
    split <;> exact fun _ => id
  have hhead : (exactly 12).run.Heeds fun _ _ => False := fun _ _ => id
  rw [handler, ExceptT.run_bind]
  refine hneeds.bind ?_ nofun
  rintro (e | u) -
  · exact fun _ => id
  · dsimp only
    rw [ExceptT.run_bind]
    refine hhead.bind ?_ nofun
    rintro (e | head) -
    · exact fun _ => id
    · dsimp only
      split <;> exact fun _ => id

theorem reading_heeds {p : Reading Findings} (hp : Prompt p) (f : Findings) :
    (reading f p).Heeds (Step.Told Reported) :=
  hp.heeds.handle (fun _ _ => id) (fun _ he => he.untold) fun _ => rfl

theorem enclosed_heeds {room : Nat} {f : Findings} (h : (children room f).Heeds Reported)
    (depth : Nat) : (enclosed depth children room f).Heeds Reported := by
  apply h.bind
  · intro o huntold
    split
    · exact (not_told_ok · ())
    · exact huntold
  · rintro why ⟨r, f⟩ rfl
    rfl

theorem metadata_heeds (hc : ∀ room f, (children room f).Heeds Reported) (box : Box.Header)
    (f : Findings) : (metadata children box f).Heeds Reported := by
  have hneeds : Prompt (do needs f box 4 .metaTooShort; skip 4 : Reading Unit) :=
    (Prompt.require _ _ _).bind fun _ => .skip 4
  apply hneeds.heeds.handle
  · intro u
    have hinside : Script.Heeds Reported
        (if box.payload = 4 then pure (.ok (), f) else children (box.payload - 4) f) := by
      split
      · exact (not_told_ok · ())
      · exact hc _ _
    apply hinside.bind
    · rintro ⟨e | u, f⟩ huntold
      · exact huntold
      · dsimp only
        split <;> exact nofun
    · rintro why ⟨r, f⟩ rfl
      rfl
  · exact fun e he => he.untold
  · exact fun _ => rfl

theorem content_heeds (hc : ∀ room f, (children room f).Heeds Reported) (box : Box.Header)
    (f : Findings) : (content brands children box f).Heeds (Step.Told Reported) := by
  unfold content
  split
  · exact reading_heeds (fileType_prompt brands box f) f
  split
  · exact (metadata_heeds hc box f).map _ fun _ _ => .rfl
  split
  · refine (handler_heeds box f).bind ?_ nofun
    rintro (e | u) -
    · exact (not_told_ok · ())
    · exact fun _ => id
  split
  · apply (hc box.payload f).bind
    · rintro ⟨e | u, f⟩ huntold
      · exact huntold
      · exact fun _ => id
    · rintro why ⟨r, f⟩ rfl
      rfl
  split
  · exact reading_heeds (extent_prompt box f) f
  split
  · exact reading_heeds (rotation_prompt box f) f
  split
  · exact nofun
  · exact fun _ => id

theorem lookInto_heeds (hc : ∀ room f, (children room f).Heeds Reported) (box : Box.Header)
    (f : Findings) : (lookInto brands children box f).Heeds (Step.Told Reported) :=
  ⟨fun _ => rfl, content_heeds hc box f⟩

theorem levelEnd_told {why : StopReason} {e : ProbeError} :
    Told why (levelEnd e) ↔ e = .stopped why := by
  cases e with
  | endOfData => exact ⟨nofun, nofun⟩
  | _ => exact told_error

theorem box_heeds (hc : ∀ room f, (children room f).Heeds Reported) (format : ImageFormat)
    (head : Bytes) (f : Findings) :
    (box brands children format head f).Heeds (Step.Told Reported) := by
  apply (Box.header_prompt format head).heeds.handle
  · intro header
    exact header.visit_heeds (T := Reported) (fun _ _ _ => told_error) (lookInto_heeds hc header f)
  · exact fun e he why htold => he why (levelEnd_told.1 htold)
  · exact fun _ => rfl

theorem levelEnd_untold (ending : Option Fault) (f : Findings) (why : StopReason) :
    ¬ Reported why (levelEnd (shortageAt ending), f) :=
  fun htold => shortageAt_plain ending why (levelEnd_told.1 htold)

theorem boxes_heeds (hc : ∀ room f, (children room f).Heeds Reported) (format : ImageFormat)
    (most : Nat) (f : Findings) : (boxes brands children format most f).Heeds Reported := by
  induction most generalizing f with
  | zero => exact fun haul => levelEnd_untold haul.fault f
  | succ most ih =>
    intro haul
    dsimp only
    split
    · exact levelEnd_untold haul.fault f
    · apply (box_heeds hc format haul.bytes f).bind
      · rintro (f | o) huntold
        · exact ih f
        · exact huntold
      · rintro why (f | o) htold
        · exact htold.elim
        · exact htold

theorem level_heeds (brands : BrandRule) (spare room : Nat) (f : Findings) :
    (level brands spare room f).Heeds Reported := by
  induction spare generalizing room f with
  | zero => exact nofun
  | succ spare ih => exact boxes_heeds (fun room f => enclosed_heeds (ih room f) _) _ _ _

theorem walk_heeds (brands : BrandRule) : (walk brands).Heeds Reported where
  start _ := id
  round f head := box_heeds (fun room f => enclosed_heeds (level_heeds brands _ room f) _) _ head f
  close f ending := levelEnd_untold ending f

/-- A stop gets through, also where another error would not count any more. -/
theorem conclude_told {why : StopReason} {o : Outcome} (h : Reported why o) :
    (conclude o).Ends (Told why) := by
  obtain ⟨r, f⟩ := o
  cases h
  rfl

theorem answer_untold (f : Findings) (why : StopReason) : ¬ Told why (answer f) := by
  unfold answer
  split
  · split <;> exact nofun
  · exact nofun

theorem conclude_heeds : ∀ o : Outcome, (∀ why, ¬ Reported why o) → (conclude o).Heeds Told := by
  intro o
  unfold conclude
  split <;> intro h
  · exact answer_untold _
  · exact absurd rfl (h _)
  · split
    · exact answer_untold _
    split
    · exact answer_untold _
    · exact fun why htold => h why (told_error.2 (told_error.1 htold))

theorem decoder_heeds (brands : BrandRule) : (decoder brands).Heeds Told :=
  (walk_heeds brands).andThen conclude_heeds fun _ _ h => conclude_told h

end Heif

namespace Table

def decoders : List Decoder :=
  [Jpeg.decoder, Jxl.decoder, png.decoder, Webp.decoder, gif.decoder, Icon.decoder, heic, heif,
    Bitmap.decoder, Tiff.decoder, pdf.decoder, Markup.decoder]

/-- Every decoder of the library lets a stop through. -/
theorem decoders_heeds {d : Decoder} (hd : d ∈ decoders) : d.Heeds Told := by
  have hreading {p : Reading ImageInfo} (hp : Prompt p) : (Decoder.ofReading p).Heeds Told :=
    .ofScript hp.heeds
  simp only [decoders, List.mem_cons, List.not_mem_nil, or_false] at hd
  rcases hd with rfl | rfl | rfl | rfl | rfl | rfl | rfl | rfl | rfl | rfl | rfl | rfl
  · exact Jpeg.decoder_heeds
  · exact Jxl.decoder_heeds
  · exact hreading png.reading_prompt
  · exact hreading Webp.reading_prompt
  · exact hreading gif.reading_prompt
  · exact hreading (Icon.directory_prompt.map _)
  · exact Heif.decoder_heeds Heif.heicBrands
  · exact Heif.decoder_heeds Heif.heifBrands
  · exact hreading Bitmap.reading_prompt
  · exact hreading Tiff.reading_prompt
  · exact hreading pdf.reading_prompt
  · exact .ofScript Markup.reading_heeds

theorem builtin_decoder {e : Entry} (he : e ∈ builtin) : e.decoder ∈ decoders := by
  rw [builtin, mem_registered] at he
  revert e
  simp only [knownFormats, List.forall_mem_append, List.forall_mem_cons, List.forall_mem_map]
  simp [decoders]

def Heeds (table : Table) : Prop := ∀ e ∈ table, e.decoder.Heeds Told

theorem builtin_heeds : builtin.Heeds := fun _ he => decoders_heeds (builtin_decoder he)

end Table

end ImageProbe
