import ImageProbe.Jpeg
import ImageProbe.Jxl
import ImageProbe.Proofs.Heif.Checks
import ImageProbe.Proofs.Heif.Contained
import ImageProbe.Proofs.Jxl.Container
import ImageProbe.Proofs.Paid
import ImageProbe.Webp

namespace ImageProbe

open ByteReader Reading

variable {price credit : Nat}

namespace Jpeg

def atHand : Scan → Nat
  | .marker => 0
  | .sliding _ => 2
  | .filling => 2

theorem nextMarker_pays (hcredit : 2 ≤ credit) :
    nextMarker.Pays 2 credit (Step.atHand atHand) :=
  .check hcredit (.pure (Nat.zero_le _))

theorem frame_pays : frame.Pays 2 credit (Step.atHand atHand) := by
  apply (Pays.exactly 5).bind
  intro head
  dsimp only
  split
  · exact .pure (Nat.zero_le _)
  · exact .refuse _ _

theorem segment_pays (marker : UInt8) (hcredit : 2 ≤ credit) :
    (segment marker).Pays 2 credit (Step.atHand atHand) := by
  unfold segment
  split
  · exact .refuse _ _
  split
  · exact nextMarker_pays hcredit
  apply (Pays.quiet (.beNumber 2)).bind
  intro length
  dsimp only
  split
  · exact .note _ (nextMarker_pays hcredit)
  split
  · exact frame_pays
  split
  · exact .refuse _ _
  · apply Pays.note
    apply (Pays.quiet (.skip _)).bind
    intro _
    exact nextMarker_pays hcredit

theorem atBytes_pays (a b : UInt8) (hcredit : 2 ≤ credit) :
    (atBytes a b).Pays 2 credit (Step.atHand atHand) := by
  unfold atBytes
  split
  · exact .pure hcredit
  split
  · exact nextMarker_pays hcredit
  split
  · exact .pure hcredit
  · exact segment_pays b hcredit

theorem round_pays (scan : Scan) {bs : Bytes} (hbs : bs.length = reach scan + 1) :
    (round scan bs).Pays 2 (atHand scan + bs.length) (Step.atHand atHand) := by
  cases scan with
  | marker => exact atBytes_pays _ _ (Nat.le_add_left_of_le (Nat.le_of_eq hbs.symm))
  | sliding last => exact atBytes_pays last _ (Nat.le_add_right 2 _)
  | filling =>
    unfold round
    dsimp only
    split
    · exact .pure (Nat.le_add_right 2 _)
    · exact segment_pays _ (Nat.le_add_right 2 _)

theorem decoder_pays : decoder.Pays 2 := by
  have hwalk : Walk.Pays 2 decoder atHand := {
    start := by
      apply Pays.settle
      apply (Pays.exactly 2).bind
      intro mark
      apply (Pays.quiet (.require _ _ _)).bind
      intro _
      exact nextMarker_pays (Nat.le_refl 2)
    round := fun scan bs hbs => (round_pays scan hbs).settle
    close := fun _ _ => .done (Nat.le_refl 0) }
  exact .of_walk hwalk

end Jpeg

namespace Webp

theorem ofExtent_quiet (size : Except Defect (Nat × Nat)) : Quiet (ofExtent size) := by
  rcases size with defect | size
  · exact .refuse _ _
  · exact .pure _

theorem chunks_pays (remaining : Nat) : (chunks remaining).Pays 8 8 fun _ => 0 := by
  induction remaining using Nat.strongRecOn with
  | ind remaining ih =>
    rw [chunks]
    apply Pays.check (Nat.le_refl 8)
    split
    · exact .refuse _ _
    apply (Pays.exactly 4).bind
    intro name
    apply (Pays.leNumber 4).bind
    intro length
    split
    · exact .refuse _ _
    have hhead {n : Nat} {size : Bytes → Except Defect (Nat × Nat)} :
        (Reading.exactly n >>= fun head => ofExtent (size head)).Pays 8 8 fun _ => 0 :=
      .mono (.quiet ((Quiet.exactly n).bind fun _ => ofExtent_quiet _)) (Nat.le_refl 8)
        fun _ => Nat.zero_le 8
    split
    · apply Pays.note
      apply (Pays.quiet (.skip _)).bind
      intro _
      exact ih _ (by omega)
    split
    · exact hhead
    split
    · exact hhead
    split
    · apply (Pays.quiet (.require _ _ _)).bind
      intro _
      exact hhead
    · exact .note _ (.refuse _ _)

theorem decoder_pays : decoder.Pays 8 := by
  apply Decoder.Pays.ofReading
  apply (Pays.exactly 12).bind
  intro head
  apply (Pays.quiet (.require _ _ _)).bind
  intro _
  apply (Pays.quiet (.require _ _ _)).bind
  intro _
  apply (Pays.quiet (.require _ _ _)).bind
  intro _
  exact (chunks_pays _).mono (by decide) fun _ => Nat.le_refl 0

end Webp

namespace Jxl

theorem take_quiet (n : Nat) (codestream : Bytes) : Quiet (take n codestream) :=
  (Quiet.exactly _).bind fun _ => .pure _

theorem whole_quiet (box : Box.Header) (codestream : Bytes) : Quiet (whole box codestream) :=
  (Quiet.require _ _ _).bind fun _ => (take_quiet _ _).bind fun _ => .pure _

theorem part_quiet (box : Box.Header) (codestream : Bytes) : Quiet (part box codestream) := by
  apply (Quiet.require _ _ _).bind
  intro _
  apply (Quiet.beNumber 4).bind
  intro number
  apply (take_quiet _ _).bind
  intro codestream
  split
  · exact .pure _
  split
  · exact .pure _
  split
  · exact .pure _
  · exact .refuse _ _

theorem start_quiet : Quiet start := by
  apply (Quiet.exactly 2).bind
  intro first
  split
  · exact (take_quiet _ _).bind fun _ => .pure _
  · apply (Quiet.exactly 10).bind
    intro rest
    exact (Quiet.require _ _ _).bind fun _ => .pure _

theorem lookInto_pays (h : Box.Header) (codestream : Bytes) :
    (lookInto h codestream).Pays 8 8 fun _ => 0 := by
  apply Pays.check (Nat.le_refl 8)
  split
  · exact .quiet (whole_quiet h codestream)
  split
  · exact .quiet (part_quiet h codestream)
  · exact .quiet (.pure _)

theorem box_pays (head codestream : Bytes) : (box head codestream).Pays 8 8 fun _ => 0 := by
  apply (Script.Pays.quiet (Box.Header.quiet_header .jxl head)).bind
  rintro (e | h)
  · exact .done (Nat.zero_le 8)
  · have hlook := Script.Pays.mono (lookInto_pays h codestream) (Nat.le_refl 8) fun _ =>
      Nat.zero_le _
    exact h.visit_pays (.map hlook)

theorem decoder_pays : decoder.Pays 8 := by
  have hwalk : Walk.Pays 8 walk fun _ => 0 := by
    apply Walk.Pays.of_even
    · exact .map (.quiet start_quiet)
    · exact fun codestream head hhead => hhead ▸ box_pays head codestream
    · exact fun _ _ => .done (Nat.le_refl 0)
  exact .of_walk (hwalk.andThen fun o => .ends (conclude_ends o))

end Jxl

namespace Heif

variable {brands : BrandRule} {children : Children}

def Children.Pay (children : Children) : Prop :=
  ∀ room f, (children room f).Pays 8 0 fun _ => 0

theorem enclosed_pay (hc : children.Pay) (depth : Nat) :
    Children.Pay (enclosed depth children) := by
  intro room f
  apply (hc room f).bind
  rintro ⟨e | u, f'⟩
  · cases e
    case endOfData => exact .note _ (.done (Nat.le_refl 0))
    all_goals exact .done (Nat.le_refl 0)
  · exact .done (Nat.le_refl 0)

theorem metadata_pays (hc : children.Pay) (h : Box.Header) (f : Findings) :
    (metadata children h f).Pays 8 0 fun _ => 0 := by
  have hversion : Quiet (needs f h 4 .metaTooShort >>= fun _ => skip 4) :=
    (needs_quiet h 4 _).bind fun _ => .skip 4
  apply (Script.Pays.quiet hversion).bind
  rintro (e | u)
  · exact .done (Nat.le_refl 0)
  have hinside : (if h.payload = 4 then pure (.ok (), f)
      else children (h.payload - 4) f : Script Outcome).Pays 8 0 fun _ => 0 := by
    split
    · exact .done (Nat.le_refl 0)
    · exact hc _ f
  apply hinside.bind
  rintro ⟨e | u, f'⟩
  · exact .done (Nat.le_refl 0)
  · exact .done (Nat.le_refl 0)

theorem lookInto_pays (hc : children.Pay) (h : Box.Header) (f : Findings) :
    (lookInto brands children h f).Pays 8 8 fun _ => 0 := by
  have hcheck {p : Script (Step Findings Outcome)} (hp : p.Pays 8 0 fun _ => 0) :
      (Script.check (halt f) p).Pays 8 8 fun _ => 0 :=
    .check (Nat.le_refl 8) (fun _ => .done (Nat.le_refl 0)) hp
  have hquiet {p : Script (Step Findings Outcome)} (hp : p.Quiet) :
      (Script.check (halt f) p).Pays 8 8 fun _ => 0 := hcheck (.quiet hp)
  rcases name_cases h.name with
    hftyp | hmeta | hhdlr | hgroup | hispe | hirot | hmdat | hother
  · rw [lookInto_fileType hftyp]
    exact hquiet (reading_quiet (fileType_quiet h))
  · rw [lookInto_metadata hmeta]
    exact hcheck (.map (metadata_pays hc h f))
  · rw [lookInto_handler hhdlr]
    exact hquiet (Script.Quiet.bind (handler_quiet h) (heed_quiet f))
  · rw [lookInto_properties hgroup]
    exact hcheck ((hc h.payload f).bind fun _ => .done (Nat.le_refl 0))
  · rw [lookInto_extent hispe]
    exact hquiet (reading_quiet (extent_quiet h))
  · rw [lookInto_rotation hirot]
    exact hquiet (reading_quiet (rotation_quiet h))
  · rw [lookInto_media hmdat]
    exact hcheck (.done (Nat.le_refl 0))
  · rw [lookInto_other hother]
    exact hcheck (.done (Nat.le_refl 0))

theorem box_pays (hc : children.Pay) (format : ImageFormat) (head : Bytes) (f : Findings) :
    (box brands children format head f).Pays 8 8 fun _ => 0 := by
  apply (Script.Pays.quiet (Box.Header.quiet_header format head)).bind
  rintro (e | h)
  · exact .done (Nat.zero_le 8)
  · exact h.visit_pays (lookInto_pays hc h f)

theorem boxes_pay (hc : children.Pay) (format : ImageFormat) (most : Nat) (f : Findings) :
    (boxes brands children format most f).Pays 8 0 fun _ => 0 := by
  induction most generalizing f with
  | zero => exact .fetch fun _ _ => .done (Nat.zero_le _)
  | succ most ih =>
    refine .fetch fun haul hlength => ?_
    split
    · exact .done (Nat.zero_le _)
    · have hcredit : 8 ≤ 0 + haul.bytes.length := by
        rw [Box.headLength] at *
        omega
      apply ((box_pays hc format haul.bytes f).mono hcredit fun _ => Nat.le_refl 0).bind
      rintro (f' | o)
      · exact ih f'
      · exact .done (Nat.le_refl 0)

theorem level_pays (spare : Nat) : Children.Pay (level brands spare) := by
  induction spare with
  | zero => exact fun _ _ => .done (Nat.le_refl 0)
  | succ spare ih => exact fun room f => boxes_pay (enclosed_pay ih _) f.errorFormat _ f

theorem decoder_pays (brands : BrandRule) : (decoder brands).Pays 8 := by
  have hwalk : Walk.Pays 8 (walk brands) fun _ => 0 := by
    apply Walk.Pays.of_even
    · exact .done (Nat.le_refl 0)
    · exact fun f head hhead => hhead ▸ box_pays (enclosed_pay (level_pays maxDepth) 0) _ head f
    · exact fun _ _ => .done (Nat.le_refl 0)
  exact .of_walk (hwalk.andThen fun o => .ends (conclude_ends o))

end Heif

/-- Whatever the stream and the host's answers, the bytes taken pay for the checks. So they do for
the boxes that are looked into, and a level goes on as long as its bytes do: more rounds change
nothing. -/
theorem walks_pay :
    (heif.Pays 8 ∧ heic.Pays 8 ∧ Jxl.decoder.Pays 8 ∧ Webp.decoder.Pays 8 ∧ Jpeg.decoder.Pays 2) ∧
      (∀ (brands : Heif.BrandRule) (ρ : Type) [ByteReader ρ] (r : ρ) (log : List Note),
        8 * (Heif.looks brands (tape r)).length ≤
          taken r ((Heif.decoder brands).decode .never ⟨r, 0, log⟩).2.reader) ∧
      ∀ (brands : Heif.BrandRule) (children : Heif.Children) (format : ImageFormat) (stop : Stop)
        (f : Heif.Findings) (t : Tape) (k more : Nat),
        (Heif.boxes brands children format
            (t.bytes.length / Box.headLength + more) f).outcome stop t k =
          Heif.boxesOn brands children format stop f t k := by
  refine ⟨⟨Heif.decoder_pays _, Heif.decoder_pays _, Jxl.decoder_pays, Webp.decoder_pays,
    Jpeg.decoder_pays⟩, ?_, ?_⟩
  · intro brands ρ _ r log
    have hchecks := Heif.decode_checks brands (⟨r, 0, log⟩ : Session ρ)
    rw [Nat.zero_add] at hchecks
    rw [← hchecks]
    exact Heif.decoder_pays brands ρ .never r log
  · intro brands children format stop f t k more
    exact Heif.boxes_enough f (Nat.le_add_right _ more) k

end ImageProbe
