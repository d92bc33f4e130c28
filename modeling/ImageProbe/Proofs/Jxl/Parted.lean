import ImageProbe.Proofs.Jxl.Container
import ImageProbe.Stream.Source

namespace ImageProbe

open Box ByteReader

namespace Jxl

open Reading

variable {ρ σ : Type} [ByteReader ρ] [ByteReader σ]

def partBox (wide : Bool) (number part : Bytes) : Parcel := ⟨wide, ascii "jxlp", number ++ part⟩

/-- A codestream cut into parts, one to a box, with boxes of other kinds before and between them.
The top bit of the number marks the last part and no other. -/
inductive Parted : Bytes → List Parcel → Prop
  | last {wide : Bool} {number part : Bytes} (length : number.length = 4)
    (marked : (bigEndian number).testBit 31 = true) (fits : (partBox wide number part).Fits) :
    Parted part [partBox wide number part]
  | part {wide : Bool} {number part codestream : Bytes} {ps : List Parcel}
    (length : number.length = 4) (unmarked : (bigEndian number).testBit 31 = false)
    (fits : (partBox wide number part).Fits) (rest : Parted codestream ps) :
    Parted (part ++ codestream) (partBox wide number part :: ps)
  | other {p : Parcel} {codestream : Bytes} {ps : List Parcel} (foreign : Foreign p)
    (rest : Parted codestream ps) : Parted codestream (p :: ps)

theorem gathered_take (codestream : Bytes) :
    gathered (codestream.take longestHeader) = gathered codestream := by
  have hlong : shortestHeader ≤ (codestream.take longestHeader).length ↔
      shortestHeader ≤ codestream.length := by
    rw [List.length_take]
    exact ⟨fun h => Nat.le_trans h (Nat.min_le_right _ _), Nat.le_min_of_le_of_le (by decide)⟩
  rw [gathered, gathered, List.take_take, Nat.min_self]
  exact ite_congr (propext hlong) (fun _ => rfl) fun _ => rfl

theorem gathered_append {codestream : Bytes} (h : longestHeader ≤ codestream.length)
    (more : Bytes) : gathered (codestream ++ more) = gathered codestream := by
  rw [← gathered_take (codestream ++ more), List.take_append_of_le_length h, gathered_take]

variable {number codestream part : Bytes}

theorem eval_part (wide : Bool) (hnumber : number.length = 4)
    (hroom : codestream.length ≤ longestHeader) (part : Bytes) :
    ∃ t, ((look (partBox wide number part).header codestream).eval ⟨number ++ part, none⟩).1 =
      let collected := (codestream ++ part).take longestHeader
      Step.settle ((if collected.length = longestHeader then pure (.done collected)
        else if ! (bigEndian number).testBit 31 then pure (.more collected)
        else if shortestHeader ≤ collected.length then pure (.done collected)
        else refuse .jxl .invalidCodestreamBox : Reading (Step Bytes Bytes)).run.eval t).1 := by
  have hname : (partBox wide number part).name = ascii "jxlp" := rfl
  have hpayload : (partBox wide number part).header.payload = 4 + part.length := by
    rw [Parcel.header_payload, partBox, List.length_append, hnumber]
  have hneeded : (require .jxl (4 ≤ (partBox wide number part).header.payload)
      .invalidPartBox).Gives ⟨number ++ part, none⟩ () ⟨number ++ part, none⟩ :=
    Gives.require _ (decide_eq_true (hpayload ▸ Nat.le_add_right _ _)) _ _
  obtain ⟨t, htake⟩ := take_all codestream part hroom
  refine ⟨t, ?_⟩
  rw [eval_look, Parcel.header_name, hname, if_neg (by decide), if_pos rfl, Script.eval_map,
    Jxl.part, hneeded.eval_bind, beNumber,
    (Gives.number bigEndian hnumber none).eval_bind, hpayload,
    Nat.add_sub_cancel_left, htake.eval_bind]

theorem look_part_more (wide : Bool) (hnumber : number.length = 4)
    (unmarked : (bigEndian number).testBit 31 = false)
    (hshort : (codestream ++ part).length < longestHeader) :
    ((look (partBox wide number part).header codestream).eval ⟨number ++ part, none⟩).1 =
      .more (codestream ++ part) := by
  have hroom : codestream.length ≤ longestHeader := by
    rw [List.length_append] at hshort
    omega
  obtain ⟨t, hlook⟩ := eval_part wide hnumber hroom part
  rw [hlook, List.take_of_length_le (Nat.le_of_lt hshort)]
  dsimp only
  rw [if_neg (Nat.ne_of_lt hshort), unmarked]
  rfl

theorem look_part_done (wide : Bool) (hnumber : number.length = 4)
    (hroom : codestream.length ≤ longestHeader)
    (h : (bigEndian number).testBit 31 = true ∨ longestHeader ≤ (codestream ++ part).length) :
    ((look (partBox wide number part).header codestream).eval ⟨number ++ part, none⟩).1 =
      .done (gathered (codestream ++ part)) := by
  obtain ⟨t, hlook⟩ := eval_part wide hnumber hroom part
  rw [hlook, ← gathered_take]
  generalize hcollected : (codestream ++ part).take longestHeader = collected
  have hle : collected.length ≤ longestHeader := hcollected ▸ List.length_take_le _ _
  dsimp only
  rw [gathered, List.take_of_length_le hle]
  by_cases hfull : collected.length = longestHeader
  · rw [if_pos hfull, if_pos (hfull ▸ by decide)]
    rfl
  · have marked : (bigEndian number).testBit 31 = true := by
      apply h.resolve_right
      intro hlong
      exact hfull (hcollected ▸ List.length_take_of_le hlong)
    rw [if_neg hfull, marked, if_neg (by decide)]
    by_cases henough : shortestHeader ≤ collected.length
    · rw [if_pos henough, if_pos henough]
      rfl
    · rw [if_neg henough, if_neg henough]
      rfl

theorem comes_parted {codestream : Bytes} {ps : List Parcel} (h : Parted codestream ps)
    {before : Bytes} (hroom : before.length ≤ longestHeader) (t : Tape) :
    walk.ComesFrom before ⟨ps.flatMap Parcel.bytes ++ t.bytes, t.ending⟩
      (gathered (before ++ codestream)) := by
  induction h generalizing before with
  | @last wide number part hnumber marked fits =>
    rw [List.flatMap_singleton]
    exact .done (turn_done fits (look_part_done wide hnumber hroom (.inl marked)) t)
  | @part wide number part codestream ps hnumber unmarked fits rest ih =>
    rw [List.flatMap_cons, List.append_assoc, ← List.append_assoc before]
    rcases Nat.lt_or_ge (before ++ part).length longestHeader with hshort | hfull
    · have hlook := look_part_more wide hnumber unmarked hshort
      exact .more (turn_more fits hlook ⟨_, t.ending⟩) (ih (Nat.le_of_lt hshort))
    · have hlook := look_part_done wide hnumber hroom (.inr hfull)
      rw [gathered_append hfull]
      exact .done (turn_done fits hlook ⟨_, t.ending⟩)
  | @other p codestream ps foreign rest ih =>
    rw [List.flatMap_cons, List.append_assoc]
    exact .more (turn_more foreign.fits (look_foreign foreign before) ⟨_, t.ending⟩) (ih hroom)

/-- It does not show whether a codestream is in one box or in parts, however it is cut, whatever
boxes stand between the parts and whatever follows. -/
theorem decode_parted {codestream : Bytes} {ps qs : List Parcel} {p : Parcel}
    (hparts : Parted codestream ps) (hqs : ∀ q ∈ qs, Foreign q) (hp : p.Fits)
    (hname : p.name = ascii "jxlc") (hpayload : p.payload = codestream) {s : Session ρ}
    {s' : Session σ} {further further' : Bytes}
    (hs : (tape s.reader).bytes = signature ++ (ps.flatMap Parcel.bytes ++ further))
    (hs' : (tape s'.reader).bytes =
      signature ++ (qs.flatMap Parcel.bytes ++ (p.bytes ++ further'))) (stop stop' : Stop) :
    (decoder.decode stop s).1 = (decoder.decode stop' s').1 ∨
      Decoder.Halted stop (decoder.decode stop s).1 ∨
      Decoder.Halted stop' (decoder.decode stop' s').1 := by
  have hparted : walk.Comes (tape s.reader) (gathered codestream) := by
    have htape : tape s.reader =
        ⟨signature ++ (ps.flatMap Parcel.bytes ++ further), (tape s.reader).ending⟩ := by rw [← hs]
    rw [htape]
    exact .more (start_container ⟨_, (tape s.reader).ending⟩)
      (comes_parted hparts (Nat.zero_le _) ⟨further, (tape s.reader).ending⟩)
  have hwhole : walk.Comes (tape s'.reader) (gathered codestream) := by
    have htape : tape s'.reader =
        ⟨signature ++ (qs.flatMap Parcel.bytes ++ (p.bytes ++ further')),
          (tape s'.reader).ending⟩ := by rw [← hs']
    rw [htape, ← hpayload]
    exact comes_whole hqs hp hname ⟨further', (tape s'.reader).ending⟩
  rcases decode_of_comes hparted stop with hres | hstop
  · rcases decode_of_comes hwhole stop' with hres' | hstop'
    · exact .inl (hres.trans hres'.symm)
    · exact .inr (.inr hstop')
  · exact .inr (.inl hstop)

def exif : Parcel := ⟨true, ascii "Exif", [0, 0, 0, 0, 73, 73, 42, 0]⟩

def fourParts : List Parcel :=
  [exif, partBox false [0, 0, 0, 7] [0xff], partBox true [0, 0, 0, 7] [], exif,
    partBox true [0, 0, 1, 0] [0x0a, 0x13], partBox false [0x80, 0, 0, 1] [0x1c]]

theorem exif_foreign : Foreign exif where
  fits := by decide +kernel
  whole := by decide
  part := by decide

theorem fourParts_parted : Parted ([0xff] ++ ([] ++ ([0x0a, 0x13] ++ [0x1c]))) fourParts :=
  .other exif_foreign <| .part rfl (by decide) (by decide) <|
    .part rfl (by decide) (by decide +kernel) <| .other exif_foreign <|
      .part rfl (by decide) (by decide +kernel) <| .last rfl (by decide) (by decide)

theorem decode_parted_fourParts :
    let p : Parcel := ⟨false, ascii "jxlc", [0xff, 0x0a, 0x13, 0x1c]⟩
    let s : Session Source :=
      ⟨⟨⟨signature ++ (fourParts.flatMap Parcel.bytes ++ [9, 9]), none⟩, fun _ => 1,
        fun _ => some 1, 0, 0, 0⟩, 0, []⟩
    let s' : Session Tape := ⟨⟨signature ++ ([exif].flatMap Parcel.bytes ++ (p.bytes ++ [])), none⟩, 0, []⟩
    (decoder.decode .never s).1 = (decoder.decode .never s').1 ∧
      (decoder.decode .never s').1 = .ok ⟨.jxl, 120, 80⟩ := by
  intro p s s'
  have hwhole : (decoder.decode .never s').1 = .ok ⟨.jxl, 120, 80⟩ := by decide +kernel
  have hqs : ∀ q ∈ [exif], Foreign q := by
    intro q hq
    rw [List.mem_singleton.1 hq]
    exact exif_foreign
  have hparts : (tape s.reader).bytes =
      signature ++ (fourParts.flatMap Parcel.bytes ++ [9, 9]) := rfl
  have hbox : (tape s'.reader).bytes =
      signature ++ ([exif].flatMap Parcel.bytes ++ (p.bytes ++ [])) := rfl
  have hsame := decode_parted fourParts_parted hqs (show p.Fits by decide) rfl rfl hparts hbox
    .never .never
  refine ⟨?_, hwhole⟩
  exact hsame.resolve_right fun h => h.elim (Decoder.not_halted_never _) (Decoder.not_halted_never _)

end Jxl

end ImageProbe
