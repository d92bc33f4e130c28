import ImageProbe.Proofs.Box.Opened
import ImageProbe.Proofs.Jxl.Container
import ImageProbe.Proofs.Jxl.SizeHeader

namespace ImageProbe

open Box ByteReader

namespace Jxl

open Reading

variable {p : Parcel} {ρ : Type} [ByteReader ρ]

def windowed (codestream : Bytes) : Outcome :=
  if longestHeader ≤ codestream.length then .ok (codestream.take longestHeader)
  else .error .endOfData

theorem eval_take_window {n : Nat} (before bs : Bytes) (hroom : before.length ≤ longestHeader)
    (hn : longestHeader - before.length ≤ n) :
    ((take n before).run.eval ⟨bs, none⟩).1 = windowed (before ++ bs) := by
  rw [windowed, List.length_append]
  by_cases hlong : longestHeader ≤ before.length + bs.length
  · have hroom' : min n (longestHeader - before.length) ≤ bs.length := by omega
    have htake := take_gives before hroom' none
    rw [Nat.min_eq_right hn] at htake
    rw [Gives] at htake
    rw [htake, if_pos hlong, List.take_append, List.take_of_length_le hroom]
  · have hshort := eval_exactly_short (t := ⟨bs, none⟩) (n := longestHeader - before.length)
      (by dsimp only; omega)
    rw [if_neg hlong, take, Nat.min_eq_right hn, eval_bind_error hshort, Tape.haul, ite_self]
    rfl

theorem settle_done (o : Outcome) :
    Step.settle (o.map .done) = (.done o : Step Bytes Outcome) := by
  cases o with
  | error e => rfl
  | ok codestream => rfl

theorem comes_bare {codestream : Bytes} (hmarker : codestream.take 2 = marker) :
    walk.Comes ⟨codestream, none⟩ (windowed codestream) := by
  have hlen : 2 ≤ codestream.length := by
    have hlen := congrArg List.length hmarker
    rw [List.length_take] at hlen
    exact Nat.le_trans (Nat.le_of_eq hlen.symm) (Nat.min_le_right _ _)
  have hfirst := Gives.first hlen none
  have hwindow := eval_take_window marker (codestream.drop 2) (by decide)
    (Nat.sub_le longestHeader _)
  rw [← hmarker, List.take_append_drop, hmarker] at hwindow
  rw [hmarker] at hfirst
  apply Walk.Comes.done
  change ((Step.settle <$> start.run).eval _).1 = _
  rw [Script.eval_map, start, hfirst.eval_bind, if_pos rfl, eval_map, hwindow]
  exact settle_done _

theorem look_opened (hname : p.name = ascii "jxlc") :
    ((look p.openHeader []).eval ⟨p.payload, none⟩).1 = .done (windowed p.payload) := by
  have hlong : p.openHeader.payload = range64 - 9 := rfl
  have hname' : p.openHeader.name = ascii "jxlc" := hname
  have hroom : longestHeader - ([] : Bytes).length ≤ p.openHeader.payload := by
    rw [hlong]
    decide
  have hwindow := eval_take_window [] p.payload (Nat.zero_le _) hroom
  have hneeded : (require .jxl (shortestHeader ≤ p.openHeader.payload)
      .invalidCodestreamBox).Gives ⟨p.payload, none⟩ () ⟨p.payload, none⟩ :=
    Gives.require _ (decide_eq_true (Nat.le_trans (by decide) hroom)) _ _
  rw [eval_look, if_pos hname', Script.eval_map, whole, hneeded.eval_bind, eval_map, hwindow]
  exact settle_done _

theorem turn_opened (hp : p.Fits) (hname : p.name = ascii "jxlc") :
    ((walk.turn []).eval ⟨p.opened, none⟩).1 = .done (windowed p.payload) := by
  obtain ⟨hhaul, hdrop, hlong⟩ := Parcel.haul_opened hp
  have hheader := p.openHeader_gives .jxl ⟨p.payload, none⟩
  rw [Gives] at hheader
  change ((Script.fetch headLength fun haul => if haul.bytes.length < headLength then
    .done <$> walk.close [] haul.shortage else box haul.bytes []).eval _).1 = _
  rw [Script.eval, hhaul, hdrop, if_neg hlong, box, Script.eval_bind,
    hheader]
  exact visit_done_open (Parcel.payload_le_open hp) (look_opened hname)

theorem comes_opened {ps : List Parcel} (hps : ∀ q ∈ ps, Foreign q) (hp : p.Fits)
    (hname : p.name = ascii "jxlc") :
    walk.Comes ⟨signature ++ (ps.flatMap Parcel.bytes ++ p.opened), none⟩ (windowed p.payload) :=
  .more (start_container ⟨_, none⟩)
    (comes_foreign (t := ⟨p.opened, none⟩) hps (.done (turn_opened hp hname)))

theorem length_of_size {codestream : Bytes} {width height : Nat}
    (h : size codestream = .ok (width, height)) :
    shortestHeader ≤ codestream.length ∧ codestream.take 2 = marker := by
  unfold size at h
  split at h
  · cases h
  rename_i hlong
  split at h
  · cases h
  rename_i hmarker
  exact ⟨Nat.le_of_not_lt hlong, not_not.1 hmarker⟩

variable {codestream : Bytes} {width height : Nat}

theorem verdict_window (h : size codestream = .ok (width, height)) :
    verdict (.ok (codestream.take longestHeader)) = .ok ⟨.jxl, width, height⟩ := by
  rw [verdict, size_take h]

/-- A codestream with a whole header is measured when the length of its box is told. On its own, or
in a box that runs to the end of the data, it is measured exactly if it is as long as the longest
header. -/
theorem decode_wrapped (hsize : size codestream = .ok (width, height)) {ps : List Parcel}
    (hps : ∀ q ∈ ps, Foreign q) (hp : p.Fits) (hname : p.name = ascii "jxlc")
    (hpayload : p.payload = codestream) {bare boxed opened : Session ρ}
    (hbare : tape bare.reader = ⟨codestream, none⟩)
    (hboxed : tape boxed.reader = ⟨signature ++ (ps.flatMap Parcel.bytes ++ p.bytes), none⟩)
    (hopened : tape opened.reader = ⟨signature ++ (ps.flatMap Parcel.bytes ++ p.opened), none⟩)
    (stop : Stop) :
    ((decoder.decode stop boxed).1 = .ok ⟨.jxl, width, height⟩ ∨
      Decoder.Halted stop (decoder.decode stop boxed).1) ∧
    ∀ s ∈ [bare, opened],
      (decoder.decode stop s).1 = (if longestHeader ≤ codestream.length then
        .ok ⟨.jxl, width, height⟩ else .error .endOfData) ∨
      Decoder.Halted stop (decoder.decode stop s).1 := by
  obtain ⟨hlong, hmarker⟩ := length_of_size hsize
  have hgathered : verdict (gathered codestream) = .ok ⟨.jxl, width, height⟩ := by
    rw [gathered, if_pos hlong, verdict_window hsize]
  have hwindowed : verdict (windowed codestream) = if longestHeader ≤ codestream.length then
      .ok ⟨.jxl, width, height⟩ else .error .endOfData := by
    rw [windowed]
    split
    · exact verdict_window hsize
    · rfl
  constructor
  · have hcomes := comes_whole hps hp hname ⟨[], none⟩
    rw [List.append_nil, hpayload, ← hboxed] at hcomes
    rw [← hgathered]
    exact decode_of_comes hcomes stop
  · rw [← hwindowed]
    have hcomes := comes_bare hmarker
    have hcomes' := comes_opened hps hp hname
    rw [← hbare] at hcomes
    rw [hpayload, ← hopened] at hcomes'
    simp only [List.forall_mem_cons, List.not_mem_nil, false_implies, implies_true, and_true]
    exact ⟨decode_of_comes hcomes stop, decode_of_comes hcomes' stop⟩

def typeBox : Parcel := ⟨false, ascii "ftyp", ascii "jxl " ++ [0, 0, 0, 0] ++ ascii "jxl "⟩

theorem typeBox_foreign : ∀ q ∈ [typeBox], Foreign q := by
  intro q hq
  rw [List.mem_singleton.1 hq]
  exact ⟨by decide, by decide, by decide⟩

theorem decode_wrapped_longest :
    let codestream : Bytes := [0xff, 0x0a, 0xfe, 0x34, 0x0c, 0x00, 0xf0, 0x4f, 0xc3, 0x00, 0x00]
    let p : Parcel := ⟨false, ascii "jxlc", codestream⟩
    let first := signature ++ [typeBox].flatMap Parcel.bytes
    let decoded (bs : Bytes) := (decoder.decode .never ⟨(⟨bs, none⟩ : Tape), 0, []⟩).1
    decoded codestream = .ok ⟨.jxl, 200000, 100000⟩ ∧
      decoded (first ++ p.bytes) = .ok ⟨.jxl, 200000, 100000⟩ ∧
      decoded (first ++ p.opened) = .ok ⟨.jxl, 200000, 100000⟩ := by
  intro codestream p first decoded
  have hsize : size codestream = .ok (200000, 100000) := by decide +kernel
  let session (bs : Bytes) : Session Tape := ⟨⟨bs, none⟩, 0, []⟩
  have hbare : tape (session codestream).reader = ⟨codestream, none⟩ := rfl
  have hboxed : tape (session (first ++ p.bytes)).reader =
    ⟨signature ++ ([typeBox].flatMap Parcel.bytes ++ p.bytes), none⟩ := rfl
  have hopened : tape (session (first ++ p.opened)).reader =
    ⟨signature ++ ([typeBox].flatMap Parcel.bytes ++ p.opened), none⟩ := rfl
  obtain ⟨htold, hrest⟩ := decode_wrapped hsize typeBox_foreign (show p.Fits by decide) rfl rfl
    hbare hboxed hopened .never
  simp only [List.forall_mem_cons, List.not_mem_nil, false_implies, implies_true, and_true] at hrest
  exact ⟨hrest.1.resolve_right (Decoder.not_halted_never _),
    htold.resolve_right (Decoder.not_halted_never _),
    hrest.2.resolve_right (Decoder.not_halted_never _)⟩

theorem wrapped_differs :
    let codestream : Bytes := [0xff, 0x0a, 0x13, 0x1c]
    let p : Parcel := ⟨false, ascii "jxlc", codestream⟩
    let decoded (bs : Bytes) := (decoder.decode .never ⟨(⟨bs, none⟩ : Tape), 0, []⟩).1
    size codestream = .ok (120, 80) ∧
      decoded (signature ++ (typeBox.bytes ++ p.bytes)) = .ok ⟨.jxl, 120, 80⟩ ∧
      decoded (signature ++ (typeBox.bytes ++ p.opened)) = .error .endOfData ∧
      decoded codestream = .error .endOfData := by
  refine ⟨rfl, ?_, ?_, ?_⟩ <;> decide +kernel

end Jxl

end ImageProbe
