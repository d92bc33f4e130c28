import ImageProbe.Proofs.Agree
import ImageProbe.Proofs.Tiff.Scan

namespace ImageProbe

namespace Tiff

open ByteReader Reading

namespace ByteOrder

def mark : ByteOrder → Bytes
  | little => [0x49, 0x49, 0x2a, 0]
  | big => [0x4d, 0x4d, 0, 0x2a]

def write : ByteOrder → Nat → Nat → Bytes
  | little => toLittleEndian
  | big => toBigEndian

variable (order : ByteOrder)

@[simp] theorem byteOrder?_mark : byteOrder? order.mark = some order := by
  cases order <;> rfl

@[simp] theorem length_write (width n : Nat) : (order.write width n).length = width := by
  cases order with
  | little => exact length_toLittleEndian width n
  | big => exact length_toBigEndian width n

theorem number_write {width n : Nat} (h : n < span width) :
    order.number (order.write width n) = n := by
  cases order with
  | little => exact (littleEndian_toLittleEndian width n).trans (Nat.mod_eq_of_lt h)
  | big => exact bigEndian_toBigEndian h

end ByteOrder

inductive FieldType
  | byte
  | short
  | long

namespace FieldType

def code : FieldType → Nat
  | byte => 1
  | short => 3
  | long => 4

def width : FieldType → Nat
  | byte => 1
  | short => 2
  | long => 4

theorem width_le (type : FieldType) : type.width ≤ 4 := by
  cases type <;> decide

theorem code_lt (type : FieldType) : type.code < span 2 := by
  cases type <;> decide

end FieldType

def Side.tag : Side → Nat
  | width => widthTag
  | height => heightTag

theorem Side.tag_lt (side : Side) : side.tag < span 2 := by
  cases side <;> decide

theorem Side.tag_cases (side : Side) : side.tag = widthTag ∨ side.tag = heightTag := by
  cases side
  · exact .inl rfl
  · exact .inr rfl

theorem Side.pair_updated (side : Side) (found : Side → Nat) (n : Nat) :
    (if side.tag = widthTag then (n, found .height) else (found .width, n)) =
      (Function.update found side n .width, Function.update found side n .height) := by
  cases side <;> rfl

theorem tag_of_side {order : ByteOrder} {entry : Bytes} {side : Side}
    (h : side? order entry = some side) : order.number (slice entry 0 2) = side.tag := by
  unfold side? at h
  split at h
  · rename_i hwidth
    cases h
    exact hwidth
  split at h
  · rename_i hheight
    cases h
    exact hheight
  · exact nomatch h

theorem tag_of_no_side {order : ByteOrder} {entry : Bytes} (h : side? order entry = none) :
    ¬ (order.number (slice entry 0 2) = widthTag ∨ order.number (slice entry 0 2) = heightTag) := by
  unfold side? at h
  split at h
  · exact nomatch h
  split at h
  · exact nomatch h
  · rename_i hwidth hheight
    exact not_or.2 ⟨hwidth, hheight⟩

abbrev Field (width : Nat) := Fin (span width)

abbrev Content (n : Nat) := {bs : Bytes // bs.length = n}

/-- A directory entry before it is written. What is behind a value, and the content of an entry that
is no dimension, may be laid out in each byte order as it likes. -/
inductive Entry
  | dimension (side : Side) (type : FieldType) (count : Field 4) (n : Field type.width)
    (behind : ByteOrder → Content (4 - type.width))
  | other (tag type : Field 2) (hwidth : tag.val ≠ widthTag) (hheight : tag.val ≠ heightTag)
    (count : Field 4) (content : ByteOrder → Content 4)

namespace Entry

def bytes (order : ByteOrder) : Entry → Bytes
  | dimension side type count n behind =>
    order.write 2 side.tag ++ (order.write 2 type.code ++ (order.write 4 count ++
      (order.write type.width n ++ (behind order).val)))
  | other tag type _ _ count content =>
    order.write 2 tag ++ (order.write 2 type ++ (order.write 4 count ++ (content order).val))

def told : Entry → Option (Side × Nat)
  | dimension side _ _ n _ => some (side, n)
  | other .. => none

variable (order : ByteOrder)

@[simp] theorem length_bytes (entry : Entry) : (entry.bytes order).length = entryLength := by
  cases entry with
  | dimension side type count n behind =>
    have hwidth := type.width_le
    simp only [bytes, List.length_append, ByteOrder.length_write, (behind order).2, entryLength]
    omega
  | other tag type hwidth hheight count content =>
    simp only [bytes, List.length_append, ByteOrder.length_write, (content order).2, entryLength]

theorem slice_fields {tag type : Bytes} (htag : tag.length = 2) (htype : type.length = 2)
    (count rest : Bytes) : slice (tag ++ (type ++ (count ++ rest))) 0 2 = tag ∧
      slice (tag ++ (type ++ (count ++ rest))) 2 2 = type := by
  constructor
  · exact slice_field (rfl : ([] : Bytes).length = 0) htag _
  · exact slice_field htag htype _

theorem tell_bytes (entry : Entry) : tell order (entry.bytes order) = entry.told := by
  cases entry with
  | dimension side type count n behind =>
    obtain ⟨htag, htype⟩ := slice_fields (order.length_write 2 side.tag)
      (order.length_write 2 type.code) (order.write 4 count)
      (order.write type.width n ++ (behind order).val)
    have hside : side? order ((dimension side type count n behind).bytes order) = some side := by
      rw [side?, bytes, htag, order.number_write side.tag_lt]
      cases side <;> rfl
    have hfront : (order.write 2 side.tag ++ (order.write 2 type.code ++
        order.write 4 count)).length = 8 := by
      simp only [List.length_append, ByteOrder.length_write]
    have hn : slice ((dimension side type count n behind).bytes order) 8 type.width =
        order.write type.width n := by
      have hfield := slice_field hfront (order.length_write type.width n) (behind order).val
      simpa only [bytes, List.append_assoc] using hfield
    have hvalue : value order ((dimension side type count n behind).bytes order) = .ok n.val := by
      have hcode : order.number (slice ((dimension side type count n behind).bytes order) 2 2) =
          type.code := by rw [bytes, htype, order.number_write type.code_lt]
      rw [value, hcode]
      have hnumber := (congrArg order.number hn).trans (order.number_write n.2)
      cases type <;> exact congrArg Except.ok hnumber
    rw [tell, hside, hvalue, told]
  | other tag type hwidth hheight count content =>
    obtain ⟨htag, -⟩ := slice_fields (order.length_write 2 tag) (order.length_write 2 type)
      (order.write 4 count) (content order).val
    rw [tell, side?, bytes, htag, order.number_write tag.2, if_neg hwidth, if_neg hheight, told]

theorem legible_bytes (entry : Entry) : Legible order (entry.bytes order) := by
  have htell := entry.tell_bytes order
  cases entry with
  | dimension => exact legible_of_tell (length_bytes order _) htell
  | other tag type hwidth hheight count content =>
    refine ⟨length_bytes order _, .inl ?_⟩
    rw [side?, bytes, (slice_fields (order.length_write 2 tag) (order.length_write 2 type) _ _).1,
      order.number_write tag.2, if_neg hwidth, if_neg hheight]

end Entry

def answer : Option (Nat × Nat) → Except ProbeError ImageInfo
  | some (width, height) => .ok ⟨.tiff, width, height⟩
  | none => .error (.malformed .tiff .dimensionsMissing)

theorem outcome_entry (stop : Stop) {order : ByteOrder} {entry : Bytes} (h : Legible order entry)
    (left : Nat) (found : Side → Nat) (t : Tape) (k : Nat) :
    (entries order (left + 1) (found .width) (found .height)).run.outcome stop
        ⟨entry ++ t.bytes, t.ending⟩ k =
      (stop k).elim
        ((tell order entry).elim
          ((entries order left (found .width) (found .height)).run.outcome stop t (k + 1))
          fun d =>
            let found := Function.update found d.1 d.2
            (extent found).elim
              ((entries order left (found .width) (found .height)).run.outcome stop t (k + 1))
              fun size => (answer (some size), t, k + 1))
        fun why => (.error (.stopped why), ⟨entry ++ t.bytes, t.ending⟩, k + 1) := by
  obtain ⟨hlength, hvalue⟩ := h
  have hread : (exactly entryLength).Gives ⟨entry ++ t.bytes, t.ending⟩ entry t :=
    .exactly hlength t.ending
  rw [entries, outcome_bind_check]
  congr 1
  rw [outcome_bind_gives stop (.exactly entryLength) hread]
  dsimp only
  rcases hside : side? order entry with _ | side
  · have htell : tell order entry = none := by rw [tell, hside]
    rw [if_neg (tag_of_no_side hside), htell]
    rfl
  obtain ⟨n, hn⟩ := hvalue.resolve_left (by rw [hside]; exact Option.some_ne_none side)
  have htell : tell order entry = some (side, n) := by rw [tell, hside, hn]
  rw [tag_of_side hside, if_pos side.tag_cases, dimension, hn, htell, Option.elim_some]
  dsimp only
  rw [outcome_bind_gives stop (.pure n) (.pure n t), side.pair_updated, extent]
  split
  · rfl
  · rfl

def written (order : ByteOrder) (listed : List Entry) : Bytes :=
  (listed.map (Entry.bytes order)).flatten

theorem outcome_written (stop : Stop) (listed : List Entry) (found : Side → Nat) (k : Nat) :
    (∃ i why, stop i = some why ∧ ∀ (order : ByteOrder) (t : Tape),
      ((entries order listed.length (found .width) (found .height)).run.outcome stop
        ⟨written order listed ++ t.bytes, t.ending⟩ k).1 = .error (.stopped why)) ∨
    ∀ (order : ByteOrder) (t : Tape),
      ((entries order listed.length (found .width) (found .height)).run.outcome stop
        ⟨written order listed ++ t.bytes, t.ending⟩ k).1 =
          answer (report found (listed.filterMap Entry.told)) := by
  induction listed generalizing found k with
  | nil => exact .inr fun order t => rfl
  | cons entry listed ih =>
    have hstep (order : ByteOrder) (t : Tape) := outcome_entry stop
      (entry.legible_bytes order) listed.length found
      ⟨written order listed ++ t.bytes, t.ending⟩ k
    have hwritten (order : ByteOrder) (t : Tape) : written order (entry :: listed) ++ t.bytes =
        entry.bytes order ++ (written order listed ++ t.bytes) := by
      rw [written, List.map_cons, List.flatten_cons, List.append_assoc, written]
    simp only [Entry.tell_bytes] at hstep
    simp only [hwritten, List.length_cons, hstep]
    cases hk : stop k with
    | some why => exact .inl ⟨k, why, hk, fun order t => rfl⟩
    | none =>
      rcases htold : entry.told with _ | ⟨side, n⟩
      · rw [List.filterMap_cons_none htold]
        exact ih found (k + 1)
      rw [List.filterMap_cons_some htold, report]
      simp only [Option.elim]
      rcases extent (Function.update found side n) with _ | size
      · exact ih (Function.update found side n) (k + 1)
      · exact .inr fun order t => rfl

def file (order : ByteOrder) (padding : Bytes) (listed : List Entry) (behind : Bytes) : Bytes :=
  order.mark ++ (order.write 4 (8 + padding.length) ++ (padding ++
    (order.write 2 listed.length ++ (written order listed ++ behind))))

theorem file_directory (order : ByteOrder) {padding : Bytes} (hoffset : 8 + padding.length < range32)
    {listed : List Entry} (hcount : listed.length ≤ 65535) (behind : Bytes) :
    Directory order listed.length (written order listed ++ behind) (file order padding listed behind) :=
  .at_offset order.byteOrder?_mark (order.length_write 4 _) (order.number_write hoffset)
    (order.length_write 2 _) (order.number_write (Nat.lt_of_le_of_lt hcount (by decide)))

variable {ρ σ : Type} [ByteReader ρ] [ByteReader σ]

/-- A directory is read alike in both byte orders, whatever stops the scan: unless it is stopped, it
comes to the size at the first dimension behind which both sides are known, each as it was told last,
or else to the error that tells that there is none. -/
theorem decode_either_order {listed : List Entry} (hcount : listed.length ≤ 65535) {padding : Bytes}
    (hoffset : 8 + padding.length < range32) {s : Session ρ} {s' : Session σ} {behind behind' : Bytes}
    (hlittle : (tape s.reader).bytes = file .little padding listed behind)
    (hbig : (tape s'.reader).bytes = file .big padding listed behind') (hchecks : s.checks = s'.checks)
    (stop : Stop) :
    let out := (decoder.decode stop s).1
    let out' := (decoder.decode stop s').1
    out = out' ∧ (Decoder.Halted stop out ∨
      out = answer (report (fun _ => 0) (listed.filterMap Entry.told))) := by
  intro out out'
  have hout : out = _ := Decoder.decode_outcome reading stop s
  have hout' : out' = _ := Decoder.decode_outcome reading stop s'
  have hdirectory := hlittle ▸ file_directory .little hoffset hcount behind
  have hdirectory' := hbig ▸ file_directory .big hoffset hcount behind'
  have hreading := outcome_reading stop hdirectory (tape s.reader).ending s.checks
  have hreading' := outcome_reading stop hdirectory' (tape s'.reader).ending s.checks
  rw [← hchecks, hreading'] at hout'
  rw [hreading] at hout
  rcases outcome_written stop listed (fun _ => 0) s.checks with
    ⟨i, why, hi, hstopped⟩ | hreported
  · rw [hstopped .little ⟨behind, (tape s.reader).ending⟩] at hout
    rw [hstopped .big ⟨behind', (tape s'.reader).ending⟩] at hout'
    exact ⟨hout.trans hout'.symm, .inl ⟨i, why, hi, hout⟩⟩
  · rw [hreported .little ⟨behind, (tape s.reader).ending⟩] at hout
    rw [hreported .big ⟨behind', (tape s'.reader).ending⟩] at hout'
    exact ⟨hout.trans hout'.symm, .inr hout⟩

def listedWidths : List Entry :=
  [.other ⟨254, by decide⟩ ⟨11, by decide⟩ (by decide) (by decide) ⟨7, by decide⟩ fun
      | .little => ⟨[1, 2, 3, 4], rfl⟩
      | .big => ⟨[9, 9, 9, 9], rfl⟩,
    .dimension .height .long ⟨1, by decide⟩ ⟨70000, by decide⟩ fun _ => ⟨[], rfl⟩,
    .dimension .width .short ⟨0, by decide⟩ ⟨0, by decide⟩ fun _ => ⟨[1, 0], rfl⟩,
    .dimension .width .short ⟨1, by decide⟩ ⟨640, by decide⟩ fun
      | .little => ⟨[0, 0], rfl⟩
      | .big => ⟨[255, 1], rfl⟩,
    .dimension .height .byte ⟨1, by decide⟩ ⟨5, by decide⟩ fun _ => ⟨[0, 0, 0], rfl⟩]

theorem decode_either_order_padded :
    let little : Tape := ⟨file .little [0xaa, 0xbb] listedWidths [], none⟩
    let big : Tape := ⟨file .big [0xaa, 0xbb] listedWidths [1, 2], none⟩
    listedWidths.length ≤ 65535 ∧ 8 + [0xaa, 0xbb].length < range32 ∧
      (decoder.decode .never (⟨little, 0, []⟩ : Session Tape)).1 = .ok ⟨.tiff, 640, 70000⟩ ∧
      (decoder.decode .never (⟨big, 0, []⟩ : Session Tape)).1 = .ok ⟨.tiff, 640, 70000⟩ := by
  intro little big
  have hcount : listedWidths.length ≤ 65535 := by decide
  have hoffset : 8 + [0xaa, 0xbb].length < range32 := by decide
  have hreport : answer (report (fun _ => 0) (listedWidths.filterMap Entry.told)) =
      .ok ⟨.tiff, 640, 70000⟩ := by decide
  have hlittle : (tape (⟨little, 0, []⟩ : Session Tape).reader).bytes = little.bytes := rfl
  have hbig : (tape (⟨big, 0, []⟩ : Session Tape).reader).bytes = big.bytes := rfl
  obtain ⟨hsame, hhalted | hout⟩ := decode_either_order hcount hoffset hlittle hbig rfl .never
  · exact absurd hhalted (Decoder.not_halted_never _)
  · have hresult := hout.trans hreport
    exact ⟨hcount, hoffset, hresult, hsame.symm.trans hresult⟩

end Tiff

end ImageProbe
