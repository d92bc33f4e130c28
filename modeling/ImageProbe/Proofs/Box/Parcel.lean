import ImageProbe.Proofs.Box.Visit
import ImageProbe.Proofs.Bytes

namespace ImageProbe

namespace Box

open Reading

/-- A closed box as it is written; a wide one tells its size in eight bytes. -/
structure Parcel where
  wide : Bool
  name : Bytes
  payload : Bytes

namespace Parcel

def header (p : Parcel) : Header :=
  if p.wide then ⟨p.name, 16 + p.payload.length, 16⟩ else ⟨p.name, 8 + p.payload.length, 8⟩

def head (p : Parcel) : Bytes := toBigEndian 4 (if p.wide then 1 else p.header.size) ++ p.name

def tail (p : Parcel) : Bytes := (if p.wide then toBigEndian 8 p.header.size else []) ++ p.payload

def bytes (p : Parcel) : Bytes := p.head ++ p.tail

structure Fits (p : Parcel) : Prop where
  name : p.name.length = 4
  size : p.header.size < if p.wide then range64 else range32

instance (p : Parcel) : Decidable p.Fits :=
  decidable_of_iff (p.name.length = 4 ∧ p.header.size < if p.wide then range64 else range32)
    ⟨fun ⟨name, size⟩ => ⟨name, size⟩, fun ⟨name, size⟩ => ⟨name, size⟩⟩

variable {p : Parcel}

@[simp] theorem header_name (p : Parcel) : p.header.name = p.name := by
  rw [header]
  split <;> rfl

@[simp] theorem header_payload (p : Parcel) : p.header.payload = p.payload.length := by
  rw [header, Header.payload]
  split
  · exact Nat.add_sub_cancel_left 16 _
  · exact Nat.add_sub_cancel_left 8 _

theorem length_head (hp : p.Fits) : p.head.length = headLength := by
  rw [head, List.length_append, length_toBigEndian, hp.name]
  rfl

theorem length_bytes (hp : p.Fits) : headLength ≤ p.bytes.length := by
  rw [bytes, List.length_append, length_head hp]
  exact Nat.le_add_right _ _

theorem length_bytes_congr (wide : Bool) (name : Bytes) {payload payload' : Bytes}
    (h : payload.length = payload'.length) :
    (Parcel.mk wide name payload).bytes.length = (Parcel.mk wide name payload').bytes.length := by
  cases wide <;> simp [bytes, head, tail, length_toBigEndian, h]

theorem bytes_append_ne_nil (hp : p.Fits) (rest : Bytes) : p.bytes ++ rest ≠ [] := by
  have hlen := length_bytes hp
  intro hnil
  rw [(List.append_eq_nil_iff.1 hnil).1] at hlen
  exact absurd hlen (by decide)

theorem Fits.of_shorter {wide : Bool} {name payload payload' : Bytes}
    (hp : (Parcel.mk wide name payload).Fits) (h : payload'.length ≤ payload.length) :
    (Parcel.mk wide name payload').Fits := by
  refine ⟨hp.name, Nat.lt_of_le_of_lt ?_ hp.size⟩
  cases wide with
  | true => exact Nat.add_le_add_left h 16
  | false => exact Nat.add_le_add_left h 8

theorem header_gives (hp : p.Fits) (format : ImageFormat) (rest : Bytes) (e : Option Fault) :
    (Box.header format p.head).Gives ⟨p.tail ++ rest, e⟩ p.header ⟨p.payload ++ rest, e⟩ := by
  have htake : p.head.take 4 = toBigEndian 4 (if p.wide then 1 else p.header.size) :=
    List.take_left' (length_toBigEndian _ _)
  have hdrop : p.head.drop 4 = p.name := List.drop_left' (length_toBigEndian _ _)
  have hsize := hp.size
  unfold Box.header tail
  rw [htake, hdrop]
  obtain ⟨wide, name, payload⟩ := p
  cases wide with
  | true =>
    simp only [header, if_true] at hsize ⊢
    rw [bigEndian_toBigEndian (by decide), if_neg (by decide), if_pos rfl, List.append_assoc]
    refine Gives.bind (Gives.number bigEndian (length_toBigEndian _ _) e) ?_
    rw [bigEndian_toBigEndian hsize]
    exact Gives.bind (Gives.require format (decide_eq_true (Nat.le_add_right _ _)) _ _) (.pure _ _)
  | false =>
    simp only [header, Bool.false_eq_true, if_false] at hsize ⊢
    rw [bigEndian_toBigEndian hsize, if_neg (by omega), if_neg (by omega)]
    exact Gives.bind (Gives.require format (decide_eq_true (Nat.le_add_right _ _)) _ _) (.pure _ _)

end Parcel

theorem haul_bytes {p : Parcel} (hp : p.Fits) (t : Tape) :
    (Tape.mk (p.bytes ++ t.bytes) t.ending).haul headLength = ⟨p.head, none⟩ ∧
      (Tape.mk (p.bytes ++ t.bytes) t.ending).drop headLength = ⟨p.tail ++ t.bytes, t.ending⟩ := by
  have hhead := Parcel.length_head hp
  have hlen : headLength ≤ (p.bytes ++ t.bytes).length := by
    rw [List.length_append]
    exact Nat.le_add_right_of_le (Parcel.length_bytes hp)
  rw [Tape.haul, Tape.drop, if_neg (Nat.not_lt.2 hlen), Parcel.bytes, List.append_assoc]
  exact ⟨congrArg (Haul.mk · none) (List.take_left' hhead),
    congrArg (Tape.mk · t.ending) (List.drop_left' hhead)⟩

end Box

end ImageProbe
