import Mathlib.Logic.Function.Basic
import ImageProbe.Proofs.Agree
import ImageProbe.Proofs.Bytes
import ImageProbe.Proofs.Prompt.Decoders
import ImageProbe.Proofs.Unstopped
import ImageProbe.Tiff

namespace ImageProbe

namespace Tiff

open ByteReader Reading

inductive Side
  | width
  | height
  deriving DecidableEq

def side? (order : ByteOrder) (entry : Bytes) : Option Side :=
  if order.number (slice entry 0 2) = widthTag then some .width
  else if order.number (slice entry 0 2) = heightTag then some .height
  else none

/-- What so many entries at the front of some bytes tell about the sides, up to one that is not
whole or whose type is not supported. -/
def told (order : ByteOrder) : Nat → Bytes → List (Side × Nat)
  | 0, _ => []
  | left + 1, bs =>
    if bs.length < entryLength then []
    else match side? order (bs.take entryLength), value order (bs.take entryLength) with
      | none, _ => told order left (bs.drop entryLength)
      | some side, .ok n => (side, n) :: told order left (bs.drop entryLength)
      | some _, .error _ => []

def extent (found : Side → Nat) : Option (Nat × Nat) :=
  if 0 < found .width ∧ 0 < found .height then some (found .width, found .height) else none

/-- The first size that is known, if these sides have been found before. -/
def report (found : Side → Nat) : List (Side × Nat) → Option (Nat × Nat)
  | [] => none
  | (side, n) :: rest =>
    (extent (Function.update found side n)).or (report (Function.update found side n) rest)

theorem eval_entries (order : ByteOrder) (left : Nat) (found : Side → Nat) {t : Tape}
    (h : entryLength ≤ t.bytes.length) :
    let entry := t.bytes.take entryLength
    (entries order (left + 1) (found .width) (found .height)).run.eval t =
      match side? order entry, value order entry with
      | none, _ => (entries order left (found .width) (found .height)).run.eval (t.drop entryLength)
      | some _, .error _ =>
        (.error (.malformed .tiff .unsupportedFieldType), t.drop entryLength)
      | some side, .ok n =>
        let found := Function.update found side n
        if 0 < found .width ∧ 0 < found .height then
          (.ok ⟨.tiff, found .width, found .height⟩, t.drop entryLength)
        else (entries order left (found .width) (found .height)).run.eval (t.drop entryLength) := by
  intro entry
  have hread : (exactly entryLength).Gives t entry (t.drop entryLength) := Gives.first h t.ending
  rw [entries, (Gives.checkStop t).eval_bind, hread.eval_bind]
  dsimp only
  by_cases hwidth : order.number (slice entry 0 2) = widthTag
  · rw [if_pos (.inl hwidth), side?, if_pos hwidth, dimension]
    cases value order entry with
    | ok n =>
      rw [(Gives.pure n _).eval_bind]
      simp only [if_pos hwidth, Function.update_self,
        Function.update_of_ne (by decide : Side.height ≠ .width)]
      split
      · rfl
      · rfl
    | error type => rfl
  by_cases hheight : order.number (slice entry 0 2) = heightTag
  · rw [if_pos (.inr hheight), side?, if_neg hwidth, if_pos hheight, dimension]
    cases value order entry with
    | ok n =>
      rw [(Gives.pure n _).eval_bind]
      simp only [if_neg hwidth, Function.update_self,
        Function.update_of_ne (by decide : Side.width ≠ .height)]
      split
      · rfl
      · rfl
    | error type => rfl
  · rw [if_neg (not_or.2 ⟨hwidth, hheight⟩), side?, if_neg hwidth, if_neg hheight]

theorem entries_gives_iff (order : ByteOrder) (left : Nat) (found : Side → Nat) (t : Tape)
    (info : ImageInfo) :
    (∃ t', (entries order left (found .width) (found .height)).Gives t info t') ↔
      info.format = .tiff ∧
        report found (told order left t.bytes) = some (info.width, info.height) := by
  induction left generalizing found t with
  | zero =>
    constructor
    · rintro ⟨t', h⟩
      exact absurd h (not_gives_refuse _ _ _ _ _)
    · rintro ⟨-, h⟩
      cases h
  | succ left ih =>
    rw [told]
    split
    · rename_i hshort
      constructor
      · rintro ⟨t', h⟩
        obtain ⟨_, _, hcheck, h⟩ := Gives.of_bind h
        obtain rfl := Gives.of_checkStop hcheck
        obtain ⟨_, _, hentry, -⟩ := Gives.of_bind h
        exact absurd hshort (Nat.not_lt.2 (Gives.of_exactly hentry).1)
      · rintro ⟨-, h⟩
        cases h
    rename_i hlong
    have heval := eval_entries order left found (Nat.not_lt.1 hlong)
    simp only [Gives, heval]
    rcases side? order (t.bytes.take entryLength) with _ | side
    · exact ih found (t.drop entryLength)
    rcases value order (t.bytes.take entryLength) with type | n
    · constructor
      · rintro ⟨t', h⟩
        cases h
      · rintro ⟨-, h⟩
        cases h
    dsimp only
    rw [report, extent]
    split
    · constructor
      · rintro ⟨t', h⟩
        cases h
        exact ⟨rfl, rfl⟩
      · obtain ⟨format, width, height⟩ := info
        rintro ⟨rfl, h⟩
        obtain ⟨rfl, rfl⟩ := Prod.mk.inj (Option.some.inj h)
        exact ⟨_, rfl⟩
    · exact ih (Function.update found side n) (t.drop entryLength)

/-- The bytes begin with a header, and the directory that it points to has so many entries, which
begin there. -/
inductive Directory (order : ByteOrder) (count : Nat) (entries : Bytes) : Bytes → Prop
  | at_offset {mark offset padding number : Bytes} (hmark : byteOrder? mark = some order)
    (hoffset : offset.length = 4) (hplace : order.number offset = 8 + padding.length)
    (hnumber : number.length = 2) (hcount : order.number number = count) :
    Directory order count entries (mark ++ (offset ++ (padding ++ (number ++ entries))))

variable {order : ByteOrder}

theorem length_mark {mark : Bytes} (h : byteOrder? mark = some order) : mark.length = 4 := by
  unfold byteOrder? at h
  split at h
  · rename_i hlittle
    rw [hlittle]
    rfl
  split at h
  · rename_i hbig
    rw [hbig]
    rfl
  · exact nomatch h

theorem outcome_reading (stop : Stop) {count : Nat} {bs bytes : Bytes}
    (h : Directory order count bs bytes) (e : Option Fault) (k : Nat) :
    reading.run.outcome stop ⟨bytes, e⟩ k = (entries order count 0 0).run.outcome stop ⟨bs, e⟩ k := by
  obtain @⟨mark, offset, padding, number, hmark, hoffset, hplace, hnumber, hcount⟩ := h
  have hlen : (mark ++ offset).length = 8 := by
    rw [List.length_append, length_mark hmark, hoffset]
  have hoffsets : slice (mark ++ offset) 4 4 = offset := by
    have hlast := slice_field (length_mark hmark) hoffset []
    rwa [List.append_nil] at hlast
  have hskip : padding.length = 8 + padding.length - 8 := by omega
  have hnumbers : (order.number <$> exactly 2).Gives ⟨number ++ bs, e⟩ (order.number number)
      ⟨bs, e⟩ := .bind (.exactly hnumber e) (.pure _ _)
  have hquiet : Quiet (order.number <$> exactly 2) := .bind (.exactly 2) fun _ => .pure _
  rw [← List.append_assoc mark, reading, outcome_bind_gives stop (.exactly 8) (.exactly hlen e),
    List.take_left' (length_mark hmark), hmark]
  dsimp only
  rw [hoffsets, hplace, outcome_bind_gives stop (.require _ _ _)
      (.require .tiff (decide_eq_true (Nat.le_add_right 8 padding.length)) _ _),
    outcome_bind_gives stop (.skip _) (.skip hskip e), outcome_bind_gives stop hquiet hnumbers, hcount]

theorem eval_reading {count : Nat} {bs bytes : Bytes} (h : Directory order count bs bytes)
    (e : Option Fault) :
    reading.run.eval ⟨bytes, e⟩ = (entries order count 0 0).run.eval ⟨bs, e⟩ :=
  Script.eval_of_outcome (outcome_reading .never h e 0)

variable {ρ : Type} [ByteReader ρ]

theorem decode_directory {count : Nat} {bs : Bytes} {s : Session ρ}
    (h : Directory order count bs (tape s.reader).bytes) (stop : Stop) (info : ImageInfo) :
    Decoder.Halted stop (decoder.decode stop s).1 ∨
      ((decoder.decode stop s).1 = .ok info ↔ info.format = .tiff ∧
        report (fun _ => 0) (told order count bs) = some (info.width, info.height)) := by
  refine (Decoder.decode_reading_ok_iff reading_prompt.heeds stop s info).imp_right fun hok => ?_
  rw [← entries_gives_iff order count (fun _ => 0) ⟨bs, (tape s.reader).ending⟩ info]
  simp only [Gives] at hok ⊢
  rwa [← eval_reading h]

def Legible (order : ByteOrder) (entry : Bytes) : Prop :=
  entry.length = entryLength ∧ (side? order entry = none ∨ ∃ n, value order entry = .ok n)

def tell (order : ByteOrder) (entry : Bytes) : Option (Side × Nat) :=
  match side? order entry, value order entry with
  | some side, .ok n => some (side, n)
  | _, _ => none

theorem legible_of_tell {entry : Bytes} {d : Side × Nat} (hlength : entry.length = entryLength)
    (h : tell order entry = some d) : Legible order entry := by
  unfold tell at h
  split at h
  · rename_i hvalue
    exact ⟨hlength, .inr ⟨_, hvalue⟩⟩
  · exact nomatch h

theorem told_cons {entry : Bytes} (h : Legible order entry) (left : Nat) (bs : Bytes) :
    told order (left + 1) (entry ++ bs) = (tell order entry).toList ++ told order left bs := by
  obtain ⟨hlength, hvalue⟩ := h
  have hlong : ¬ (entry ++ bs).length < entryLength := by
    rw [List.length_append]
    omega
  rw [told, if_neg hlong, List.take_left' hlength, List.drop_left' hlength, tell]
  rcases hside : side? order entry with _ | side
  · rfl
  obtain ⟨n, hn⟩ := hvalue.resolve_left (by rw [hside]; exact nofun)
  rw [hn]
  rfl

theorem told_append {before : List Bytes} (h : ∀ entry ∈ before, Legible order entry) (left : Nat)
    (bs : Bytes) : told order (before.length + left) (before.flatten ++ bs) =
      before.filterMap (tell order) ++ told order left bs := by
  induction before with
  | nil => rw [List.length_nil, Nat.zero_add, List.flatten_nil, List.filterMap_nil,
      List.nil_append, List.nil_append]
  | cons entry before ih =>
    obtain ⟨hentry, hbefore⟩ := List.forall_mem_cons.1 h
    rw [List.length_cons, Nat.add_right_comm, List.flatten_cons, List.append_assoc,
      told_cons hentry, ih hbefore, List.filterMap_cons, ← List.append_assoc]
    cases tell order entry with
    | none => rfl
    | some d => rfl

end Tiff

end ImageProbe
