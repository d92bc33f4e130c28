import ImageProbe.Bytes
import ImageProbe.Error

namespace ImageProbe

/-- What is still to come: bytes, then the plain end or a fault that stays. -/
structure Tape where
  bytes : Bytes
  ending : Option Fault := none
  deriving DecidableEq

/-- The answer to one read; only an empty one to a read of some bytes tells of the end. -/
inductive Delivery
  | bytes (bs : Bytes)
  | interrupted
  | fault (f : Fault)

/-- What a read of at most `n` bytes may do to the tape; an answer that does not tell of the end
takes some of the effort. -/
def Delivery.Faithful (n : Nat) (before after : Tape) (effort effort' : Nat) : Delivery → Prop
  | bytes bs => before = ⟨bs ++ after.bytes, after.ending⟩ ∧ bs.length ≤ n ∧
      (bs = [] → n = 0 ∨ before = ⟨[], none⟩) ∧ (bs ≠ [] → effort' < effort)
  | interrupted => after = before ∧ effort' < effort
  | fault f => after = before ∧ before = ⟨[], some f⟩

/-- A stream read piece by piece. Its tape is all it will ever deliver, its effort bounds the reads
that this takes. -/
class ByteReader (ρ : Type) where
  read : ρ → Nat → Delivery × ρ
  tape : ρ → Tape
  effort : ρ → Nat
  faithful (r : ρ) (n : Nat) : (read r n).1.Faithful n (tape r) (tape (read r n).2)
    (effort r) (effort (read r n).2)

structure Haul where
  bytes : Bytes
  fault : Option Fault := none
  deriving DecidableEq

def Haul.shortage (h : Haul) : ProbeError := h.fault.elim .endOfData .ofFault

namespace ByteReader

variable {ρ : Type} [ByteReader ρ]

theorem effort_of_bytes {r r' : ρ} {n : Nat} {b : UInt8} {bs : Bytes}
    (h : read r n = (.bytes (b :: bs), r')) : effort r' < effort r := by
  have hf := faithful r n
  rw [h] at hf
  exact hf.2.2.2 (by simp)

theorem effort_of_interrupted {r r' : ρ} {n : Nat} (h : read r n = (.interrupted, r')) :
    tape r' = tape r ∧ effort r' < effort r := by
  have hf := faithful r n
  rw [h] at hf
  exact hf

def gather (stride : Nat) (got : Bytes) (r : ρ) (n : Nat) : Haul × ρ :=
  if n = 0 then (⟨got.reverse, none⟩, r)
  else match h : read r (min n (stride + 1)) with
    | (.bytes [], r') => (⟨got.reverse, none⟩, r')
    | (.bytes (b :: bs), r') => gather stride ((b :: bs).reverseAux got) r' (n - (bs.length + 1))
    | (.interrupted, r') => gather stride got r' n
    | (.fault f, r') => (⟨got.reverse, some f⟩, r')
termination_by effort r
decreasing_by
  · exact effort_of_bytes h
  · exact (effort_of_interrupted h).2

def fetch (r : ρ) (n : Nat) : Haul × ρ := gather n [] r n

end ByteReader

namespace Tape

def haul (t : Tape) (n : Nat) : Haul :=
  ⟨t.bytes.take n, if t.bytes.length < n then t.ending else none⟩

def drop (t : Tape) (n : Nat) : Tape := { t with bytes := t.bytes.drop n }

theorem haul_append (bs : Bytes) (t : Tape) (n : Nat) :
    (Tape.mk (bs ++ t.bytes) t.ending).haul (bs.length + n) =
      { t.haul n with bytes := bs ++ (t.haul n).bytes } := by
  simp [haul, List.take_length_add_append]

theorem drop_append (bs : Bytes) (t : Tape) (n : Nat) :
    (Tape.mk (bs ++ t.bytes) t.ending).drop (bs.length + n) = t.drop n := by
  simp [drop, List.drop_length_add_append]

theorem drop_length (t : Tape) (n : Nat) : (t.drop n).bytes.length = t.bytes.length - n := by
  simp [drop]

end Tape

namespace ByteReader

variable {ρ : Type} [ByteReader ρ]

theorem gather_eq (stride : Nat) (got : Bytes) (r : ρ) (n : Nat) :
    (gather stride got r n).1 =
        { (tape r).haul n with bytes := got.reverse ++ ((tape r).haul n).bytes } ∧
      tape (gather stride got r n).2 = (tape r).drop n := by
  fun_induction gather stride got r n with
  | case1 got r => simp [Tape.haul, Tape.drop]
  | case2 got r n hn r' h =>
    have hf := faithful r (min n (stride + 1))
    rw [h] at hf
    obtain ⟨h1, -, h3, -⟩ := hf
    rcases h3 rfl with h3 | h3
    · omega
    · have hr : tape r' = tape r := h1.symm
      simp [hr, h3, Tape.haul, Tape.drop]
  | case3 got r n hn b bs r' h ih =>
    have hf := faithful r (min n (stride + 1))
    rw [h] at hf
    obtain ⟨h1, h2, -⟩ := hf
    obtain ⟨m, rfl⟩ : ∃ m, n = (b :: bs).length + m :=
      ⟨n - (bs.length + 1), by simp at h2 ⊢; omega⟩
    rw [h1, Tape.haul_append, Tape.drop_append]
    simpa [List.reverseAux_eq, Nat.add_sub_cancel_left] using ih
  | case4 got r n hn r' h ih =>
    obtain ⟨ht, -⟩ := effort_of_interrupted h
    rw [ht] at ih
    exact ih
  | case5 got r n hn f r' h =>
    have hf := faithful r (min n (stride + 1))
    rw [h] at hf
    obtain ⟨h1, h2⟩ := hf
    rw [h1, h2]
    simp [Tape.haul, Tape.drop]
    omega

/-- What is fetched and what is left depends on the tape alone. -/
theorem fetch_eq (r : ρ) (n : Nat) :
    (fetch r n).1 = (tape r).haul n ∧ tape (fetch r n).2 = (tape r).drop n :=
  gather_eq n [] r n

end ByteReader

end ImageProbe
