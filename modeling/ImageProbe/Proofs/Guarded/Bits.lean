import ImageProbe.Bytes.BitCursor
import ImageProbe.Proofs.Guarded

namespace ImageProbe

open Guard

variable {α β : Type}

namespace BitCursor

def guardedBit (data : Bytes) (place : Nat) : Option Nat := do
  let byte ← data[place / 8]?
  pure ((← shiftRight 8 byte.toNat (place % 8)) % 2)

def gather (c : BitCursor) : Nat → Nat → Nat → Option Nat
  | 0, _, value => some value
  | left + 1, i, value => do
    let bit ← guardedBit c.data (← add range64 c.position i)
    c.gather left (i + 1) (value ||| (← shiftLeft 32 bit i))

def guardedRead (n : Nat) (c : BitCursor) : Option (Except Shortage (Nat × BitCursor)) := do
  -- No more than 32 bits may be asked for at once; the test below asks again where this is skipped.
  let _ ← fit 33 n
  let remaining ← sub (← mul range64 c.data.length 8) c.position
  if n ≤ remaining ∧ n ≤ 32 then
    let value ← c.gather n 0 0
    let position ← add range64 c.position n
    pure (.ok (value, { c with position }))
  else pure (.error ⟨n, remaining⟩)

theorem number_lt (data : Bytes) (i n : Nat) : number data i n < 1 <<< n := by
  induction n generalizing i with
  | zero => exact Nat.one_pos
  | succ n ih =>
    have hbit := Bool.toNat_lt (bit data i)
    have hrest := ih (i + 1)
    rw [number, Nat.shiftLeft_succ]
    omega

theorem guardedBit_eq {data : Bytes} {place : Nat} (h : place < 8 * data.length) :
    guardedBit data place = some (bit data place).toNat := by
  have hbyte : place / 8 < data.length := by omega
  have hget : data[place / 8]? = some (data.getD (place / 8) 0) := by
    rw [List.getD_eq_getElem?_getD, List.getElem?_eq_getElem hbyte, Option.getD_some]
  rw [bit, Nat.toNat_testBit, ← Nat.shiftRight_eq_div_pow]
  apply bind_eq hget
  apply bind_eq (shiftRight_eq (Nat.mod_lt _ (by decide)))
  rfl

theorem shiftLeft_one_eq {bit i : Nat} (hbit : bit < 2) (hi : i < 32) :
    shiftLeft 32 bit i = some (bit <<< i) := by
  rw [shiftLeft, if_pos hi]
  apply congrArg some
  apply Nat.mod_eq_of_lt
  calc bit <<< i < 2 <<< i := by
        rw [Nat.shiftLeft_eq, Nat.shiftLeft_eq]
        exact Nat.mul_lt_mul_of_pos_right hbit (Nat.two_pow_pos i)
    _ = 1 <<< (i + 1) := by rw [Nat.shiftLeft_succ_inside]
    _ ≤ 1 <<< 32 := by
        rw [Nat.one_shiftLeft, Nat.one_shiftLeft]
        exact Nat.pow_le_pow_right (by decide) hi

theorem or_shiftLeft {value bit i : Nat} (hvalue : value < 1 <<< i) :
    value ||| bit <<< i = value + bit <<< i := by
  rw [Nat.one_shiftLeft] at hvalue
  rw [Nat.or_comm, ← Nat.shiftLeft_add_eq_or_of_lt hvalue, Nat.add_comm]

theorem add_shiftLeft_lt {value bit i : Nat} (hvalue : value < 1 <<< i) (hbit : bit < 2) :
    value + bit <<< i < 1 <<< (i + 1) := by
  have hhigh : bit <<< i ≤ 1 <<< i := by
    rw [Nat.shiftLeft_eq, Nat.shiftLeft_eq]
    exact Nat.mul_le_mul_right _ (by omega)
  rw [Nat.shiftLeft_succ]
  omega

theorem shiftLeft_add (a b i : Nat) : (a + 2 * b) <<< i = a <<< i + b <<< (i + 1) := by
  rw [Nat.shiftLeft_eq, Nat.shiftLeft_eq, Nat.shiftLeft_succ_inside, Nat.shiftLeft_eq, Nat.add_mul]

theorem gather_eq {c : BitCursor} (hrange : 8 * c.data.length < range64) {left i value : Nat}
    (hplace : c.position + i + left ≤ 8 * c.data.length) (hi : i + left ≤ 32)
    (hvalue : value < 1 <<< i) :
    c.gather left i value = some (value + number c.data (c.position + i) left <<< i) := by
  induction left generalizing i value with
  | zero => rw [gather, number, Nat.zero_shiftLeft, Nat.add_zero]
  | succ left ih =>
    have hbit := Bool.toNat_lt (bit c.data (c.position + i))
    have hrest := ih (i := i + 1) (by omega) (by omega) (add_shiftLeft_lt hvalue hbit)
    apply bind_eq (add_eq (by omega))
    apply bind_eq (guardedBit_eq (by omega))
    apply bind_eq (shiftLeft_one_eq hbit (by omega))
    rw [or_shiftLeft hvalue, hrest, number, shiftLeft_add, Nat.add_assoc, Nat.add_assoc]

def Inside (c : BitCursor) : Prop := c.position ≤ 8 * c.data.length ∧ 8 * c.data.length < range64

theorem inside_ofBytes {data : Bytes} (h : 8 * data.length < range64) : (ofBytes data).Inside :=
  ⟨Nat.zero_le _, h⟩

theorem guardedRead_eq {c : BitCursor} (h : c.Inside) {n : Nat} (hn : n ≤ 32) :
    c.guardedRead n = some (c.read n) := by
  obtain ⟨hplace, hrange⟩ := h
  rw [read, remaining]
  apply bind_eq (fit_eq (by omega))
  apply bind_eq (mul_eq (by omega))
  apply bind_eq (sub_eq (by omega))
  rw [Nat.mul_comm c.data.length 8]
  split
  · have hvalue : c.gather n 0 0 = some (0 + number c.data (c.position + 0) n <<< 0) :=
      gather_eq hrange (by omega) (by omega) Nat.one_pos
    rw [Nat.zero_add, Nat.shiftLeft_zero] at hvalue
    apply bind_eq hvalue
    apply bind_eq (add_eq (by omega))
    rfl
  · rfl

end BitCursor

abbrev GuardedBits := StateT BitCursor (ExceptT BitCursor.Shortage Option)

def guardedBits (n : Nat) : GuardedBits Nat := fun c => .mk (c.guardedRead n)

namespace GuardedBits

variable {Q Q' : α → Prop} {R : β → Prop}

def Sound (Q : α → Prop) (p' : GuardedBits α) (p : BitReading α) : Prop :=
  ∀ c : BitCursor, c.Inside → (p' c).run = some (p c) ∧
    ∀ a c', p c = .ok (a, c') → Q a ∧ c'.Inside

theorem Sound.pure {a : α} (h : Q a) : Sound Q (Pure.pure a) (Pure.pure a) := by
  intro c hc
  refine ⟨rfl, fun b c' hb => ?_⟩
  obtain ⟨rfl, rfl⟩ := Prod.mk.inj (Except.ok.inj hb)
  exact ⟨h, hc⟩

theorem Sound.bind {p' : GuardedBits α} {p : BitReading α} {f' : α → GuardedBits β}
    {f : α → BitReading β} (hp : Sound Q p' p) (hf : ∀ a, Q a → Sound R (f' a) (f a)) :
    Sound R (p' >>= f') (p >>= f) := by
  intro c hc
  obtain ⟨heq, hall⟩ := hp c hc
  change (p' c).run.bind (ExceptT.bindCont fun x => f' x.1 x.2) =
    some ((p c).bind fun x => f x.1 x.2) ∧ ∀ b c', (p c).bind (fun x => f x.1 x.2) = _ → _
  rw [heq]
  rcases hout : p c with e | ⟨a, c'⟩
  · exact ⟨rfl, nofun⟩
  · obtain ⟨hQ, hc'⟩ := hall a c' hout
    exact hf a hQ c' hc'

theorem Sound.guard {o : Option α} {a : α} {f' : α → GuardedBits β} {p : BitReading β}
    (h : o = some a) (hf : Sound R (f' a) p) : Sound R (liftM o >>= f') p := by
  subst h
  exact hf

theorem Sound.last {o : Option α} {a : α} (h : o = some a) (hQ : Q a) :
    Sound Q (liftM o) (Pure.pure a) := by
  subst h
  exact .pure hQ

theorem Sound.bits {n : Nat} (hn : n ≤ 32) : Sound (· < 1 <<< n) (guardedBits n) (bits n) := by
  intro c hc
  refine ⟨BitCursor.guardedRead_eq hc hn, fun value c' hread => ?_⟩
  change c.read n = .ok (value, c') at hread
  rw [BitCursor.read] at hread
  split at hread
  · rename_i hleft
    obtain ⟨rfl, rfl⟩ := Prod.mk.inj (Except.ok.inj hread)
    refine ⟨BitCursor.number_lt _ _ _, ?_, hc.2⟩
    have hroom := hleft.1
    rw [BitCursor.remaining] at hroom
    have hplace := hc.1
    change c.position + n ≤ 8 * c.data.length
    omega
  · exact nomatch hread

end GuardedBits

end ImageProbe
