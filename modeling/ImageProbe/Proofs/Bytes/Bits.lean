import ImageProbe.Bytes.BitCursor

namespace ImageProbe

def lowBits (width n : Nat) : List Bool := (List.range width).map n.testBit

def bitsOf (bs : Bytes) : List Bool := lowBits (8 * bs.length) (littleEndian bs)

@[simp] theorem length_lowBits (width n : Nat) : (lowBits width n).length = width := by
  rw [lowBits, List.length_map, List.length_range]

theorem getElem?_lowBits {width i : Nat} (h : i < width) (n : Nat) :
    (lowBits width n)[i]? = some (n.testBit i) := by
  rw [lowBits, List.getElem?_map, List.getElem?_range h, Option.map_some]

theorem lowBits_succ (width n : Nat) :
    lowBits (width + 1) n = n.testBit 0 :: lowBits width (n / 2) := by
  rw [lowBits, List.range_succ_eq_map, List.map_cons, List.map_map, lowBits]
  congr 2
  funext i
  exact Nat.testBit_succ n i

theorem exists_lowBits (bits : List Bool) :
    ∃ n < 1 <<< bits.length, lowBits bits.length n = bits := by
  induction bits with
  | nil => exact ⟨0, Nat.one_pos, rfl⟩
  | cons b bits ih =>
    obtain ⟨n, hn, hbits⟩ := ih
    have hb := Bool.toNat_lt b
    refine ⟨b.toNat + 2 * n, ?_, ?_⟩
    · rw [List.length_cons, Nat.shiftLeft_succ]
      omega
    · have hhalf : (b.toNat + 2 * n) / 2 = n := by omega
      have hlow : (b.toNat + 2 * n).testBit 0 = b := by
        rw [Nat.testBit_zero, Nat.add_mul_mod_self_left]
        cases b with
        | false => rfl
        | true => rfl
      rw [List.length_cons, lowBits_succ, hhalf, hbits, hlow]

theorem testBit_littleEndian (bs : Bytes) (i : Nat) :
    (littleEndian bs).testBit i = BitCursor.bit bs i := by
  induction bs generalizing i with
  | nil =>
    rw [littleEndian, Nat.zero_testBit, BitCursor.bit, List.getD_nil]
    exact (Nat.zero_testBit _).symm
  | cons b bs ih =>
    have hsum : littleEndian (b :: bs) = 256 * littleEndian bs + b.toNat := by
      rw [littleEndian, Nat.add_comm]
    have htest : (256 * littleEndian bs + b.toNat).testBit i =
        if i < 8 then b.toNat.testBit i else (littleEndian bs).testBit (i - 8) :=
      Nat.testBit_two_pow_mul_add (littleEndian bs) b.toNat_lt i
    rw [hsum, htest]
    split
    · rename_i hfirst
      rw [BitCursor.bit, Nat.div_eq_of_lt hfirst, Nat.mod_eq_of_lt hfirst, List.getD_cons_zero]
    · rename_i hlater
      obtain ⟨j, rfl⟩ : ∃ j, i = j + 8 := ⟨i - 8, by omega⟩
      have hplace : (j + 8) / 8 = j / 8 + 1 := by omega
      rw [Nat.add_sub_cancel, ih, BitCursor.bit, BitCursor.bit, hplace, List.getD_cons_succ,
        Nat.add_mod_right]

namespace BitCursor

theorem testBit_number (data : Bytes) (i n j : Nat) :
    (number data i n).testBit j = (decide (j < n) && bit data (i + j)) := by
  induction n generalizing i j with
  | zero => rw [number, Nat.zero_testBit, decide_eq_false (Nat.not_lt_zero j), Bool.false_and]
  | succ n ih =>
    have hbit := Bool.toNat_lt (bit data i)
    cases j with
    | zero =>
      rw [number, Nat.testBit_zero, Nat.add_mul_mod_self_left, decide_eq_true (Nat.succ_pos n),
        Bool.true_and, Nat.add_zero]
      cases bit data i with
      | false => rfl
      | true => rfl
    | succ j =>
      have hhalf : ((bit data i).toNat + 2 * number data (i + 1) n) / 2 = number data (i + 1) n := by
        omega
      rw [number, Nat.testBit_succ, hhalf, ih, Nat.add_right_comm, Nat.add_assoc]
      simp only [Nat.succ_lt_succ_iff]

theorem number_eq (data : Bytes) (i n : Nat) :
    number data i n = (littleEndian data >>> i) % (1 <<< n) := by
  apply Nat.eq_of_testBit_eq
  intro j
  rw [testBit_number, Nat.one_shiftLeft, Nat.testBit_mod_two_pow, Nat.testBit_shiftRight,
    testBit_littleEndian]

end BitCursor

namespace BitReading

variable {α β : Type}

def Reads (p : BitReading α) (bits : List Bool) (a : α) : Prop :=
  ∀ (data : Bytes) (i : Nat), bits <+: (bitsOf data).drop i →
    p.run ⟨data, i⟩ = .ok (a, ⟨data, i + bits.length⟩)

theorem Reads.pure (a : α) : Reads (Pure.pure a) [] a := fun _ _ _ => rfl

theorem bits_run {data : Bytes} {i n : Nat} (hroom : n ≤ 8 * data.length - i) (hn : n ≤ 32) :
    (ImageProbe.bits n).run ⟨data, i⟩ =
      .ok ((littleEndian data >>> i) % (1 <<< n), ⟨data, i + n⟩) := by
  change BitCursor.read n ⟨data, i⟩ = _
  rw [BitCursor.read, if_pos ⟨hroom, hn⟩, BitCursor.number_eq]

theorem bits_bind_run {data : Bytes} {i n : Nat} (hroom : n ≤ 8 * data.length - i) (hn : n ≤ 32)
    (f : Nat → BitReading β) :
    (ImageProbe.bits n >>= f).run ⟨data, i⟩ =
      (f ((littleEndian data >>> i) % (1 <<< n))).run ⟨data, i + n⟩ := by
  rw [StateT.run_bind, bits_run hroom hn]
  rfl

theorem Reads.bits {n v : Nat} (hn : n ≤ 32) (hv : v < 1 <<< n) :
    Reads (bits n) (lowBits n v) v := by
  intro data i h
  have hroom : n ≤ 8 * data.length - i := by
    have hlen := h.length_le
    rwa [length_lowBits, List.length_drop, bitsOf, length_lowBits] at hlen
  have hvalue : (littleEndian data >>> i) % (1 <<< n) = v := by
    rw [Nat.one_shiftLeft] at hv ⊢
    apply Nat.eq_of_testBit_eq
    intro j
    rw [Nat.testBit_mod_two_pow, Nat.testBit_shiftRight]
    by_cases hj : j < n
    · have hbit := List.prefix_iff_getElem?.1 h j (by rwa [length_lowBits])
      rw [← List.getElem?_eq_getElem, getElem?_lowBits hj, List.getElem?_drop, bitsOf,
        getElem?_lowBits (by omega)] at hbit
      rw [decide_eq_true hj, Bool.true_and]
      exact Option.some.inj hbit
    · rw [decide_eq_false hj, Bool.false_and, Nat.testBit_lt_two_pow]
      exact Nat.lt_of_lt_of_le hv (Nat.pow_le_pow_right (by decide) (Nat.le_of_not_lt hj))
  rw [bits_run hroom hn, hvalue, length_lowBits]

theorem Reads.bind {p : BitReading α} {f : α → BitReading β} {xs ys : List Bool} {a : α} {b : β}
    (hp : Reads p xs a) (hf : Reads (f a) ys b) : Reads (p >>= f) (xs ++ ys) b := by
  intro data i h
  obtain ⟨rest, hrest⟩ := h
  have hdrop : (bitsOf data).drop (i + xs.length) = ys ++ rest := by
    rw [← List.drop_drop, ← hrest, List.append_assoc, List.drop_left]
  rw [StateT.run_bind, hp data i ⟨ys ++ rest, by rw [← hrest, List.append_assoc]⟩]
  change (f a).run ⟨data, i + xs.length⟩ = _
  rw [hf data (i + xs.length) ⟨rest, hdrop.symm⟩, List.length_append, Nat.add_assoc]

end BitReading

end ImageProbe
