import ImageProbe.Bytes

namespace ImageProbe

/-- The numbers that go into so many bytes are those below this. -/
def span : Nat → Nat
  | 0 => 1
  | width + 1 => 256 * span width

theorem span_le_span {width width' : Nat} (h : width ≤ width') : span width ≤ span width' := by
  induction h with
  | refl => exact Nat.le_refl _
  | step _ ih => exact Nat.le_trans ih (Nat.le_mul_of_pos_left _ (by decide))

theorem littleEndian_toLittleEndian (width n : Nat) :
    littleEndian (toLittleEndian width n) = n % span width := by
  induction width generalizing n with
  | zero => simp [toLittleEndian, littleEndian, span, Nat.mod_one]
  | succ width ih =>
    have hbyte : n.toUInt8.toNat = n % 256 := rfl
    rw [toLittleEndian, littleEndian, ih, hbyte, span, Nat.mod_mul]

theorem length_toLittleEndian (width n : Nat) : (toLittleEndian width n).length = width := by
  induction width generalizing n with
  | zero => rfl
  | succ width ih => rw [toLittleEndian, List.length_cons, ih]

theorem bigEndian_reverse (bs : Bytes) : bigEndian bs.reverse = littleEndian bs := by
  rw [bigEndian, List.foldl_reverse]
  induction bs with
  | nil => rfl
  | cons b bs ih => rw [List.foldr_cons, ih, littleEndian, Nat.add_comm]

def toBigEndian (width n : Nat) : Bytes := (toLittleEndian width n).reverse

@[simp] theorem length_toBigEndian (width n : Nat) : (toBigEndian width n).length = width := by
  rw [toBigEndian, List.length_reverse, length_toLittleEndian]

theorem bigEndian_toBigEndian {width n : Nat} (h : n < span width) :
    bigEndian (toBigEndian width n) = n := by
  rw [toBigEndian, bigEndian_reverse, littleEndian_toLittleEndian, Nat.mod_eq_of_lt h]

theorem littleEndian_lt (bs : Bytes) : littleEndian bs < span bs.length := by
  induction bs with
  | nil => exact Nat.one_pos
  | cons b bs ih =>
    have hbyte : b.toNat < 256 := b.toNat_lt
    rw [littleEndian, List.length_cons, span]
    omega

theorem bigEndian_lt (bs : Bytes) : bigEndian bs < span bs.length := by
  have hlt := littleEndian_lt bs.reverse
  rw [← bigEndian_reverse, List.reverse_reverse, List.length_reverse] at hlt
  exact hlt

theorem exists_front {bs : Bytes} {n : Nat} (h : n ≤ bs.length) :
    ∃ front rest, front.length = n ∧ bs = front ++ rest :=
  ⟨bs.take n, bs.drop n, List.length_take_of_le h, (List.take_append_drop n bs).symm⟩

theorem length_slice {bs : Bytes} {i n : Nat} (h : i + n ≤ bs.length) :
    (slice bs i n).length = n := by
  rw [slice, List.length_take, List.length_drop]
  omega

theorem littleEndian_slice_lt {bs : Bytes} {i n : Nat} (h : i + n ≤ bs.length) :
    littleEndian (slice bs i n) < span n := by
  have hlt := littleEndian_lt (slice bs i n)
  rw [length_slice h] at hlt
  exact hlt

theorem slice_whole {bs : Bytes} {n : Nat} (h : bs.length = n) : slice bs 0 n = bs := by
  rw [slice, List.drop_zero, List.take_of_length_le (Nat.le_of_eq h)]

theorem slice_field {front field : Bytes} {i n : Nat} (hi : front.length = i)
    (hn : field.length = n) (rest : Bytes) : slice (front ++ (field ++ rest)) i n = field := by
  rw [slice, ← hi, List.drop_left, ← hn, List.take_left]

theorem slice_append_slice (bs : Bytes) (i n m : Nat) :
    slice bs i n ++ slice bs (i + n) m = slice bs i (n + m) := by
  rw [slice, slice, slice, ← List.drop_drop, List.take_add]

theorem slice_append_drop (bs : Bytes) (i n : Nat) :
    slice bs i n ++ bs.drop (i + n) = bs.drop i := by
  rw [slice, ← List.drop_drop, List.take_append_drop]

theorem slice_take (bs : Bytes) {i n m : Nat} (h : i + n ≤ m) :
    slice (bs.take m) i n = slice bs i n := by
  rw [slice, slice, List.drop_take, List.take_take, Nat.min_eq_left (by omega)]

theorem getElem?_of_slice {bs rest : Bytes} {i n : Nat} {b : UInt8} (h : slice bs i n = b :: rest) :
    bs[i]? = some b := by
  have hdrop : bs.drop i = b :: (rest ++ bs.drop (i + n)) := by
    rw [← slice_append_drop bs i n, h, List.cons_append]
  rw [← List.head?_drop, hdrop, List.head?_cons]

end ImageProbe
