import ImageProbe.Proofs.Bytes.Bits
import ImageProbe.Proofs.Guarded.Jxl
import ImageProbe.Proofs.Jxl.SizeHeader

namespace ImageProbe

namespace Jxl

open BitReading

/-- A side as it is written: in eights, or with a selector of its width in front; less one in
both. -/
inductive Side : Bool → Type
  | eights (n : BitVec 5) : Side true
  | plain (selector : Fin fieldWidths.length) (n : BitVec fieldWidths[selector]) : Side false

namespace Side

variable {small : Bool}

def pixels : Side small → Nat
  | eights n => (n.toNat + 1) * 8
  | plain _ n => n.toNat + 1

def bits : Side small → List Bool
  | eights n => lowBits 5 n.toNat
  | plain selector n => lowBits 2 selector ++ lowBits fieldWidths[selector] n.toNat

end Side

/-- The width as it is written: by its ratio to the height, or on its own. -/
inductive Breadth (small : Bool)
  | ratio (i : Fin ratios.length)
  | own (side : Side small)

namespace Breadth

variable {small : Bool}

def pixels (height : Nat) : Breadth small → Nat
  | ratio i => height * ratios[i].1 / ratios[i].2
  | own side => side.pixels

def bits : Breadth small → List Bool
  | ratio i => lowBits 3 (i + 1)
  | own side => lowBits 3 0 ++ side.bits

end Breadth

structure SizeHeader where
  small : Bool
  height : Side small
  breadth : Breadth small

namespace SizeHeader

def width (h : SizeHeader) : Nat := h.breadth.pixels h.height.pixels

def bits (h : SizeHeader) : List Bool := [h.small] ++ (h.height.bits ++ h.breadth.bits)

end SizeHeader

variable {small : Bool}

theorem fieldBits_eq (selector : Fin fieldWidths.length) :
    fieldBits selector = fieldWidths[selector] ∧ fieldWidths[selector] ≤ 30 := by
  revert selector
  decide

theorem ratio_eq (i : Fin ratios.length) :
    ratio (i + 1) = ratios[i] ∧ 0 < ratios[i].2 ∧ ratios[i].2 ≤ ratios[i].1 ∧
      ratios[i].1 ≤ 2 * ratios[i].2 := by
  revert i
  decide

theorem field_reads {w : Nat} (hw : w ≤ 32) (n : BitVec w) :
    Reads (bits w) (lowBits w n.toNat) n.toNat :=
  Reads.bits hw (Nat.one_shiftLeft w ▸ n.isLt)

theorem Side.reads (s : Side small) : Reads (side small) s.bits s.pixels := by
  cases s with
  | eights n =>
    have hvalue := (field_reads (by decide) n).bind (f := fun n => pure ((n + 1) * 8)) (.pure _)
    rwa [List.append_nil] at hvalue
  | plain selector n =>
    obtain ⟨hwidth, hle⟩ := fieldBits_eq selector
    have hvalue := (field_reads (by omega) n).bind (f := fun n => pure (n + 1)) (.pure _)
    rw [List.append_nil] at hvalue
    have hselector : Reads (ImageProbe.bits 2) (lowBits 2 selector) selector :=
      Reads.bits (by decide) selector.isLt
    apply hselector.bind
    rwa [hwidth]

theorem SizeHeader.reads (h : SizeHeader) : Reads extent h.bits (h.width, h.height.pixels) := by
  obtain ⟨small, height, breadth⟩ := h
  have hsmall : Reads (ImageProbe.bits 1) [small] small.toNat := by
    cases small with
    | false => exact Reads.bits (v := 0) (by decide) (by decide)
    | true => exact Reads.bits (v := 1) (by decide) (by decide)
  have hflag : decide (small.toNat = 1) = small := by
    cases small with
    | false => rfl
    | true => rfl
  apply hsmall.bind
  dsimp only
  rw [hflag]
  apply height.reads.bind
  cases breadth with
  | ratio i =>
    obtain ⟨hratio, -⟩ := ratio_eq i
    have hcode : Reads (ImageProbe.bits 3) (lowBits 3 (i + 1)) (i + 1) :=
      Reads.bits (by decide) (Nat.succ_lt_succ i.isLt)
    rw [Breadth.bits, ← List.append_nil (lowBits 3 (i + 1))]
    apply hcode.bind
    rw [if_neg (Nat.succ_ne_zero i), hratio]
    exact .pure _
  | own side =>
    have hcode : Reads (ImageProbe.bits 3) (lowBits 3 0) 0 := Reads.bits (by decide) (by decide)
    apply hcode.bind
    rw [if_pos rfl, ← List.append_nil side.bits]
    exact side.reads.bind (.pure _)

theorem Side.pixels_bounds (s : Side small) : 1 ≤ s.pixels ∧ s.pixels ≤ 1 <<< 30 := by
  cases s with
  | eights n =>
    have hn := n.isLt
    rw [pixels]
    omega
  | plain selector n =>
    obtain ⟨-, hle⟩ := fieldBits_eq selector
    have hn : n.toNat < 1 <<< 30 := calc
      n.toNat < 2 ^ fieldWidths[selector] := n.isLt
      _ ≤ 1 <<< 30 := by
        rw [Nat.one_shiftLeft]
        exact Nat.pow_le_pow_right (by decide) hle
    rw [pixels]
    omega

theorem SizeHeader.width_bounds (h : SizeHeader) : 1 ≤ h.width ∧ h.width ≤ 1 <<< 31 := by
  obtain ⟨hlow, hhigh⟩ := h.height.pixels_bounds
  rw [width]
  cases h.breadth with
  | ratio i =>
    obtain ⟨-, hden, hwide, hnarrow⟩ := ratio_eq i
    rw [Breadth.pixels]
    constructor
    · rw [Nat.le_div_iff_mul_le hden, Nat.one_mul]
      exact Nat.le_trans hwide (Nat.le_mul_of_pos_left _ hlow)
    · apply Nat.div_le_of_le_mul
      calc h.height.pixels * ratios[i].1
          ≤ (1 <<< 30) * (2 * ratios[i].2) := Nat.mul_le_mul hhigh hnarrow
        _ = ratios[i].2 * (1 <<< 31) := by omega
  | own side =>
    obtain ⟨hlow', hhigh'⟩ := side.pixels_bounds
    rw [Breadth.pixels]
    exact ⟨hlow', Nat.le_trans hhigh' (by decide)⟩

theorem exists_field (w : Nat) (bits : List Bool) (h : w ≤ bits.length) :
    ∃ n : BitVec w, lowBits w n.toNat <+: bits := by
  obtain ⟨n, hn, hbits⟩ := exists_lowBits (bits.take w)
  rw [List.length_take_of_le h] at hn hbits
  rw [Nat.one_shiftLeft] at hn
  refine ⟨BitVec.ofNatLT n hn, ?_⟩
  rw [BitVec.toNat_ofNatLT, hbits]
  exact List.take_prefix w bits

theorem Side.length_bits_le (s : Side small) : s.bits.length ≤ 32 := by
  cases s with
  | eights n =>
    rw [bits, length_lowBits]
    decide
  | plain selector n =>
    obtain ⟨-, hle⟩ := fieldBits_eq selector
    rw [bits, List.length_append, length_lowBits, length_lowBits]
    omega

theorem exists_side (small : Bool) (bits : List Bool) (h : 32 ≤ bits.length) :
    ∃ s : Side small, s.bits <+: bits := by
  cases small with
  | true =>
    obtain ⟨n, hn⟩ := exists_field 5 bits (Nat.le_trans (by decide) h)
    exact ⟨.eights n, hn⟩
  | false =>
    obtain ⟨code, rest, rfl⟩ := exists_field 2 bits (Nat.le_trans (by decide) h)
    rw [List.length_append, length_lowBits] at h
    let selector : Fin fieldWidths.length := ⟨code.toNat, code.isLt⟩
    obtain ⟨-, hle⟩ := fieldBits_eq selector
    obtain ⟨n, hn⟩ := exists_field fieldWidths[selector] rest (by omega)
    exact ⟨.plain selector n, (List.prefix_append_right_inj _).2 hn⟩

theorem exists_breadth (small : Bool) (bits : List Bool) (h : 35 ≤ bits.length) :
    ∃ breadth : Breadth small, breadth.bits <+: bits := by
  obtain ⟨code, rest, rfl⟩ := exists_field 3 bits (Nat.le_trans (by decide) h)
  rw [List.length_append, length_lowBits] at h
  by_cases hcode : code.toNat = 0
  · obtain ⟨side, hside⟩ := exists_side small rest (by omega)
    refine ⟨.own side, ?_⟩
    rw [hcode]
    exact (List.prefix_append_right_inj _).2 hside
  · have hlt : code.toNat - 1 < ratios.length := by
      have hlt := code.isLt
      have hlength : ratios.length = 7 := rfl
      omega
    have hback : code.toNat - 1 + 1 = code.toNat := Nat.sub_add_cancel (Nat.pos_of_ne_zero hcode)
    refine ⟨.ratio ⟨code.toNat - 1, hlt⟩, ?_⟩
    rw [Breadth.bits, hback]
    exact List.prefix_append _ _

theorem exists_header (bits : List Bool) (h : 68 ≤ bits.length) :
    ∃ header : SizeHeader, header.bits <+: bits := by
  obtain ⟨small, bits, rfl⟩ := List.exists_cons_of_length_pos (Nat.lt_of_lt_of_le (by decide) h)
  rw [List.length_cons] at h
  obtain ⟨height, rest, rfl⟩ := exists_side small bits (by omega)
  have hheight := height.length_bits_le
  rw [List.length_append] at h
  obtain ⟨breadth, hbreadth⟩ := exists_breadth small rest (by omega)
  refine ⟨⟨small, height, breadth⟩, ?_⟩
  exact (List.prefix_append_right_inj [small]).2 ((List.prefix_append_right_inj _).2 hbreadth)

theorem size_of_bits {header : SizeHeader} {codestream : Bytes}
    (hmarker : codestream.take 2 = marker) (hlong : shortestHeader ≤ codestream.length)
    (hbits : header.bits <+: bitsOf (codestream.drop 2)) :
    size codestream = .ok (header.width, header.height.pixels) := by
  obtain ⟨-, hwidth⟩ := header.width_bounds
  have hextent : extent.run (.ofBytes (codestream.drop 2)) = .ok ((_, _), _) :=
    header.reads (codestream.drop 2) 0 hbits
  rw [size, if_neg (Nat.not_lt_of_le hlong), if_neg (not_not.2 hmarker), hextent]
  exact if_pos (Nat.lt_of_le_of_lt hwidth (by decide))

theorem bitsOf_take (m : Nat) (data : Bytes) : bitsOf (data.take m) <+: bitsOf data := by
  rw [List.prefix_iff_getElem?]
  intro i hi
  have hplace := hi
  rw [bitsOf, length_lowBits, List.length_take] at hplace
  have hkept : BitCursor.bit (data.take m) i = BitCursor.bit data i :=
    BitCursor.bit_take (by omega)
  rw [← List.getElem?_eq_getElem, bitsOf, bitsOf, getElem?_lowBits (by omega),
    getElem?_lowBits (by rw [List.length_take]; omega), testBit_littleEndian, testBit_littleEndian,
    hkept]

/-- Whatever the format can write is read back, with any bits behind it. Every eleven bytes that begin
with the marker are so written, and no more of them count. -/
theorem size_encoded :
    (∀ (header : SizeHeader) (codestream : Bytes), codestream.take 2 = [0xff, 0x0a] →
      4 ≤ codestream.length → header.bits <+: bitsOf (codestream.drop 2) →
      size codestream = .ok (header.width, header.height.pixels)) ∧
    ∀ codestream : Bytes, codestream.take 2 = [0xff, 0x0a] → 11 ≤ codestream.length →
      ∃ width height, (1 ≤ width ∧ width ≤ 1 <<< 31) ∧ (1 ≤ height ∧ height ≤ 1 <<< 30) ∧
        ∀ codestream' : Bytes, codestream'.take 11 = codestream.take 11 →
          size codestream' = .ok (width, height) := by
  refine ⟨fun header codestream => size_of_bits, fun codestream hmarker hlong => ?_⟩
  have hbits : 68 ≤ (bitsOf ((codestream.take 11).drop 2)).length := by
    rw [bitsOf, length_lowBits, List.length_drop, List.length_take]
    omega
  obtain ⟨header, hheader⟩ := exists_header _ hbits
  refine ⟨header.width, header.height.pixels, header.width_bounds, header.height.pixels_bounds, ?_⟩
  intro codestream' hsame
  have hmarker' : codestream'.take 2 = marker := calc
    codestream'.take 2 = (codestream'.take 11).take 2 := by rw [List.take_take]; rfl
    _ = codestream.take 2 := by rw [hsame, List.take_take]; rfl
    _ = marker := hmarker
  have hlong' : 11 ≤ codestream'.length := by
    have hlen := congrArg List.length hsame
    rw [List.length_take, List.length_take] at hlen
    omega
  have hheader' : header.bits <+: bitsOf (codestream'.drop 2) := by
    rw [← hsame, List.drop_take] at hheader
    exact hheader.trans (bitsOf_take _ _)
  exact size_of_bits hmarker' (Nat.le_trans (by decide) hlong') hheader'

theorem size_encoded_largest :
    let header : SizeHeader := ⟨false, .plain ⟨3, by decide⟩ (BitVec.allOnes 30),
      .ratio ⟨6, by decide⟩⟩
    let codestream : Bytes := [0xff, 0x0a, 0xfe, 0xff, 0xff, 0xff, 0x0f]
    header.bits <+: bitsOf (codestream.drop 2) ∧ size codestream = .ok (1 <<< 31, 1 <<< 30) ∧
      ∃ width height, (1 ≤ width ∧ width ≤ 1 <<< 31) ∧ (1 ≤ height ∧ height ≤ 1 <<< 30) ∧
        size (codestream ++ [1, 2, 3, 4, 5]) = .ok (width, height) := by
  intro header codestream
  have hbits : header.bits <+: bitsOf (codestream.drop 2) := by decide +kernel
  obtain ⟨width, height, hwidth, hheight, hsize⟩ :=
    size_encoded.2 (codestream ++ [1, 2, 3, 4, 5]) rfl (by decide)
  have hlargest : (header.width, header.height.pixels) = (1 <<< 31, 1 <<< 30) := by decide +kernel
  have htold := size_encoded.1 header codestream rfl (by decide) hbits
  rw [hlargest] at htold
  exact ⟨hbits, htold, width, height, hwidth, hheight, hsize _ rfl⟩

end Jxl

end ImageProbe
