import ImageProbe.Jxl.SizeHeader

namespace ImageProbe

variable {α β : Type}

namespace BitCursor

theorem bit_take {data : Bytes} {m i : Nat} (h : i < 8 * m) : bit (data.take m) i = bit data i := by
  have hplace : i / 8 < m := by omega
  rw [bit, bit, List.getD_eq_getElem?_getD, List.getD_eq_getElem?_getD,
    List.getElem?_take_of_lt hplace]

theorem number_take {data : Bytes} {m : Nat} (i n : Nat) (h : i + n ≤ 8 * m) :
    number (data.take m) i n = number data i n := by
  induction n generalizing i with
  | zero => rfl
  | succ n ih => rw [number, number, bit_take (by omega), ih (i + 1) (by omega)]

end BitCursor

namespace BitReading

def Spends (k : Nat) (p : BitReading α) : Prop :=
  ∀ (data : Bytes) (i : Nat) (a : α) (c : BitCursor), p.run ⟨data, i⟩ = .ok (a, c) →
    ∃ j, j ≤ i + k ∧ c = ⟨data, j⟩ ∧
      ∀ m, i + k ≤ 8 * m → p.run ⟨data.take m, i⟩ = .ok (a, ⟨data.take m, j⟩)

theorem Spends.pure (a : α) : Spends 0 (Pure.pure a) := by
  intro data i b c h
  cases h
  exact ⟨i, Nat.le_refl i, rfl, fun m _ => rfl⟩

theorem Spends.bits (n : Nat) : Spends n (bits n) := by
  intro data i a c h
  change BitCursor.read n ⟨data, i⟩ = _ at h
  rw [BitCursor.read] at h
  split at h
  · rename_i hroom
    cases h
    refine ⟨i + n, Nat.le_refl _, rfl, fun m hm => ?_⟩
    have hkept : n ≤ BitCursor.remaining ⟨data.take m, i⟩ ∧ n ≤ 32 := by
      simp only [BitCursor.remaining, List.length_take] at hroom ⊢
      omega
    change BitCursor.read n ⟨data.take m, i⟩ = _
    rw [BitCursor.read, if_pos hkept, BitCursor.number_take i n hm]
  · cases h

theorem Spends.bind {k l : Nat} {p : BitReading α} {f : α → BitReading β} (hp : Spends k p)
    (hf : ∀ a, Spends l (f a)) : Spends (k + l) (p >>= f) := by
  intro data i b c h
  rw [StateT.run_bind] at h
  rcases hfirst : p.run ⟨data, i⟩ with s | ⟨a, c₁⟩
  · rw [hfirst] at h
    cases h
  · rw [hfirst] at h
    obtain ⟨j, hj, rfl, hp⟩ := hp data i a c₁ hfirst
    obtain ⟨j', hj', rfl, hf⟩ := hf a data j b c h
    refine ⟨j', by omega, rfl, fun m hm => ?_⟩
    rw [StateT.run_bind, hp m (by omega)]
    exact hf m (by omega)

theorem Spends.mono {k l : Nat} {p : BitReading α} (hp : Spends k p) (h : k ≤ l) : Spends l p := by
  intro data i a c hrun
  obtain ⟨j, hj, rfl, hp⟩ := hp data i a c hrun
  exact ⟨j, by omega, rfl, fun m hm => hp m (by omega)⟩

end BitReading

namespace Jxl

open BitReading

theorem fieldBits_le (selector : Nat) : fieldBits selector ≤ 30 := by
  unfold fieldBits
  split <;> decide

theorem side_spends (small : Bool) : Spends 32 (side small) := by
  cases small with
  | true => exact ((Spends.bits 5).bind fun n => .pure _).mono (by decide)
  | false =>
    have hfield (selector : Nat) : Spends 30 (do pure ((← bits (fieldBits selector)) + 1)) :=
      ((Spends.bits _).bind fun n => .pure _).mono (fieldBits_le selector)
    exact (Spends.bits 2).bind hfield

theorem extent_spends : Spends 68 extent := by
  unfold extent
  apply (Spends.bits 1).bind (l := 67)
  intro first
  apply (side_spends _).bind (l := 35)
  intro height
  apply (Spends.bits 3).bind (l := 32)
  intro r
  split
  · exact (side_spends _).bind fun width => .pure _
  · exact (Spends.pure _).mono (by decide)

theorem size_take {codestream : Bytes} {width height : Nat}
    (h : size codestream = .ok (width, height)) :
    size (codestream.take longestHeader) = .ok (width, height) := by
  unfold size at h
  split at h
  · cases h
  rename_i hlong
  split at h
  · cases h
  rename_i hmarker
  have hlong' : ¬ (codestream.take longestHeader).length < shortestHeader := by
    rw [List.length_take, shortestHeader, longestHeader]
    rw [shortestHeader] at hlong
    omega
  have hmarker' : ¬ (codestream.take longestHeader).take 2 ≠ marker := by
    rwa [List.take_take]
  have hdata : (codestream.take longestHeader).drop 2 = (codestream.drop 2).take 9 :=
    List.drop_take
  unfold size
  rw [if_neg hlong', if_neg hmarker', hdata]
  rcases hextent : extent.run (.ofBytes (codestream.drop 2)) with s | ⟨⟨w, h'⟩, c⟩
  · rw [hextent] at h
    cases h
  · rw [hextent] at h
    obtain ⟨j, -, -, hkept⟩ := extent_spends _ 0 _ c hextent
    rw [BitCursor.ofBytes, hkept 9 (by decide)]
    exact h

end Jxl

end ImageProbe
