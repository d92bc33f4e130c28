import ImageProbe.Proofs.Run
import ImageProbe.Stream.LookAhead

namespace ImageProbe

namespace LookAhead

variable {ρ : Type} [ByteReader ρ]

open ByteReader

def Honest (s : LookAhead ρ) : Prop := s.ended = true → tape s.inner = ⟨[], none⟩

theorem tape_unread (r : ρ) : tape ({ inner := r } : LookAhead ρ) = tape r := rfl

theorem honest_unread (r : ρ) : Honest ({ inner := r } : LookAhead ρ) := nofun

theorem bytes_eq (s : LookAhead ρ) : (tape s).bytes = s.pending ++ (tape s.inner).bytes := rfl

theorem look_idle {s : LookAhead ρ} {n : Nat} (h : s.ended = true ∨ n - s.pending.length = 0) :
    s.look n = (.ok (s.pending.take n), s) := by
  unfold look
  exact if_pos h

theorem look_inner {s : LookAhead ρ} {n : Nat} (h : ¬ (s.ended = true ∨ n - s.pending.length = 0)) :
    s.look n =
      let haul := (tape s.inner).haul (n - s.pending.length)
      let pending := s.pending ++ haul.bytes
      let inner := (gather stride [] s.inner (n - s.pending.length)).2
      match haul.fault with
      | some f => (.error f, { s with inner, pending })
      | none => (.ok (pending.take n),
          { s with inner, pending, ended := decide (haul.bytes.length < n - s.pending.length) }) := by
  have hg := (gather_eq stride [] s.inner (n - s.pending.length)).1
  simp only [List.reverse_nil, List.nil_append] at hg
  unfold look
  refine (if_neg h).trans ?_
  rcases hgot : gather stride [] s.inner (n - s.pending.length) with ⟨haul, inner⟩
  rw [hgot] at hg
  obtain rfl : haul = _ := hg
  rfl

/-- A look gives what the tape says, keeps the tape as it is, and fetches no more than it needs. -/
theorem look_spec {s : LookAhead ρ} (hs : s.Honest) (n : Nat) :
    (s.look n).1 = (match ((tape s).haul n).fault with
        | some f => .error f
        | none => .ok ((tape s).bytes.take n)) ∧
      tape (s.look n).2 = tape s ∧ (s.look n).2.Honest ∧
      (s.look n).2.pending.length = max s.pending.length (min n (tape s).bytes.length) := by
  by_cases hd : s.ended = true ∨ n - s.pending.length = 0
  · rw [look_idle hd]
    have hb : (tape s.inner).bytes.take (n - s.pending.length) = [] := by
      rcases hd with hd | hd
      · simp [hs hd]
      · simp [hd]
    have hf : ((tape s).haul n).fault = none := by
      rcases hd with hd | hd
      · have hending : (tape s).ending = none := congrArg Tape.ending (hs hd)
        simp only [Tape.haul, hending, ite_self]
      · simp only [Tape.haul, bytes_eq, List.length_append]
        exact if_neg (by omega)
    rw [hf, bytes_eq, List.take_append, hb, List.append_nil]
    refine ⟨rfl, rfl, hs, ?_⟩
    rw [← List.length_eq_zero_iff, List.length_take] at hb
    dsimp only
    rw [List.length_append]
    omega
  · rw [look_inner hd]
    obtain ⟨he, hn⟩ := not_or.1 hd
    have ht := (gather_eq stride [] s.inner (n - s.pending.length)).2
    have hf : ((tape s.inner).haul (n - s.pending.length)).fault = ((tape s).haul n).fault := by
      simp only [Tape.haul, bytes_eq, List.length_append]
      have : (tape s.inner).bytes.length < n - s.pending.length ↔
          s.pending.length + (tape s.inner).bytes.length < n := by omega
      simp only [this]
      rfl
    have hl : (s.pending ++ ((tape s.inner).haul (n - s.pending.length)).bytes).length =
        max s.pending.length (min n (tape s).bytes.length) := by
      simp only [Tape.haul, bytes_eq, List.length_append, List.length_take]
      omega
    have htape (e : Bool) : tape (LookAhead.mk (gather stride [] s.inner (n - s.pending.length)).2
        (s.pending ++ ((tape s.inner).haul (n - s.pending.length)).bytes) s.handed e) = tape s := by
      change Tape.mk _ _ = Tape.mk _ _
      simp [ht, Tape.haul, Tape.drop]
    dsimp only
    rw [hf]
    cases hfault : ((tape s).haul n).fault with
    | some f => exact ⟨rfl, htape _, fun h => absurd h he, hl⟩
    | none =>
      refine ⟨?_, htape _, fun h => ?_, hl⟩
      · simp [bytes_eq, Tape.haul, List.take_append, List.take_take]
      · simp only [decide_eq_true_eq, Tape.haul, List.length_take] at h
        simp only [Tape.haul, bytes_eq, List.length_append] at hfault
        rw [if_pos (by omega)] at hfault
        have hending : (tape s.inner).ending = none := hfault
        change tape (gather _ _ _ _).2 = _
        rw [ht, Tape.drop, hending, List.drop_of_length_le (by omega)]

theorem read_keeps_inner (n : Nat) (s : LookAhead ρ) (k : Nat)
    (h : (tape s.inner).bytes.length = min n (tape s).bytes.length) :
    (tape (ByteReader.read s k).2.inner).bytes.length =
      min n (tape (ByteReader.read s k).2).bytes.length := by
  change (tape (s.read k).2.inner).bytes.length = min n (tape (s.read k).2).bytes.length
  simp only [bytes_eq, List.length_append] at h ⊢
  unfold read
  by_cases hp : s.pending = []
  · have hle : (tape (ByteReader.read s.inner k).2).bytes.length ≤ (tape s.inner).bytes.length := by
      have hf := faithful s.inner k
      rcases hr : ByteReader.read s.inner k with ⟨bs | _ | f, r⟩ <;> rw [hr] at hf
      · simp [hf.1]
      · simp [hf.1]
      · simp [hf.1]
    simp only [hp, if_true, List.length_nil] at h ⊢
    omega
  · have hpos := List.length_pos_iff.2 hp
    simp only [hp, if_false]
    omega

end LookAhead

end ImageProbe
