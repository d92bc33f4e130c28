import Mathlib.Order.Basic
import ImageProbe.Proofs.LookAhead

namespace ImageProbe

def Delivery.got : Delivery → Bytes
  | bytes bs => bs
  | interrupted => []
  | fault _ => []

namespace LookAhead

open ByteReader

inductive Call
  | peek (n : Nat)
  | read (n : Nat)

/-- A view in use, with what its reads have delivered so far. -/
structure Use (ρ : Type) where
  view : LookAhead ρ
  delivered : Bytes := []
  farthest : Nat := 0

variable {ρ : Type} [ByteReader ρ]

def Call.size : Call → Nat
  | peek n => n
  | read n => n

namespace Use

def ofStream (r : ρ) : Use ρ := { view := { inner := r } }

def call (u : Use ρ) (c : Call) : Use ρ where
  view := match c with
    | .peek n => (u.view.peek n).2
    | .read n => (u.view.read n).2
  delivered := match c with
    | .peek _ => u.delivered
    | .read n => u.delivered ++ (u.view.read n).1.got
  farthest := max u.farthest (u.delivered.length + c.size)

def Fails (u : Use ρ) : Call → Prop
  | .peek n => ∀ bs, (u.view.peek n).1 ≠ .ok bs
  | .read n => ∀ bs, (u.view.read n).1 ≠ .bytes bs

structure Kept (r : ρ) (u : Use ρ) : Prop where
  whole : (tape r).bytes = u.delivered ++ (tape u.view).bytes
  ending : (tape u.view).ending = (tape r).ending
  honest : u.view.Honest
  near : u.delivered.length + u.view.pending.length ≤ u.farthest
  counted : u.view.handed ≤ u.delivered.length

/-- What the bytes of the stream are to the user of the view, and what the calls make of them. -/
structure Transparent (r : ρ) (u : Use ρ) : Prop where
  whole : u.delivered ++ u.view.pending ++ (tape u.view.inner).bytes = (tape r).bytes
  ending : (tape u.view.inner).ending = (tape r).ending
  near : taken r u.view.inner ≤ u.farthest
  counted : u.view.handed ≤ u.delivered.length
  peeked {n : Nat} {bs : Bytes} : (u.view.peek n).1 = .ok bs →
    bs = ((tape r).bytes.drop u.delivered.length).take n ∧
      (bs.length < n → tape (u.view.peek n).2.inner = ⟨[], none⟩)
  unpeeked {n : Nat} {e : PeekError} : u.view.handed + n < range64 →
    (u.view.peek n).1 = .error e → ∃ f, e = .fault f ∧ (tape r).ending = some f ∧
      ((tape r).bytes.drop u.delivered.length).length < n
  read {n : Nat} {bs : Bytes} : (u.view.read n).1 = .bytes bs →
    bs <+: ((tape r).bytes.drop u.delivered.length).take n ∧
      (bs = [] → n = 0 ∨ (tape r).bytes.drop u.delivered.length = [] ∧ (tape r).ending = none)
  failed {c : Call} : u.Fails c →
    (u.call c).delivered = u.delivered ∧ tape (u.call c).view = tape u.view

end Use

theorem peek_view (s : LookAhead ρ) (n : Nat) : (s.peek n).2 = (s.look n).2 := by
  unfold peek
  rcases s.look n with ⟨f | bs, s'⟩
  · rfl
  · rfl

theorem read_tape (s : LookAhead ρ) (n : Nat) :
    tape s = ⟨(s.read n).1.got ++ (tape (s.read n).2).bytes, (tape (s.read n).2).ending⟩ := by
  have hf : (s.read n).1.Faithful n (tape s) (tape (s.read n).2) _ _ := faithful s n
  rcases hr : s.read n with ⟨bs | _ | f, s'⟩ <;> rw [hr] at hf
  · exact hf.1
  · exact hf.1.symm
  · exact hf.1.symm

theorem read_pending (s : LookAhead ρ) (n : Nat) :
    (s.read n).1.got.length + (s.read n).2.pending.length ≤ max n s.pending.length := by
  unfold read
  by_cases hp : s.pending = []
  · have hf := faithful s.inner n
    simp only [hp, if_true]
    rcases hr : ByteReader.read s.inner n with ⟨bs | _ | f, r⟩ <;> rw [hr] at hf
    · have hlen := hf.2.1
      simp only [Delivery.got, List.length_nil]
      omega
    · simp [Delivery.got]
    · simp [Delivery.got]
  · simp only [hp, if_false, Delivery.got, List.length_take, List.length_drop]
    omega

theorem read_handed (s : LookAhead ρ) (n : Nat) :
    (s.read n).2.handed ≤ s.handed + (s.read n).1.got.length := by
  unfold read
  by_cases hp : s.pending = []
  · simp only [hp, if_true]
    exact Nat.le_add_right _ _
  · simp only [hp, if_false, Delivery.got, List.length_take]
    exact Nat.le_refl _

theorem read_honest {s : LookAhead ρ} (hs : s.Honest) (n : Nat) : (s.read n).2.Honest := by
  unfold read
  by_cases hp : s.pending = []
  · simp only [hp, if_true]
    intro hended
    have hinner : tape s.inner = ⟨[], none⟩ := hs hended
    have hf := faithful s.inner n
    rw [hinner] at hf
    rcases hr : ByteReader.read s.inner n with ⟨bs | _ | f, r⟩ <;> rw [hr] at hf
    · obtain ⟨hbytes, hending⟩ := Tape.mk.inj hf.1
      exact (congrArg₂ Tape.mk (List.append_eq_nil_iff.1 hbytes.symm).2 hending.symm :
        tape r = ⟨[], none⟩)
    · exact hf.1
    · exact hf.1
  · simp only [hp, if_false]
    exact hs

theorem look_handed (s : LookAhead ρ) (n : Nat) : (s.look n).2.handed = s.handed := by
  by_cases hd : s.ended = true ∨ n - s.pending.length = 0
  · rw [look_idle hd]
  · rw [look_inner hd]
    dsimp only
    split
    · rfl
    · rfl

theorem peek_in_range {s : LookAhead ρ} (hs : s.Honest) {n : Nat}
    (hrange : s.handed + n < range64) :
    (s.peek n).1 = match ((tape s).haul n).fault with
      | some f => .error (.fault f)
      | none => .ok ((tape s).bytes.take n) := by
  obtain ⟨hlook, -⟩ := look_spec hs n
  have hhanded := look_handed s n
  unfold peek
  rcases hl : s.look n with ⟨got, s'⟩
  rw [hl] at hlook hhanded
  obtain rfl : got = _ := hlook
  cases hfault : ((tape s).haul n).fault with
  | some f => rfl
  | none => exact if_pos (hhanded ▸ hrange)

theorem peek_cases {s : LookAhead ρ} (hs : s.Honest) {n : Nat} (hrange : s.handed + n < range64) :
    (s.peek n).1 = .ok ((tape s).bytes.take n) ∧
        ((tape s).bytes.length < n → (tape s).ending = none) ∨
      ∃ f, (s.peek n).1 = .error (.fault f) ∧ (tape s).ending = some f ∧
        (tape s).bytes.length < n := by
  rw [peek_in_range hs hrange, Tape.haul]
  by_cases hshort : (tape s).bytes.length < n
  · rw [if_pos hshort]
    cases (tape s).ending with
    | none => exact .inl ⟨rfl, fun _ => rfl⟩
    | some f => exact .inr ⟨f, rfl, rfl, hshort⟩
  · rw [if_neg hshort]
    exact .inl ⟨rfl, fun h => absurd h hshort⟩

theorem in_range_of_peek_ok {s : LookAhead ρ} {n : Nat} {bs : Bytes} (h : (s.peek n).1 = .ok bs) :
    s.handed + n < range64 := by
  have hhanded := look_handed s n
  unfold peek at h
  rcases hl : s.look n with ⟨f | got, s'⟩
  · rw [hl] at h
    exact nomatch h
  · rw [hl] at h hhanded
    by_contra hout
    rw [← hhanded] at hout
    simp [hout] at h

theorem peek_drained {s : LookAhead ρ} (hs : s.Honest) {n : Nat}
    (hshort : (tape s).bytes.length < n) (hplain : (tape s).ending = none) :
    tape (s.peek n).2.inner = ⟨[], none⟩ := by
  obtain ⟨-, htape, -, hpending⟩ := look_spec hs n
  rw [peek_view]
  have hlen : (tape (s.look n).2).bytes.length = (tape s).bytes.length := by rw [htape]
  rw [bytes_eq, List.length_append] at hlen
  have hall : (tape (s.look n).2.inner).bytes = [] := List.length_eq_zero_iff.1 (by omega)
  exact congrArg₂ Tape.mk hall ((congrArg Tape.ending htape).trans hplain)

namespace Use

variable {r : ρ} {u : Use ρ}

theorem kept_ofStream (r : ρ) : Kept r (ofStream r) where
  whole := rfl
  ending := rfl
  honest := nofun
  near := Nat.le_refl _
  counted := Nat.le_refl _

theorem Kept.peek (hu : Kept r u) (n : Nat) : Kept r (u.call (.peek n)) := by
  obtain ⟨-, htape, hhonest, hpending⟩ := look_spec hu.honest n
  have hhanded := look_handed u.view n
  have hnear := hu.near
  have hcounted := hu.counted
  rw [← peek_view] at htape hhonest hpending hhanded
  constructor
  · exact hu.whole.trans (congrArg (u.delivered ++ ·.bytes) htape.symm)
  · exact (congrArg Tape.ending htape).trans hu.ending
  · exact hhonest
  · simp only [call, Call.size]
    omega
  · exact hhanded.trans_le hcounted

theorem Kept.read (hu : Kept r u) (n : Nat) : Kept r (u.call (.read n)) := by
  have htape := read_tape u.view n
  have hpending := read_pending u.view n
  have hhanded := read_handed u.view n
  have hnear := hu.near
  have hcounted := hu.counted
  constructor
  · refine (hu.whole.trans (congrArg (u.delivered ++ ·.bytes) htape)).trans ?_
    exact (List.append_assoc ..).symm
  · exact (congrArg Tape.ending htape).symm.trans hu.ending
  · exact read_honest hu.honest n
  · simp only [call, Call.size, List.length_append]
    omega
  · simp only [call, List.length_append]
    omega

theorem kept_calls (r : ρ) (calls : List Call) : Kept r (calls.foldl call (ofStream r)) := by
  have h (u : Use ρ) (hu : Kept r u) : Kept r (calls.foldl call u) := by
    induction calls generalizing u with
    | nil => exact hu
    | cons c calls ih =>
      cases c with
      | peek n => exact ih _ (hu.peek n)
      | read n => exact ih _ (hu.read n)
  exact h _ (kept_ofStream r)

theorem Kept.left (hu : Kept r u) :
    (tape r).bytes.drop u.delivered.length = (tape u.view).bytes := by
  rw [hu.whole, List.drop_left]

theorem Kept.taken_eq (hu : Kept r u) :
    taken r u.view.inner = u.delivered.length + u.view.pending.length := by
  have hlen := congrArg List.length hu.whole
  rw [bytes_eq, List.length_append, List.length_append] at hlen
  unfold taken
  omega

theorem Kept.failed (hu : Kept r u) {c : Call} (hc : u.Fails c) :
    (u.call c).delivered = u.delivered ∧ tape (u.call c).view = tape u.view := by
  cases c with
  | peek n =>
    obtain ⟨-, htape, -⟩ := look_spec hu.honest n
    exact ⟨rfl, (congrArg tape (peek_view u.view n)).trans htape⟩
  | read n =>
    have htape := read_tape u.view n
    have hgot : (u.view.read n).1.got = [] := by
      cases hr : (u.view.read n).1 with
      | bytes bs => exact absurd hr (hc bs)
      | interrupted => rfl
      | fault f => rfl
    rw [hgot, List.nil_append] at htape
    refine ⟨?_, htape.symm⟩
    simp only [call, hgot, List.append_nil]

theorem Kept.transparent (hu : Kept r u) : Transparent r u where
  whole := (List.append_assoc ..).trans hu.whole.symm
  ending := hu.ending
  near := hu.taken_eq.trans_le hu.near
  counted := hu.counted
  peeked {n bs} h := by
    rw [hu.left]
    rcases peek_cases hu.honest (in_range_of_peek_ok h) with ⟨hok, hplain⟩ | ⟨f, herror, -⟩
    · obtain rfl : bs = (tape u.view).bytes.take n := Except.ok.inj (h.symm.trans hok)
      refine ⟨rfl, fun hshort => ?_⟩
      have hfew : (tape u.view).bytes.length < n := by
        rw [List.length_take] at hshort
        omega
      exact peek_drained hu.honest hfew (hplain hfew)
    · cases h.symm.trans herror
  unpeeked {n e} hrange h := by
    rw [hu.left, ← hu.ending]
    rcases peek_cases hu.honest hrange with ⟨hok, -⟩ | ⟨f, herror, hfault⟩
    · cases h.symm.trans hok
    · exact ⟨f, Except.error.inj (h.symm.trans herror), hfault⟩
  read {n bs} h := by
    rw [hu.left, ← hu.ending]
    have hf : (u.view.read n).1.Faithful n (tape u.view) (tape (u.view.read n).2) _ _ :=
      faithful u.view n
    rw [h] at hf
    obtain ⟨hsplit, hlen, hnone, -⟩ := hf
    constructor
    · rw [hsplit]
      exact List.prefix_take_iff.2 ⟨List.prefix_append _ _, hlen⟩
    · intro hempty
      refine (hnone hempty).imp id fun hend => ?_
      rw [hend]
      exact ⟨rfl, rfl⟩
  failed := hu.failed

/-- Whatever is asked of the view in whatever order, it is transparent. -/
theorem calls_transparent (r : ρ) (calls : List Call) :
    Transparent r (calls.foldl call (ofStream r)) :=
  (kept_calls r calls).transparent

theorem calls_transparent_failing :
    let tape : Tape := ⟨[1, 2, 3, 4, 5], some ⟨.other, "reset"⟩⟩
    let r : Source := ⟨tape, fun _ => 1, fun _ => some 2, 0, 0, 0⟩
    let u := [Call.peek 3, .read 2].foldl call (ofStream r)
    let v := [Call.peek 3, .read 2, .peek 9].foldl call (ofStream r)
    u.delivered = [1, 2] ∧ u.view.pending = [3] ∧ u.Fails (.peek 9) ∧
      v.delivered = [1, 2] ∧ v.view.pending = [3, 4, 5] ∧ Transparent r v := by
  intro tape r u v
  have hpeek : (u.view.peek 9).1.toOption = none := by decide +kernel
  refine ⟨by decide +kernel, by decide +kernel, ?_, by decide +kernel, by decide +kernel, ?_⟩
  · intro bs h
    rw [h] at hpeek
    exact nomatch hpeek
  · exact calls_transparent r [.peek 3, .read 2, .peek 9]

end Use

end LookAhead

end ImageProbe
