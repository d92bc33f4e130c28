import ImageProbe.Proofs.Run

namespace ImageProbe

open ByteReader

variable {α β ρ : Type} [ByteReader ρ]

namespace Script

/-- Whatever the stream delivers, the script fetches no more than so many bytes in all. -/
def Takes : Nat → Script α → Prop
  | _, done _ => True
  | k, fetch n next => n ≤ k ∧ ∀ h, (next h).Takes (k - n)
  | k, check halt next => (∀ why, (halt why).Takes k) ∧ next.Takes k
  | k, note _ next => next.Takes k

theorem Takes.mono {k l : Nat} {p : Script α} (hp : p.Takes k) (h : k ≤ l) : p.Takes l := by
  induction p generalizing k l with
  | done a => exact trivial
  | fetch n next ih =>
    obtain ⟨hn, hnext⟩ := hp
    exact ⟨Nat.le_trans hn h, fun haul => ih haul (hnext haul) (Nat.sub_le_sub_right h n)⟩
  | check halt next ihhalt ih =>
    exact ⟨fun why => ihhalt why (hp.1 why) h, ih hp.2 h⟩
  | note line next ih => exact ih hp h

theorem Takes.bind {k l : Nat} {p : Script α} {f : α → Script β} (hp : p.Takes k)
    (hf : ∀ a, (f a).Takes l) : (p >>= f).Takes (k + l) := by
  change (p.bind f).Takes (k + l)
  induction p generalizing k with
  | done a => exact (hf a).mono (Nat.le_add_left l k)
  | fetch n next ih =>
    obtain ⟨hn, hnext⟩ := hp
    refine ⟨Nat.le_add_right_of_le hn, fun haul => ?_⟩
    rw [Nat.sub_add_comm hn]
    exact ih haul (hnext haul)
  | check halt next ihhalt ih => exact ⟨fun why => ihhalt why (hp.1 why), ih hp.2⟩
  | note line next ih => exact ih hp

theorem Takes.run {k : Nat} {p : Script α} (hp : p.Takes k) (stop : Stop) (s : Session ρ) :
    (tape s.reader).bytes.length ≤ k + (tape (p.run stop s).2.reader).bytes.length := by
  induction p generalizing k s with
  | done a => exact Nat.le_add_left _ k
  | fetch n next ih =>
    obtain ⟨hn, hnext⟩ := hp
    have hrest := ih _ (hnext ((tape s.reader).haul n))
      { s with reader := (ByteReader.fetch s.reader n).2 }
    rw [run_fetch]
    rw [(fetch_eq s.reader n).2, Tape.drop_length] at hrest
    omega
  | check halt next ihhalt ih =>
    rw [Script.run]
    cases stop s.checks with
    | none => exact ih hp.2 { s with checks := s.checks + 1 }
    | some why => exact ihhalt why (hp.1 why) { s with checks := s.checks + 1 }
  | note line next ih => exact ih hp { s with log := line :: s.log }

end Script

namespace Reading

def Takes (k : Nat) (p : Reading α) : Prop := Script.Takes k p.run

variable {k l : Nat} {p : Reading α}

theorem Takes.mono (hp : p.Takes k) (h : k ≤ l) : p.Takes l := Script.Takes.mono hp h

theorem Takes.bind {f : α → Reading β} (hp : p.Takes k) (hf : ∀ a, (f a).Takes l) :
    (p >>= f).Takes (k + l) := by
  rw [Takes, ExceptT.run_bind]
  apply Script.Takes.bind hp
  rintro (e | a)
  · exact trivial
  · exact hf a

theorem Takes.pure (k : Nat) (a : α) : (Pure.pure a : Reading α).Takes k := trivial

theorem Takes.refuse (k : Nat) (format : ImageFormat) (defect : Defect) :
    (refuse format defect : Reading α).Takes k := trivial

theorem Takes.bind_require {f : Unit → Reading α} {holds : Bool}
    (hf : holds = true → (f ()).Takes k) (format : ImageFormat) (defect : Defect) :
    (require format holds defect >>= f).Takes k := by
  cases holds with
  | false => exact .refuse k format defect
  | true => exact hf rfl

theorem Takes.checkStop : checkStop.Takes 0 := ⟨fun _ => trivial, trivial⟩

theorem Takes.note (line : Note) : Takes 0 (writeNote line : Reading Unit) := trivial

theorem Takes.exactly (n : Nat) : (exactly n).Takes n := ⟨Nat.le_refl n, fun _ => trivial⟩

theorem Takes.skip (n : Nat) : (skip n).Takes n := (Takes.exactly n).bind (l := 0) fun _ => .pure 0 ()

theorem Takes.leNumber (n : Nat) : (leNumber n).Takes n :=
  (Takes.exactly n).bind (l := 0) fun _ => .pure 0 _

theorem Takes.run_exactly {n : Nat} {f : Bytes → Reading α} {s : Session ρ}
    (hf : (f ((tape s.reader).bytes.take n)).Takes k) (stop : Stop) :
    taken s.reader ((Reading.exactly n >>= f).run.run stop s).2.reader ≤ n + k := by
  have hnext : (Reading.exactly n >>= f).run = .fetch n fun h =>
      if h.bytes.length < n then .done (.error h.shortage) else (f h.bytes).run := by
    refine congrArg (Script.fetch n) (funext fun h => ?_)
    by_cases hshort : h.bytes.length < n
    · simp only [if_pos hshort]
      rfl
    · simp only [if_neg hshort]
      rfl
  have hrest : Script.Takes k (if ((tape s.reader).haul n).bytes.length < n then
      .done (.error ((tape s.reader).haul n).shortage)
      else (f ((tape s.reader).haul n).bytes).run) := by
    split
    · exact trivial
    · exact hf
  have htaken := hrest.run stop { s with reader := (ByteReader.fetch s.reader n).2 }
  rw [(fetch_eq s.reader n).2, Tape.drop_length] at htaken
  rw [hnext, Script.run_fetch, taken]
  omega

end Reading

end ImageProbe
