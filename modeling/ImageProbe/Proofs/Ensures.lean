import ImageProbe.Proofs.Eval

namespace ImageProbe

variable {α β ρ : Type} [ByteReader ρ]

namespace Script

def Ensures (Q : α → Prop) : Script α → Prop
  | done a => Q a
  | fetch _ next => ∀ h, (next h).Ensures Q
  | check halt next => (∀ why, (halt why).Ensures Q) ∧ next.Ensures Q
  | note _ next => next.Ensures Q

theorem Ensures.of_forall {Q : α → Prop} (h : ∀ a, Q a) (p : Script α) : p.Ensures Q := by
  induction p with
  | done a => exact h a
  | fetch n next ih => exact ih
  | check halt next ihhalt ih => exact ⟨ihhalt, ih⟩
  | note line next ih => exact ih

theorem Ensures.bind {Q : α → Prop} {R : β → Prop} {p : Script α} {f : α → Script β}
    (hp : p.Ensures Q) (hf : ∀ a, Q a → (f a).Ensures R) : (p >>= f).Ensures R := by
  change (p.bind f).Ensures R
  induction p with
  | done a => exact hf a hp
  | fetch n next ih =>
    intro haul
    exact ih haul (hp haul)
  | check halt next ihhalt ih => exact ⟨fun why => ihhalt why (hp.1 why), ih hp.2⟩
  | note line next ih => exact ih hp

theorem Ensures.bind_forall {R : β → Prop} {p : Script α} {f : α → Script β}
    (hf : ∀ a, (f a).Ensures R) : (p >>= f).Ensures R :=
  Ensures.bind (Ensures.of_forall (fun _ => trivial) p) fun a _ => hf a

theorem Ensures.map {Q : β → Prop} {p : Script α} {f : α → β} (hp : p.Ensures fun a => Q (f a)) :
    (f <$> p).Ensures Q := hp.bind fun _ h => h

theorem Ensures.within {Q : α → Prop} {p : Script α} (hp : p.Ensures Q) (limit : Nat) :
    (p.within limit).Ensures fun a => Q a.1 := by
  induction p generalizing limit with
  | done a => exact hp
  | fetch n next ih =>
    intro haul
    exact ih haul (hp haul) _
  | check halt next ihhalt ih => exact ⟨fun why => ihhalt why (hp.1 why) limit, ih hp.2 limit⟩
  | note line next ih => exact ih hp limit

theorem ensures_note {Q : α → Prop} (lines : List Note) (a : α) (h : Q a) :
    (lines.foldr note (done a)).Ensures Q := by
  induction lines with
  | nil => exact h
  | cons line lines ih => exact ih

theorem Ensures.run {Q : α → Prop} {p : Script α} (hp : p.Ensures Q) (stop : Stop) (s : Session ρ) :
    Q (p.run stop s).1 := by
  induction p generalizing s with
  | done a => exact hp
  | fetch n next ih => exact ih _ (hp _) _
  | check halt next ihhalt ih =>
    rw [Script.run]
    cases stop s.checks with
    | none => exact ih hp.2 _
    | some why => exact ihhalt why (hp.1 why) _
  | note line next ih => exact ih hp _

end Script

def Step.All {σ : Type} (I : σ → Prop) (Q : α → Prop) : Step σ α → Prop
  | more state => I state
  | done a => Q a

namespace Reading

def Yields (Q : α → Prop) (p : Reading α) : Prop := p.run.Ensures fun r => ∀ a, r = .ok a → Q a

theorem Yields.pure {Q : α → Prop} {a : α} (h : Q a) : Yields Q (Pure.pure a) := by
  rintro b ⟨⟩
  exact h

theorem Yields.refuse (Q : α → Prop) (format : ImageFormat) (defect : Defect) :
    Yields Q (refuse format defect) := by
  rintro b ⟨⟩

theorem Yields.bind {Q : β → Prop} (p : Reading α) {f : α → Reading β}
    (hf : ∀ a, Yields Q (f a)) : Yields Q (p >>= f) := by
  rw [Yields, ExceptT.run_bind]
  apply Script.Ensures.bind_forall
  rintro (e | a)
  · rintro b ⟨⟩
  · exact hf a

end Reading

namespace Walk

structure Carries (w : Walk α) (I : w.State → Prop) (Q : α → Prop) : Prop where
  round (state : w.State) (bs : Bytes) : I state → (w.round state bs).Ensures (Step.All I Q)
  close (state : w.State) (e : ProbeError) : I state → (w.close state e).Ensures Q

theorem Carries.turn {w : Walk α} {I : w.State → Prop} {Q : α → Prop} (h : w.Carries I Q)
    {state : w.State} (hi : I state) : (w.turn state).Ensures (Step.All I Q) := by
  intro haul
  dsimp only
  split
  · exact .map (h.close state _ hi)
  · exact h.round state _ hi

theorem Carries.runFrom {w : Walk α} {I : w.State → Prop} {Q : α → Prop} (h : w.Carries I Q)
    (stop : Stop) (state : w.State) (s : Session ρ) (hi : I state) :
    Q (w.runFrom stop state s).1 := by
  revert hi
  refine w.runFrom_induction stop (fun state s ih hi => ?_) state s
  have hround := (h.turn hi).run stop s
  rw [runFrom_eq]
  rcases hout : (w.turn state).run stop s with ⟨state' | b, t⟩ <;> rw [hout] at hround ih
  · exact ih state' rfl hround
  · exact hround

end Walk

end ImageProbe
