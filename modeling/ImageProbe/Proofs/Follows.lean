import ImageProbe.Proofs.Ensures

namespace ImageProbe

variable {α β γ γ' ρ : Type} [ByteReader ρ]

namespace Script

/-- Two scripts that take the same bytes, make the same checks and write the same notes. As long as
no more bytes come than were asked for, the second one ends with a value that has the property, and
the first one with what this is mapped to. -/
inductive Follows (g : α → β) (Q : α → Prop) : Script β → Script α → Prop
  | done {a : α} {b : β} (heq : b = g a) (h : Q a) : Follows g Q (done b) (done a)
  | fetch {n : Nat} {next' : Haul → Script β} {next : Haul → Script α}
      (h : ∀ haul : Haul, haul.bytes.length ≤ n → Follows g Q (next' haul) (next haul)) :
      Follows g Q (fetch n next') (fetch n next)
  | check {halt' : StopReason → Script β} {halt : StopReason → Script α} {next' : Script β}
      {next : Script α} (hhalt : ∀ why, Follows g Q (halt' why) (halt why)) (h : Follows g Q next' next) :
      Follows g Q (check halt' next') (check halt next)
  | note (line : Note) {next' : Script β} {next : Script α} (h : Follows g Q next' next) :
      Follows g Q (note line next') (note line next)

namespace Follows

variable {g : α → β} {k : γ → γ'} {Q Q' : α → Prop} {R : γ → Prop} {p' : Script β} {p : Script α}

theorem refl (hp : p.Ensures Q) : Follows id Q p p := by
  induction p with
  | done a => exact .done rfl hp
  | fetch n next ih => exact .fetch fun haul _ => ih haul (hp haul)
  | check halt next ihhalt ih => exact .check (fun why => ihhalt why (hp.1 why)) (ih hp.2)
  | note line next ih => exact .note line (ih hp)

theorem bind {f' : β → Script γ'} {f : α → Script γ} (hp : Follows g Q p' p)
    (hf : ∀ a, Q a → Follows k R (f' (g a)) (f a)) : Follows k R (p' >>= f') (p >>= f) := by
  change Follows k R (p'.bind f') (p.bind f)
  induction hp with
  | done heq h => exact heq ▸ hf _ h
  | fetch _ ih => exact .fetch ih
  | check _ _ ihhalt ih => exact .check ihhalt ih
  | note line _ ih => exact .note line ih

theorem weaken (hp : Follows g Q p' p) (h : ∀ a, Q a → Q' a) : Follows g Q' p' p := by
  induction hp with
  | done heq hQ => exact .done heq (h _ hQ)
  | fetch _ ih => exact .fetch ih
  | check _ _ ihhalt ih => exact .check ihhalt ih
  | note line _ ih => exact .note line ih

theorem map {m : β → γ} (hp : Follows g Q p' p) : Follows (fun a => m (g a)) Q (m <$> p') p := by
  change Follows _ Q (p'.bind fun b => .done (m b)) p
  induction hp with
  | done heq hQ => exact .done (congrArg m heq) hQ
  | fetch _ ih => exact .fetch ih
  | check _ _ ihhalt ih => exact .check ihhalt ih
  | note line _ ih => exact .note line ih

theorem run (hp : Follows g Q p' p) (stop : Stop) (s : Session ρ) :
    p'.run stop s = (p.run stop s).map g id ∧ Q (p.run stop s).1 := by
  induction hp generalizing s with
  | done heq h => exact ⟨by rw [heq]; rfl, h⟩
  | @fetch n next' next _ ih =>
    have hlen : (ByteReader.fetch s.reader n).1.bytes.length ≤ n := by
      rw [(ByteReader.fetch_eq s.reader n).1, Tape.haul, List.length_take]
      exact Nat.min_le_left _ _
    exact ih _ hlen _
  | check _ _ ihhalt ih =>
    rw [Script.run, Script.run]
    cases stop s.checks with
    | none => exact ih _
    | some why => exact ihhalt why _
  | note line _ ih => exact ih _

end Follows

end Script

end ImageProbe
