import Mathlib.Data.List.Infix
import ImageProbe.Proofs.Eval
import ImageProbe.Proofs.Prompt

namespace ImageProbe

variable {α σ : Type}

namespace Tape

theorem haul_cut {t t' : Tape} (h : t'.bytes <+: t.bytes) {n : Nat} (hn : n ≤ t'.bytes.length) :
    t'.haul n = t.haul n := by
  have hlen := h.length_le
  have htake : t'.bytes.take n = t.bytes.take n := by
    obtain ⟨rest, hrest⟩ := h
    rw [← hrest, List.take_append_of_le_length hn]
  rw [haul, haul, htake, if_neg (by omega), if_neg (by omega)]

theorem clip_cut {t t' : Tape} (h : t'.bytes <+: t.bytes) {n : Nat} (hn : n ≤ t'.bytes.length) :
    t'.clip n = t.clip n := by
  have hhaul := haul_cut h hn
  have hlen := h.length_le
  rw [clip, clip, if_neg (by omega), if_neg (by omega)]
  exact congrArg (Tape.mk · none) (congrArg Haul.bytes hhaul)

end Tape

namespace Script

/-- A script on a tape that ends too early takes all of it, or does not notice. -/
theorem eval_cut (p : Script α) {t t' : Tape} (h : t'.bytes <+: t.bytes) :
    (p.eval t').2.bytes = [] ∨
      (p.eval t').1 = (p.eval t).1 ∧ (p.eval t').2.bytes <+: (p.eval t).2.bytes := by
  induction p generalizing t t' with
  | done a => exact .inr ⟨rfl, h⟩
  | fetch n next ih =>
    rcases Nat.lt_or_ge t'.bytes.length n with hn | hn
    · left
      have hlen := eval_length_le (next (t'.haul n)) (t'.drop n)
      rw [Tape.drop_length] at hlen
      apply List.eq_nil_of_length_eq_zero
      change ((next (t'.haul n)).eval (t'.drop n)).2.bytes.length = 0
      omega
    · have hdrop : (t'.drop n).bytes <+: (t.drop n).bytes := h.drop n
      rw [eval, eval, Tape.haul_cut h hn]
      exact ih _ hdrop
  | check halt next _ ih => exact ih h
  | note line next ih => exact ih h

theorem Ends.eval {Q : α → Prop} {p : Script α} (hp : p.Ends Q) (t : Tape) : Q (p.eval t).1 := by
  induction p with
  | done a => exact hp
  | fetch n next => exact hp.elim
  | check halt next => exact hp.elim
  | note line next ih => exact ih hp

theorem Prompt.eval_cut {L : Option Fault → α → Prop} {p : Script α} (hp : p.Prompt L)
    {t t' : Tape} (h : t'.bytes <+: t.bytes) (hL : ∀ e, ¬ L e (p.eval t').1) :
    (p.eval t').1 = (p.eval t).1 ∧ (p.eval t').2.bytes <+: (p.eval t).2.bytes := by
  induction p generalizing t t' with
  | done a => exact ⟨rfl, h⟩
  | fetch n next ih =>
    rcases Nat.lt_or_ge t'.bytes.length n with hn | hn
    · have hends := (hp (t'.haul n)).2 (by simp only [Tape.haul, List.length_take]; omega)
      exact absurd (hends.eval (t'.drop n)) (hL _)
    · have hnone : (t'.haul n).fault = none := if_neg (Nat.not_lt.2 hn)
      have hdrop : (t'.drop n).bytes <+: (t.drop n).bytes := h.drop n
      rw [eval] at hL ⊢
      rw [eval, ← Tape.haul_cut h hn]
      exact ih _ ((hp _).1 hnone) hdrop hL
  | check halt next _ ih => exact ih hp.2 h hL
  | note line next ih => exact ih hp h hL

end Script

theorem Reading.Prompt.gives_cut {p : Reading α} (hp : Reading.Prompt p) {t t' rest' : Tape}
    {a : α} (h : t'.bytes <+: t.bytes) (hgives : p.Gives t' a rest') :
    ∃ rest, p.Gives t a rest ∧ rest'.bytes <+: rest.bytes := by
  rw [Gives] at hgives
  have hL (e : Option Fault) : ¬ Lost e (p.run.eval t').1 := by
    rw [hgives, Lost]
    rintro ⟨⟩
  obtain ⟨hresult, hrest⟩ := hp.lost.eval_cut h hL
  rw [hgives] at hresult hrest
  exact ⟨(p.run.eval t).2, Prod.ext hresult.symm rfl, hrest⟩

end ImageProbe
