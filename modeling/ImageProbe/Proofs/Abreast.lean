import ImageProbe.Box.Header
import ImageProbe.Proofs.Eval

namespace ImageProbe

variable {α β : Type}

namespace ProbeError

def blurred : ProbeError → ProbeError
  | .malformed _ defect => .malformed .heic defect
  | e => e

theorem blurred_eq_endOfData (e : ProbeError) : e.blurred = .endOfData ↔ e = .endOfData := by
  cases e <;> simp [blurred]

theorem endOfData_iff {e e' : ProbeError} (h : e.blurred = e'.blurred) :
    e = .endOfData ↔ e' = .endOfData := by
  rw [← e.blurred_eq_endOfData, h, e'.blurred_eq_endOfData]

end ProbeError

inductive Parallel (R : α → β → Prop) : Except ProbeError α → Except ProbeError β → Prop
  | ok {a : α} {b : β} (h : R a b) : Parallel R (.ok a) (.ok b)
  | error {e e' : ProbeError} (h : e.blurred = e'.blurred) : Parallel R (.error e) (.error e')

theorem Parallel.refl (r : Except ProbeError α) : Parallel Eq r r := by
  cases r with
  | error e => exact .error rfl
  | ok a => exact .ok rfl

namespace Reading

variable {R : α → α → Prop} {S : β → β → Prop}

def Abreast (R : α → α → Prop) (p q : Reading α) : Prop :=
  ∀ t, Parallel R (p.run.eval t).1 (q.run.eval t).1 ∧ (p.run.eval t).2 = (q.run.eval t).2

theorem Abreast.refl (p : Reading α) : Abreast Eq p p := fun _ => ⟨.refl _, rfl⟩

theorem Abreast.pure {a b : α} (h : R a b) : Abreast R (Pure.pure a) (Pure.pure b) :=
  fun _ => ⟨.ok h, rfl⟩

theorem Abreast.refuse (R : α → α → Prop) (format format' : ImageFormat) (defect : Defect) :
    Abreast R (refuse format defect) (refuse format' defect) := fun _ => ⟨.error rfl, rfl⟩

theorem Abreast.require (format format' : ImageFormat) (c : Bool) (defect : Defect) :
    Abreast Eq (require format c defect) (require format' c defect) := by
  rw [Reading.require, Reading.require]
  split
  · exact .refl _
  · exact .refuse Eq format format' defect

theorem Abreast.bind {p q : Reading α} {f g : α → Reading β} (hpq : Abreast R p q)
    (hfg : ∀ a b, R a b → Abreast S (f a) (g b)) : Abreast S (p >>= f) (q >>= g) := by
  intro t
  have h := hpq t
  rw [ExceptT.run_bind, ExceptT.run_bind, Script.eval_bind, Script.eval_bind]
  generalize p.run.eval t = out at h ⊢
  generalize q.run.eval t = out' at h ⊢
  obtain ⟨r, t₁⟩ := out
  obtain ⟨r', t₂⟩ := out'
  obtain ⟨hresult, rfl⟩ : Parallel R r r' ∧ t₁ = t₂ := h
  cases hresult with
  | ok h => exact hfg _ _ h t₁
  | error h => exact ⟨.error h, rfl⟩

theorem Abreast.bind_eq {p q : Reading α} {f g : α → Reading β} (hpq : Abreast Eq p q)
    (hfg : ∀ a, Abreast S (f a) (g a)) : Abreast S (p >>= f) (q >>= g) :=
  hpq.bind fun a _ h => h ▸ hfg a

theorem Abreast.gives {p q : Reading α} {a : α} {t t' : Tape} (hpq : Abreast Eq p q)
    (hp : p.Gives t a t') : q.Gives t a t' := by
  have h := hpq t
  rw [Reading.Gives] at hp ⊢
  rw [hp] at h
  generalize q.run.eval t = out at h ⊢
  obtain ⟨r, t₁⟩ := out
  obtain ⟨hresult, rfl⟩ : Parallel Eq (.ok a) r ∧ t' = t₁ := h
  cases hresult with
  | ok h => rw [h]

theorem Abreast.fails {p q : Reading α} {e : ProbeError} {t t' : Tape} (hpq : Abreast R p q)
    (hp : p.run.eval t = (.error e, t')) :
    ∃ e', q.run.eval t = (.error e', t') ∧ e.blurred = e'.blurred := by
  have h := hpq t
  rw [hp] at h
  generalize q.run.eval t = out at h ⊢
  obtain ⟨r, t₁⟩ := out
  obtain ⟨hresult, rfl⟩ : Parallel R (.error e) r ∧ t' = t₁ := h
  cases hresult with
  | error h => exact ⟨_, rfl, h⟩

end Reading

namespace Box

open Reading

theorem header_abreast (format format' : ImageFormat) (head : Bytes) :
    Abreast Eq (header format head) (header format' head) := by
  unfold header
  dsimp only
  split
  · exact .refl _
  split
  · apply (Abreast.refl _).bind_eq
    intro size
    exact (Abreast.require _ _ _ _).bind_eq fun _ => .refl _
  · exact (Abreast.require _ _ _ _).bind_eq fun _ => .refl _

end Box

end ImageProbe
