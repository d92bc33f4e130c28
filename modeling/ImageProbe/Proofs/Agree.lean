import ImageProbe.Proofs.Contained

namespace ImageProbe

open Box

variable {α β : Type} {stop : Stop}

theorem outcome_of_gives (stop : Stop) {p : Reading α} (hquiet : p.Quiet) {t t' : Tape} {a : α}
    (h : p.Gives t a t') (k : Nat) : p.run.outcome stop t k = (.ok a, t', k) := by
  rw [Script.outcome_of_checksOn stop (hquiet t), h]

theorem outcome_bind_gives (stop : Stop) {p : Reading α} (hquiet : p.Quiet) {t t' : Tape} {a : α}
    (h : p.Gives t a t') (f : α → Reading β) (k : Nat) :
    (p >>= f).run.outcome stop t k = (f a).run.outcome stop t' k := by
  rw [ExceptT.run_bind, Script.outcome_bind, outcome_of_gives stop hquiet h k]

theorem outcome_bind_check (stop : Stop) (f : Unit → Reading α) (t : Tape) (k : Nat) :
    (Reading.checkStop >>= f).run.outcome stop t k =
      (stop k).elim ((f ()).run.outcome stop t (k + 1))
        fun why => (.error (.stopped why), t, k + 1) :=
  Script.outcome_check (fun why => .done (.error (.stopped why))) (f ()).run t k

theorem Script.outcome_map (p : Script α) (g : α → β) (t : Tape) (k : Nat) :
    (g <$> p).outcome stop t k = (p.outcome stop t k).map g id :=
  outcome_bind p (fun a => .done (g a)) t k

/-- Two runs that made as many checks, with results that look the same in this view. -/
def AgreeBy (view : α → β) (x y : Showing α) : Prop :=
  view x.1 = view y.1 ∧ x.2.2 = y.2.2

namespace AgreeBy

variable {γ : Type} {view : β → γ}

theorem of_eq {x y : Showing β} (h : x = y) : AgreeBy view x y := by
  rw [h]
  exact ⟨rfl, rfl⟩

theorem weaken {x y : Showing β} (h : AgreeBy id x y) : AgreeBy view x y :=
  ⟨congrArg view h.1, h.2⟩

theorem trans {x y z : Showing β} (h : AgreeBy view x y) (h' : AgreeBy view y z) :
    AgreeBy view x z :=
  ⟨h.1.trans h'.1, h.2.trans h'.2⟩

theorem bind {p q : Script α} {F G : α → Script β} {t t' : Tape} {k : Nat}
    (hpq : AgreeBy id (p.outcome stop t k) (q.outcome stop t' k))
    (hFG : ∀ a (t t' : Tape) k, AgreeBy view ((F a).outcome stop t k) ((G a).outcome stop t' k)) :
    AgreeBy view ((p >>= F).outcome stop t k) ((q >>= G).outcome stop t' k) := by
  have hresult : (p.outcome stop t k).1 = (q.outcome stop t' k).1 := hpq.1
  rw [Script.outcome_bind, Script.outcome_bind, hresult, hpq.2]
  exact hFG _ _ _ _

theorem map {view' : α → γ} {g : α → β} (hg : ∀ a, view (g a) = view' a) {p q : Script α}
    {t t' : Tape} {k : Nat}
    (hpq : AgreeBy view' (p.outcome stop t k) (q.outcome stop t' k)) :
    AgreeBy view ((g <$> p).outcome stop t k) ((g <$> q).outcome stop t' k) := by
  rw [Script.outcome_map, Script.outcome_map]
  exact ⟨(hg _).trans (hpq.1.trans (hg _).symm), hpq.2⟩

theorem check {halt halt' : StopReason → Script β} {next next' : Script β} {t t' : Tape} {k : Nat}
    (hhalt : ∀ why k, AgreeBy view ((halt why).outcome stop t k) ((halt' why).outcome stop t' k))
    (hnext : ∀ k, AgreeBy view (next.outcome stop t k) (next'.outcome stop t' k)) :
    AgreeBy view ((Script.check halt next).outcome stop t k)
      ((Script.check halt' next').outcome stop t' k) := by
  rw [Script.outcome_check, Script.outcome_check]
  cases stop k with
  | none => exact hnext (k + 1)
  | some why => exact hhalt why (k + 1)

theorem follow {τ : Type} {L : τ → Tape → Nat → Showing β} {x y : Showing (Step τ β)}
    {t t' : Tape} (hxy : AgreeBy id x y) (hL : ∀ s k, AgreeBy view (L s t k) (L s t' k)) :
    AgreeBy view (Walk.follow L (passed t x)) (Walk.follow L (passed t' y)) := by
  rcases x with ⟨s | a, left, k⟩ <;> rcases y with ⟨s' | a', left', k'⟩ <;>
    obtain ⟨hresult, hchecks⟩ := hxy <;> cases hresult <;> cases hchecks
  · exact hL s k
  · exact ⟨rfl, rfl⟩

theorem reaches {w : Walk β} {T : StopReason → β → Prop} (hw : w.Heeds T) {state state' : w.State}
    {first rest : Bytes} {e e' : Option Fault}
    (h : w.Reaches state ⟨first ++ rest, e⟩ state' ⟨rest, e'⟩) (hrest : rest ≠ []) {t t' : Tape}
    (hthere : ∀ k, AgreeBy view (w.outcomeFrom stop state' t k) (w.outcomeFrom stop state' t' k))
    (k : Nat) :
    AgreeBy view (w.outcomeFrom stop state ⟨first ++ t.bytes, t.ending⟩ k)
      (w.outcomeFrom stop state ⟨first ++ t'.bytes, t'.ending⟩ k) := by
  rcases h.outcomeFrom hw stop hrest k with ⟨why, a, left, k', -, hstop⟩ | ⟨k', hon⟩
  · rw [hstop t, hstop t']
    exact ⟨rfl, rfl⟩
  · rw [hon t, hon t']
    exact hthere k'

theorem of_quiet {p q : Script β} (hp : p.Quiet) (hq : q.Quiet) {t : Tape}
    (h : view (p.eval t).1 = view (q.eval t).1) (k : Nat) :
    AgreeBy view (p.outcome stop t k) (q.outcome stop t k) := by
  rw [Script.outcome_of_checksOn stop (hp t), Script.outcome_of_checksOn stop (hq t)]
  exact ⟨h, rfl⟩

theorem of_constant {p q : Script α} {F : α → Script β} (c : γ) (hp : p.Quiet) (hq : q.Quiet)
    (hF : ∀ a, (F a).Quiet) (hview : ∀ a t, view ((F a).eval t).1 = c) (t : Tape) (k : Nat) :
    AgreeBy view ((p >>= F).outcome stop t k) ((q >>= F).outcome stop t k) := by
  apply of_quiet (hp.bind hF) (hq.bind hF)
  rw [Script.eval_bind, Script.eval_bind, hview, hview]

variable {ρ σ : Type} [ByteReader ρ] [ByteReader σ]

theorem decode {d d' : Decoder} {s : Session ρ} {s' : Session σ}
    (h : AgreeBy id (Walk.outcome d stop (ByteReader.tape s.reader) s.checks)
      (Walk.outcome d' stop (ByteReader.tape s'.reader) s'.checks)) :
    (d.decode stop s).1 = (d'.decode stop s').1 ∧
      (d.decode stop s).2.checks = (d'.decode stop s').2.checks := by
  have hshown : (d.run stop s).map id Session.core = _ := Walk.outcome_core d stop s
  have hshown' : (d'.run stop s').map id Session.core = _ := Walk.outcome_core d' stop s'
  have hresult := (congrArg Prod.fst hshown).trans (h.1.trans (congrArg Prod.fst hshown').symm)
  have hchecks := (congrArg (·.2.2) hshown).trans (h.2.trans (congrArg (·.2.2) hshown').symm)
  exact ⟨hresult, hchecks⟩

end AgreeBy

end ImageProbe
