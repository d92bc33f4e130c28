import ImageProbe.Stream.Source
import ImageProbe.Walk

namespace ImageProbe

variable {α β ρ σ : Type} [ByteReader ρ] [ByteReader σ]

namespace ByteReader

def taken (before after : ρ) : Nat := (tape before).bytes.length - (tape after).bytes.length

theorem gather_keeps {P : ρ → Prop} (hP : ∀ r n, P r → P (read r n).2) (stride : Nat) (got : Bytes)
    (r : ρ) (n : Nat) (h : P r) : P (gather stride got r n).2 := by
  fun_induction gather stride got r n with
  | case1 got r => exact h
  | case2 got r n hn r' hr => exact congrArg Prod.snd hr ▸ hP _ _ h
  | case3 got r n hn b bs r' hr ih =>
    have h' := hP r (min n (stride + 1)) h
    rw [hr] at h'
    exact ih h'
  | case4 got r n hn r' hr ih =>
    have h' := hP r (min n (stride + 1)) h
    rw [hr] at h'
    exact ih h'
  | case5 got r n hn f r' hr => exact congrArg Prod.snd hr ▸ hP _ _ h

end ByteReader

open ByteReader

namespace Session

def core (s : Session ρ) : Tape × Nat := (tape s.reader, s.checks)

theorem core_fetch (s : Session ρ) (n : Nat) :
    core { s with reader := (fetch s.reader n).2 } = (s.core.1.drop n, s.core.2) := by
  simp only [core, (fetch_eq s.reader n).2]

end Session

namespace Script

theorem run_fetch (stop : Stop) (n : Nat) (next : Haul → Script α) (s : Session ρ) :
    (fetch n next).run stop s =
      (next ((tape s.reader).haul n)).run stop { s with reader := (ByteReader.fetch s.reader n).2 } := by
  rw [← (fetch_eq s.reader n).1]
  rfl

theorem bind_assoc {γ : Type} (p : Script α) (f : α → Script β) (g : β → Script γ) :
    (p.bind f).bind g = p.bind fun a => (f a).bind g := by
  induction p with
  | done a => rfl
  | fetch n next ih => exact congrArg (fetch n) (funext ih)
  | check halt next ihhalt ih => exact congr (congrArg check (funext ihhalt)) ih
  | note line next ih => exact congrArg (note line) ih

theorem run_bind (stop : Stop) (p : Script α) (f : α → Script β) (s : Session ρ) :
    (p.bind f).run stop s = (f (p.run stop s).1).run stop (p.run stop s).2 := by
  induction p generalizing s with
  | done a => rfl
  | fetch n next ih => exact ih _ _
  | check halt next ihhalt ih =>
    simp only [bind, run]
    cases stop s.checks with
    | none => exact ih _
    | some why => exact ihhalt why _
  | note line next ih => exact ih _

theorem run_core (stop : Stop) (p : Script α) {s : Session ρ} {t : Session σ}
    (h : s.core = t.core) :
    (p.run stop s).map id Session.core = (p.run stop t).map id Session.core := by
  induction p generalizing s t with
  | done a => exact congrArg (Prod.mk _) h
  | fetch n next ih =>
    rw [run_fetch, run_fetch, show tape s.reader = tape t.reader from congrArg Prod.fst h]
    exact ih _ (by rw [Session.core_fetch, Session.core_fetch, h])
  | check halt next ihhalt ih =>
    obtain ⟨ht, hc⟩ := Prod.ext_iff.1 h
    simp only [Session.core] at ht hc
    simp only [run, hc]
    cases stop t.checks with
    | none => exact ih (by simp only [Session.core, ht])
    | some why => exact ihhalt why (by simp only [Session.core, ht])
  | note line next ih => exact ih h

theorem run_keeps {P : ρ → Prop} (hP : ∀ r n, P r → P (read r n).2) (stop : Stop) (p : Script α)
    (s : Session ρ) (h : P s.reader) : P (p.run stop s).2.reader := by
  induction p generalizing s with
  | done a => exact h
  | fetch n next ih => exact ih _ _ (gather_keeps hP n [] s.reader n h)
  | check halt next ihhalt ih =>
    simp only [run]
    cases stop s.checks with
    | none => exact ih _ h
    | some why => exact ihhalt why _ h
  | note line next ih => exact ih _ h

theorem run_map (stop : Stop) (p : Script α) (f : α → β) (s : Session ρ) :
    (f <$> p).run stop s = (p.run stop s).map f id :=
  run_bind stop p (fun a => .done (f a)) s

end Script

namespace Walk

def turn (w : Walk α) (state : w.State) : Script (Step w.State α) :=
  .fetch (w.reach state + 1) fun h =>
    if h.bytes.length < w.reach state + 1 then .done <$> w.close state h.shortage
    else w.round state h.bytes

def resume {τ : Type} (next : τ → Session ρ → α × Session ρ) :
    Step τ α × Session ρ → α × Session ρ
  | (.done a, s) => (a, s)
  | (.more state, s) => next state s

theorem runFrom_eq (w : Walk α) (stop : Stop) (state : w.State) (s : Session ρ) :
    w.runFrom stop state s = resume (w.runFrom stop) ((w.turn state).run stop s) := by
  rw [runFrom, turn, Script.run_fetch, ← (fetch_eq s.reader _).1]
  by_cases hl : (fetch s.reader (w.reach state + 1)).1.bytes.length < w.reach state + 1
  · rw [dif_pos hl, if_pos hl, Script.run_map]
    rfl
  · rw [dif_neg hl, if_neg hl]
    dsimp only
    rcases Script.run stop (w.round state _) _ with ⟨_ | a, s'⟩ <;> rfl

theorem run_eq (w : Walk α) (stop : Stop) (s : Session ρ) :
    w.run stop s = resume (w.runFrom stop) (w.start.run stop s) := by
  rw [run]
  rcases w.start.run stop s with ⟨_ | a, s'⟩ <;> rfl

theorem turn_length_lt (w : Walk α) (stop : Stop) (state state' : w.State) (s : Session ρ)
    (h : ((w.turn state).run stop s).1 = .more state') :
    (tape ((w.turn state).run stop s).2.reader).bytes.length < (tape s.reader).bytes.length := by
  rw [turn, Script.run_fetch, ← (fetch_eq s.reader _).1] at h ⊢
  by_cases hl : (fetch s.reader (w.reach state + 1)).1.bytes.length < w.reach state + 1
  · rw [if_pos hl, Script.run_map] at h
    exact nomatch h
  · rw [if_neg hl]
    have hr := Script.run_length_le stop (w.round state (fetch s.reader (w.reach state + 1)).1.bytes)
      { s with reader := (fetch s.reader (w.reach state + 1)).2 }
    rw [(fetch_eq s.reader _).1, Tape.haul, List.length_take] at hl
    rw [(fetch_eq s.reader _).2, Tape.drop_length] at hr
    refine Nat.lt_of_le_of_lt hr ?_
    omega

/-- To show something of a whole run, show it of a run whose next rounds are known to have it. -/
@[elab_as_elim]
theorem runFrom_induction (w : Walk α) (stop : Stop) {Q : w.State → Session ρ → Prop}
    (step : ∀ state s, (∀ state', ((w.turn state).run stop s).1 = .more state' →
      Q state' ((w.turn state).run stop s).2) → Q state s)
    (state : w.State) (s : Session ρ) : Q state s := by
  induction hn : (tape s.reader).bytes.length using Nat.strongRecOn generalizing state s with
  | ind n ih =>
    refine step state s fun state' h => ih _ ?_ _ _ rfl
    exact hn ▸ turn_length_lt w stop state state' s h

theorem runFrom_core (w : Walk α) (stop : Stop) (state : w.State) (s : Session ρ) :
    ∀ t : Session σ, s.core = t.core →
      (w.runFrom stop state s).map id Session.core = (w.runFrom stop state t).map id Session.core := by
  refine w.runFrom_induction stop (fun state s ih t h => ?_) state s
  have hturn := Script.run_core stop (w.turn state) h
  rw [runFrom_eq, runFrom_eq]
  rcases hs : (w.turn state).run stop s with ⟨rs, s'⟩
  rcases ht : (w.turn state).run stop t with ⟨rt, t'⟩
  rw [hs, ht] at hturn
  rw [hs] at ih
  obtain ⟨rfl, hcore⟩ := Prod.mk.inj hturn
  rcases rs with state' | a
  · exact ih state' rfl t' hcore
  · exact congrArg (Prod.mk _) hcore

theorem run_core (w : Walk α) (stop : Stop) {s : Session ρ} {t : Session σ} (h : s.core = t.core) :
    (w.run stop s).map id Session.core = (w.run stop t).map id Session.core := by
  have hstart := Script.run_core stop w.start h
  rw [run_eq, run_eq]
  rcases hs : w.start.run stop s with ⟨rs, s'⟩
  rcases ht : w.start.run stop t with ⟨rt, t'⟩
  rw [hs, ht] at hstart
  obtain ⟨rfl, hcore⟩ := Prod.mk.inj hstart
  rcases rs with state | a
  · exact w.runFrom_core stop state s' t' hcore
  · exact congrArg (Prod.mk _) hcore

theorem run_keeps {P : ρ → Prop} (hP : ∀ r n, P r → P (read r n).2) (w : Walk α) (stop : Stop)
    (s : Session ρ) (h : P s.reader) : P (w.run stop s).2.reader := by
  have hfrom (state : w.State) (s : Session ρ) : P s.reader → P (w.runFrom stop state s).2.reader := by
    refine w.runFrom_induction stop (fun state s ih h => ?_) state s
    have hk := Script.run_keeps hP stop (w.turn state) s h
    rw [runFrom_eq]
    rcases hout : (w.turn state).run stop s with ⟨state' | a, s'⟩ <;> rw [hout] at hk ih
    · exact ih state' rfl hk
    · exact hk
  have hk := Script.run_keeps hP stop w.start s h
  rw [run_eq]
  rcases hout : w.start.run stop s with ⟨state | a, s'⟩ <;> rw [hout] at hk
  · exact hfrom state s' hk
  · exact hk

theorem turn_andThen (w : Walk α) (f : α → Script β) (state : w.State) :
    (w.andThen f).turn state = (w.turn state).bind (thenStep f) := by
  have hclose (p : Script α) :
      (p.bind fun a => .done (.done a)).bind (thenStep (σ := w.State) f) =
        (p.bind f).bind fun b => .done (.done b) := by
    rw [Script.bind_assoc, Script.bind_assoc]
    rfl
  refine congrArg (Script.fetch _) (funext fun h => ?_)
  refine Eq.symm ((apply_ite (Script.bind · (thenStep f)) _ _ _).trans ?_)
  exact congrArg (ite _ · _) (hclose _)

theorem run_andThen (w : Walk α) (f : α → Script β) (stop : Stop) (s : Session ρ) :
    (w.andThen f).run stop s = (f (w.run stop s).1).run stop (w.run stop s).2 := by
  -- The rounds of both walks have the same states; the later rounds are named once as a function
  -- of these.
  obtain ⟨next, hnext, hrun⟩ : ∃ next : w.State → Session ρ → β × Session ρ,
      (∀ state s, next state s = resume next (((w.turn state).bind (thenStep f)).run stop s)) ∧
        (w.andThen f).run stop s = resume next ((w.start.bind (thenStep f)).run stop s) :=
    ⟨(w.andThen f).runFrom stop, fun state s => ((w.andThen f).runFrom_eq stop state s).trans
      (congrArg (fun p => resume _ (Script.run stop p s)) (w.turn_andThen f state)),
      (w.andThen f).run_eq stop s⟩
  have hdone (a : α) (s : Session ρ) :
      resume next ((thenStep f (.done a)).run stop s) = (f a).run stop s := by
    rw [thenStep, Script.run_map]
    rfl
  have hfrom (state : w.State) (s : Session ρ) :
      next state s = (f (w.runFrom stop state s).1).run stop (w.runFrom stop state s).2 := by
    refine w.runFrom_induction stop (fun state s ih => ?_) state s
    rw [hnext, Script.run_bind, runFrom_eq w]
    rcases hout : (w.turn state).run stop s with ⟨state' | a, s'⟩
    · rw [hout] at ih
      exact ih state' rfl
    · exact hdone a s'
  rw [hrun, Script.run_bind, run_eq w]
  rcases w.start.run stop s with ⟨state | a, s'⟩
  · exact hfrom state s'
  · exact hdone a s'

def answer (w : Walk (Except ProbeError α)) (stop : Stop) (r : ρ) (log : List Note) :
    Except ProbeError α × Session ρ :=
  w.run stop ⟨r, 0, log⟩

end Walk

namespace Decoder

theorem decode_core (d : Decoder) (stop : Stop) {s : Session ρ} {t : Session σ}
    (h : s.core = t.core) :
    (d.decode stop s).1 = (d.decode stop t).1 ∧ (d.decode stop s).2.core = (d.decode stop t).2.core := by
  exact Prod.mk.inj (Walk.run_core d stop h)

theorem decode_keeps {P : ρ → Prop} (hP : ∀ r n, P r → P (read r n).2) (d : Decoder) (stop : Stop)
    (s : Session ρ) (h : P s.reader) : P (d.decode stop s).2.reader :=
  Walk.run_keeps hP d stop s h

end Decoder

end ImageProbe
