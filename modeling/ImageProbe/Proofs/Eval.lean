import ImageProbe.Proofs.Heeds

namespace ImageProbe

variable {α β ρ σ : Type} [ByteReader ρ]

open ByteReader

namespace Tape

def clip (t : Tape) (limit : Nat) : Tape where
  bytes := t.bytes.take limit
  ending := if t.bytes.length < limit then t.ending else none

theorem length_clip_le (t : Tape) (limit : Nat) : (t.clip limit).bytes.length ≤ limit :=
  List.length_take_le _ _

theorem haul_clip (t : Tape) (limit n : Nat) : (t.clip limit).haul n = t.haul (min n limit) := by
  rw [haul, haul, clip, List.take_take, List.length_take]
  congr 1
  by_cases hlimit : t.bytes.length < limit
  · rw [if_pos hlimit]
    exact ite_congr (propext (by omega)) (fun _ => rfl) fun _ => rfl
  · rw [if_neg hlimit, ite_self, if_neg (by omega)]

theorem drop_clip (t : Tape) (limit n : Nat) :
    (t.clip limit).drop n =
      (t.drop (min n limit)).clip (limit - (t.haul (min n limit)).bytes.length) := by
  have hleft : t.bytes.length - min n limit <
      limit - min (min n limit) t.bytes.length ↔ t.bytes.length < limit := by omega
  simp only [drop, clip, haul, List.length_take, List.length_drop, hleft, Tape.mk.injEq, and_true]
  rw [List.drop_take]
  by_cases hall : t.bytes.length ≤ min n limit
  · rw [List.drop_eq_nil_of_le hall, List.take_nil]
    by_cases hn : n ≤ limit
    · rw [List.drop_eq_nil_of_le (by omega), List.take_nil]
    · rw [Nat.sub_eq_zero_of_le (by omega), List.take_zero]
  · by_cases hn : n ≤ limit
    · rw [Nat.min_eq_left hn, Nat.min_eq_left (by omega)]
    · rw [Nat.sub_eq_zero_of_le (by omega), Nat.sub_eq_zero_of_le (by omega), List.take_zero,
        List.take_zero]

theorem haul_within (n : Nat) (payload rest : Bytes) (e : Option Fault) :
    (Tape.mk (payload ++ rest) e).haul (min n payload.length) = (Tape.mk payload none).haul n := by
  rw [haul, haul, List.take_append_of_le_length (Nat.min_le_right _ _), ← List.take_eq_take_min,
    ite_self, if_neg (by simp only [List.length_append]; omega)]

theorem drop_within (n : Nat) (payload rest : Bytes) (e : Option Fault) :
    (Tape.mk (payload ++ rest) e).drop (min n payload.length) = ⟨payload.drop n ++ rest, e⟩ := by
  rw [drop, List.drop_append_of_le_length (Nat.min_le_right _ _), ← List.drop_eq_drop_min]

theorem left_within (n : Nat) (payload : Bytes) :
    payload.length - ((Tape.mk payload none).haul n).bytes.length = (payload.drop n).length := by
  simp only [haul, List.length_take, List.length_drop]
  omega

end Tape

namespace Script

/-- What a script comes to on a tape, and what it leaves of it, when no check stops it. -/
def eval : Script α → Tape → α × Tape
  | done a, t => (a, t)
  | fetch n next, t => (next (t.haul n)).eval (t.drop n)
  | check _ next, t => next.eval t
  | note _ next, t => next.eval t

@[simp] theorem eval_bind (p : Script α) (f : α → Script β) (t : Tape) :
    (p >>= f).eval t = (f (p.eval t).1).eval (p.eval t).2 := by
  change (p.bind f).eval t = _
  induction p generalizing t with
  | done a => rfl
  | fetch n next ih => exact ih _ _
  | check halt next _ ih => exact ih t
  | note line next ih => exact ih t

@[simp] theorem eval_map (f : α → β) (p : Script α) (t : Tape) :
    (f <$> p).eval t = (f (p.eval t).1, (p.eval t).2) := eval_bind p (fun a => pure (f a)) t

@[simp] theorem eval_notes (lines : List Note) (a : α) (t : Tape) :
    (lines.foldr note (done a)).eval t = (a, t) := by
  induction lines with
  | nil => rfl
  | cons line lines ih => exact ih

theorem eval_suffix (p : Script α) (t : Tape) : (p.eval t).2.bytes <:+ t.bytes := by
  induction p generalizing t with
  | done a => exact List.suffix_rfl
  | fetch n next ih => exact (ih _ _).trans (List.drop_suffix n t.bytes)
  | check halt next _ ih => exact ih t
  | note line next ih => exact ih t

theorem eval_ending (p : Script α) (t : Tape) : (p.eval t).2.ending = t.ending := by
  induction p generalizing t with
  | done a => rfl
  | fetch n next ih => exact ih _ _
  | check halt next _ ih => exact ih t
  | note line next ih => exact ih t

theorem eval_length_le (p : Script α) (t : Tape) :
    (p.eval t).2.bytes.length ≤ t.bytes.length := (p.eval_suffix t).length_le

theorem eval_clip (p : Script α) (limit : Nat) (t : Tape) :
    ((p.within limit).eval t).1.1 = (p.eval (t.clip limit)).1 := by
  induction p generalizing limit t with
  | done a => rfl
  | fetch n next ih =>
    rw [within, eval, eval, Tape.haul_clip, Tape.drop_clip]
    exact ih _ _ _
  | check halt next _ ih => exact ih limit t
  | note line next ih => exact ih limit t

theorem within_left (p : Script α) (limit : Nat) (t : Tape) :
    ((p.within limit).eval t).1.2 + t.bytes.length =
      limit + ((p.within limit).eval t).2.bytes.length := by
  induction p generalizing limit t with
  | done a => rfl
  | fetch n next ih =>
    have hinside := ih (t.haul (min n limit)) (limit - (t.haul (min n limit)).bytes.length)
      (t.drop (min n limit))
    simp only [Tape.haul, List.length_take, Tape.drop_length] at hinside
    rw [within, eval]
    simp only [Tape.haul, List.length_take]
    omega
  | check halt next _ ih => exact ih limit t
  | note line next ih => exact ih limit t

theorem run_never (p : Script α) (s : Session ρ) :
    (p.run .never s).1 = (p.eval (tape s.reader)).1 ∧
      tape (p.run .never s).2.reader = (p.eval (tape s.reader)).2 := by
  induction p generalizing s with
  | done a => exact ⟨rfl, rfl⟩
  | fetch n next ih =>
    rw [run_fetch]
    have h := ih ((tape s.reader).haul n) { s with reader := (ByteReader.fetch s.reader n).2 }
    rwa [(fetch_eq s.reader n).2] at h
  | check halt next _ ih => exact ih { s with checks := s.checks + 1 }
  | note line next ih => exact ih { s with log := line :: s.log }

theorem Heeds.run_eval {T : StopReason → α → Prop} {p : Script α} (hp : p.Heeds T) (stop : Stop)
    (s : Session ρ) :
    Stopped stop T (p.run stop s).1 ∨ (p.run stop s).1 = (p.eval (tape s.reader)).1 ∧
      tape (p.run stop s).2.reader = (p.eval (tape s.reader)).2 := by
  rcases (hp.run stop s).result with hstop | hsame
  · exact .inl hstop
  · exact .inr (hsame ▸ p.run_never s)

end Script

namespace Reading

def Gives (p : Reading α) (t : Tape) (a : α) (t' : Tape) : Prop := p.run.eval t = (.ok a, t')

theorem gives_of_run {p : Reading α} (hp : p.run.Heeds Told) {stop : Stop} {s : Session ρ} {a : α}
    (h : (p.run.run stop s).1 = .ok a) : ∃ t, p.Gives (tape s.reader) a t := by
  rcases hp.run_eval stop s with ⟨i, why, -, htold⟩ | ⟨heval, -⟩
  · exact absurd (h ▸ htold) (not_told_ok why a)
  · exact ⟨_, Prod.ext (heval.symm.trans h) rfl⟩

theorem Gives.pure (a : α) (t : Tape) : (Pure.pure a : Reading α).Gives t a t := rfl

theorem Gives.eval_bind {p : Reading α} {t t' : Tape} {a : α} (hp : p.Gives t a t')
    (f : α → Reading β) : (p >>= f).run.eval t = (f a).run.eval t' := by
  rw [Gives] at hp
  rw [ExceptT.run_bind, Script.eval_bind, hp]

theorem Gives.bind {p : Reading α} {f : α → Reading β} {t t' t'' : Tape} {a : α} {b : β}
    (hp : p.Gives t a t') (hf : (f a).Gives t' b t'') : (p >>= f).Gives t b t'' :=
  (hp.eval_bind f).trans hf

theorem eval_bind_error {p : Reading α} {t t' : Tape} {e : ProbeError}
    (hp : p.run.eval t = (.error e, t')) (f : α → Reading β) :
    (p >>= f).run.eval t = (.error e, t') := by
  rw [ExceptT.run_bind, Script.eval_bind, hp]
  rfl

theorem eval_exactly_short {n : Nat} {t : Tape} (h : t.bytes.length < n) :
    (exactly n).run.eval t = (.error (t.haul n).shortage, t.drop n) := by
  have hlen : (t.haul n).bytes.length < n := by
    rw [Tape.haul, List.length_take]
    omega
  change (if (t.haul n).bytes.length < n then Except.error (t.haul n).shortage else _, t.drop n) = _
  rw [if_pos hlen]

theorem eval_map (f : α → β) (p : Reading α) (t : Tape) :
    (f <$> p).run.eval t = ((p.run.eval t).1.map f, (p.run.eval t).2) := by
  change (p.run >>= _ : Script _).eval t = _
  rw [Script.eval_bind]
  rcases p.run.eval t with ⟨e | a, t'⟩
  · rfl
  · rfl

theorem eval_skip_short {n : Nat} {t : Tape} (h : t.bytes.length < n) :
    (skip n).run.eval t = (.error (t.haul n).shortage, t.drop n) :=
  eval_bind_error (eval_exactly_short h) _

theorem eval_beNumber_short {n : Nat} {t : Tape} (h : t.bytes.length < n) :
    (beNumber n).run.eval t = (.error (t.haul n).shortage, t.drop n) := by
  rw [beNumber, eval_map, eval_exactly_short h]
  rfl

theorem Gives.note {p : Reading α} {t t' : Tape} {a : α} (line : Note) (hp : p.Gives t a t') :
    (writeNote line >>= fun _ => p : Reading α).Gives t a t' := hp

theorem Gives.require (format : ImageFormat) {c : Bool} (h : c = true) (defect : Defect) (t : Tape) :
    (require format c defect).Gives t () t := by
  rw [Reading.require, if_pos h]
  exact .pure () t

theorem Gives.exactly {bs rest : Bytes} {n : Nat} (h : bs.length = n) (e : Option Fault) :
    (exactly n).Gives ⟨bs ++ rest, e⟩ bs ⟨rest, e⟩ := by
  subst h
  change (if _ then _ else _, _) = _
  simp only [Tape.haul, Tape.drop, List.take_left, List.drop_left, Nat.lt_irrefl, if_false]

theorem Gives.skip {bs rest : Bytes} {n : Nat} (h : bs.length = n) (e : Option Fault) :
    (skip n).Gives ⟨bs ++ rest, e⟩ () ⟨rest, e⟩ :=
  Gives.bind (Gives.exactly h e) (.pure () _)

theorem Gives.number {bs rest : Bytes} {n : Nat} (number : Bytes → Nat) (h : bs.length = n)
    (e : Option Fault) :
    Gives (number <$> Reading.exactly n) ⟨bs ++ rest, e⟩ (number bs) ⟨rest, e⟩ :=
  Gives.bind (Gives.exactly h e) (.pure (number bs) _)

theorem Gives.checkStop (t : Tape) : checkStop.Gives t () t := rfl

theorem Gives.first {bs : Bytes} {n : Nat} (h : n ≤ bs.length) (e : Option Fault) :
    (Reading.exactly n).Gives ⟨bs, e⟩ (bs.take n) ⟨bs.drop n, e⟩ := by
  have hsplit := (Gives.exactly (List.length_take_of_le h) e : (Reading.exactly n).Gives ⟨bs.take n ++ bs.drop n, e⟩ _ _)
  rwa [List.take_append_drop] at hsplit

theorem Gives.exactly_at (bs : Bytes) (i n : Nat) (h : i + n ≤ bs.length) (e : Option Fault) :
    (Reading.exactly n).Gives ⟨bs.drop i, e⟩ (slice bs i n) ⟨bs.drop (i + n), e⟩ := by
  have hn : n ≤ (bs.drop i).length := by
    rw [List.length_drop]
    omega
  have hfirst := Gives.first hn e
  rwa [List.drop_drop] at hfirst

theorem Gives.skip_at (bs : Bytes) (i n : Nat) (h : i + n ≤ bs.length) (e : Option Fault) :
    (Reading.skip n).Gives ⟨bs.drop i, e⟩ () ⟨bs.drop (i + n), e⟩ :=
  Gives.bind (Gives.exactly_at bs i n h e) (.pure () _)

theorem Gives.number_at (number : Bytes → Nat) (bs : Bytes) (i n : Nat) (h : i + n ≤ bs.length)
    (e : Option Fault) :
    Gives (number <$> Reading.exactly n) ⟨bs.drop i, e⟩ (number (slice bs i n))
      ⟨bs.drop (i + n), e⟩ :=
  Gives.bind (Gives.exactly_at bs i n h e) (.pure (number (slice bs i n)) _)

theorem Gives.of_bind {p : Reading α} {f : α → Reading β} {t t'' : Tape} {b : β}
    (h : (p >>= f).Gives t b t'') : ∃ a t', p.Gives t a t' ∧ (f a).Gives t' b t'' := by
  rw [Gives, ExceptT.run_bind, Script.eval_bind] at h
  rcases hp : p.run.eval t with ⟨e | a, t'⟩
  · rw [hp] at h
    cases h
  · rw [hp] at h
    exact ⟨a, t', hp, h⟩

theorem Gives.of_pure {a b : α} {t t' : Tape} (h : (Pure.pure a : Reading α).Gives t b t') :
    a = b ∧ t = t' := by
  cases h
  exact ⟨rfl, rfl⟩

theorem not_gives_refuse (format : ImageFormat) (defect : Defect) (t t' : Tape) (a : α) :
    ¬ (refuse format defect : Reading α).Gives t a t' := nofun

theorem Gives.of_require {format : ImageFormat} {c : Bool} {defect : Defect} {t t' : Tape} {u : Unit}
    (h : (Reading.require format c defect).Gives t u t') : c = true ∧ t = t' := by
  rw [Reading.require] at h
  split at h
  · rename_i hc
    exact ⟨hc, (Gives.of_pure h).2⟩
  · exact absurd h (not_gives_refuse _ _ _ _ _)

theorem Gives.of_exactly {n : Nat} {t t' : Tape} {bs : Bytes} (h : (Reading.exactly n).Gives t bs t') :
    n ≤ t.bytes.length ∧ bs = t.bytes.take n ∧ t' = t.drop n := by
  change (if (t.bytes.take n).length < n then _ else _, _) = _ at h
  split at h
  · cases h
  · rename_i hn
    rw [List.length_take] at hn
    cases h
    exact ⟨by omega, rfl, rfl⟩

theorem Gives.of_skip {n : Nat} {t t' : Tape} {u : Unit} (h : (Reading.skip n).Gives t u t') :
    n ≤ t.bytes.length ∧ t' = t.drop n := by
  obtain ⟨bs, t₁, hbs, hdone⟩ := Gives.of_bind h
  obtain ⟨hn, -, rfl⟩ := Gives.of_exactly hbs
  exact ⟨hn, (Gives.of_pure hdone).2.symm⟩

theorem Gives.of_number {number : Bytes → Nat} {n m : Nat} {t t' : Tape}
    (h : Gives (number <$> Reading.exactly n) t m t') :
    n ≤ t.bytes.length ∧ m = number (t.bytes.take n) ∧ t' = t.drop n := by
  obtain ⟨bs, t₁, hbs, hdone⟩ := Gives.of_bind (f := fun bs => Pure.pure (number bs)) h
  obtain ⟨hn, rfl, rfl⟩ := Gives.of_exactly hbs
  obtain ⟨hm, ht⟩ := Gives.of_pure hdone
  exact ⟨hn, hm.symm, ht.symm⟩

theorem Gives.of_checkStop {t t' : Tape} {u : Unit}
    (h : Reading.checkStop.Gives t u t') : t = t' := by
  cases h
  rfl

end Reading

namespace Walk

theorem runFrom_more {w : Walk α} {state state' : w.State} {s : Session ρ} {t : Tape}
    (h : (w.turn state).eval (tape s.reader) = (.more state', t)) :
    tape ((w.turn state).run .never s).2.reader = t ∧
      w.runFrom .never state s = w.runFrom .never state' ((w.turn state).run .never s).2 := by
  obtain ⟨hr, ht⟩ := Script.run_never (w.turn state) s
  rw [h] at hr ht
  refine ⟨ht, ?_⟩
  rw [runFrom_eq]
  exact congrArg (fun r => resume _ (r, ((w.turn state).run .never s).2)) hr

theorem runFrom_done {w : Walk α} {state : w.State} {s : Session ρ} {a : α}
    (h : ((w.turn state).eval (tape s.reader)).1 = .done a) :
    w.runFrom .never state s = (a, ((w.turn state).run .never s).2) := by
  have hr := (Script.run_never (w.turn state) s).1.trans h
  rw [runFrom_eq]
  exact congrArg (fun r => resume _ (r, ((w.turn state).run .never s).2)) hr

inductive ComesFrom (w : Walk α) : w.State → Tape → α → Prop
  | done {state : w.State} {t : Tape} {a : α} (round : ((w.turn state).eval t).1 = .done a) :
    w.ComesFrom state t a
  | more {state state' : w.State} {t t' : Tape} {a : α}
    (round : (w.turn state).eval t = (.more state', t')) (rest : w.ComesFrom state' t' a) :
    w.ComesFrom state t a

inductive Comes (w : Walk α) : Tape → α → Prop
  | done {t : Tape} {a : α} (start : (w.start.eval t).1 = .done a) : w.Comes t a
  | more {state : w.State} {t t' : Tape} {a : α} (start : w.start.eval t = (.more state, t'))
    (rest : w.ComesFrom state t' a) : w.Comes t a

theorem ComesFrom.runFrom {w : Walk α} {state : w.State} {s : Session ρ} {a : α}
    (h : w.ComesFrom state (tape s.reader) a) : (w.runFrom .never state s).1 = a := by
  generalize ht : tape s.reader = t at h
  induction h generalizing s with
  | done round => exact congrArg Prod.fst (runFrom_done (ht ▸ round))
  | more round rest ih =>
    obtain ⟨hs', hrun⟩ := runFrom_more (ht ▸ round)
    exact hrun ▸ ih hs'

theorem Comes.run_never {w : Walk α} {s : Session ρ} {a : α} (h : w.Comes (tape s.reader) a) :
    (w.run .never s).1 = a := by
  obtain ⟨hr, ht⟩ := Script.run_never w.start s
  rw [run_eq]
  rcases hout : w.start.run .never s with ⟨r, s'⟩
  rw [hout] at hr ht
  subst hr
  cases h with
  | done start =>
    rw [start]
    rfl
  | more start rest =>
    rw [start] at ht ⊢
    exact ComesFrom.runFrom (ht ▸ rest)

theorem Heeds.run_result {T : StopReason → α → Prop} {w : Walk α} (hw : w.Heeds T) (stop : Stop)
    {s : Session ρ} {a : α} (h : (w.run .never s).1 = a) :
    Stopped stop T (w.run stop s).1 ∨ (w.run stop s).1 = a := by
  rcases (hw.run stop s).result with hstop | hsame
  · exact .inl hstop
  · exact .inr (hsame ▸ h)

end Walk

namespace Decoder

/-- The host's answer to one of the checks is all that the result tells. -/
def Halted (stop : Stop) (r : Except ProbeError α) : Prop :=
  ∃ i why, stop i = some why ∧ r = .error (.stopped why)

theorem not_halted_ok (stop : Stop) (a : α) : ¬ Halted stop (.ok a) := by
  rintro ⟨i, why, -, h⟩
  exact nomatch h

theorem not_halted_never (r : Except ProbeError α) : ¬ Halted .never r := not_stopped_never Told r

end Decoder

end ImageProbe
