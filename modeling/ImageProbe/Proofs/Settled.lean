import ImageProbe.Proofs.Prompt
import ImageProbe.Stream.Source

namespace ImageProbe

open ByteReader

variable {α ρ : Type} [ByteReader ρ] {stop : Stop}

/-- All that shows of a run: its result, what it leaves of the tape, and the checks made in all. -/
abbrev Showing (α : Type) := α × Tape × Nat

def Script.outcome (stop : Stop) (p : Script α) (t : Tape) (k : Nat) : Showing α :=
  (p.run stop (⟨t, k, []⟩ : Session Tape)).map id Session.core

namespace Walk

def outcomeFrom (w : Walk α) (stop : Stop) (state : w.State) (t : Tape) (k : Nat) : Showing α :=
  (w.runFrom stop state (⟨t, k, []⟩ : Session Tape)).map id Session.core

def outcome (w : Walk α) (stop : Stop) (t : Tape) (k : Nat) : Showing α :=
  (w.run stop (⟨t, k, []⟩ : Session Tape)).map id Session.core

def follow {τ : Type} (next : τ → Tape → Nat → Showing α) : Showing (Step τ α) → Showing α
  | (.done a, c) => (a, c)
  | (.more state, t, k) => next state t k

end Walk

namespace Script

theorem outcome_fetch (n : Nat) (next : Haul → Script α) (t : Tape) (k : Nat) :
    (fetch n next).outcome stop t k = (next (t.haul n)).outcome stop (t.drop n) k := by
  rw [outcome, run_fetch]
  exact run_core stop _ (Session.core_fetch (⟨t, k, []⟩ : Session Tape) n)

theorem outcome_check (halt : StopReason → Script α) (next : Script α) (t : Tape) (k : Nat) :
    (check halt next).outcome stop t k =
      (stop k).elim (next.outcome stop t (k + 1)) fun why => (halt why).outcome stop t (k + 1) := by
  rw [outcome, run]
  dsimp only
  cases stop k <;> rfl

theorem outcome_note (line : Note) (next : Script α) (t : Tape) (k : Nat) :
    (note line next).outcome stop t k = next.outcome stop t k :=
  run_core stop next rfl

theorem outcome_core (p : Script α) (s : Session ρ) :
    (p.run stop s).map id Session.core = p.outcome stop s.core.1 s.core.2 :=
  run_core stop p rfl

theorem Ends.outcome (stop : Stop) {Q : α → Prop} {p : Script α} (hp : p.Ends Q) :
    ∃ a, Q a ∧ ∀ t k, p.outcome stop t k = (a, t, k) := by
  obtain ⟨lines, a, ha, rfl⟩ := hp.exists_notes
  refine ⟨a, ha, fun t k => ?_⟩
  obtain ⟨log, hrun⟩ := run_notes stop lines a (⟨t, k, []⟩ : Session Tape)
  exact congrArg (Prod.map id Session.core) hrun

end Script

def Fails (L : Option Fault → α → Prop) (F : Tape → Nat → Showing α) (t : Tape) (k : Nat) : Prop :=
  ∃ a k', F t k = (a, ⟨[], t.ending⟩, k') ∧ L t.ending a

/-- The run takes these bytes whatever follows them, and fails on less. -/
structure Settled (L : Option Fault → α → Prop) (F : Tape → Nat → Showing α) (k : Nat) (used : Bytes)
    (r : α) (k' : Nat) : Prop where
  same (t : Tape) : F ⟨used ++ t.bytes, t.ending⟩ k = (r, t, k')
  cut (m : Nat) (e : Option Fault) : m < used.length → Fails L F ⟨used.take m, e⟩ k

def Hinges (L : Option Fault → α → Prop) (F : Tape → Nat → Showing α) (t : Tape) (k : Nat) : Prop :=
  (∃ used rest r k', t.bytes = used ++ rest ∧ Settled L F k used r k') ∨ Fails L F t k

theorem Tape.haul_short {t : Tape} {n : Nat} (h : t.bytes.length < n) :
    t.haul n = ⟨t.bytes, t.ending⟩ ∧ t.drop n = ⟨[], t.ending⟩ := by
  rw [haul, drop, if_pos h, List.take_of_length_le (Nat.le_of_lt h),
    List.drop_of_length_le (Nat.le_of_lt h)]
  exact ⟨rfl, rfl⟩

variable {L : Option Fault → α → Prop}

theorem Hinges.prepend {F G : Tape → Nat → Showing α} {k k' : Nat} {first : Bytes}
    (hgo : ∀ t : Tape, F ⟨first ++ t.bytes, t.ending⟩ k = G t k')
    (hcut : ∀ m e, m < first.length → Fails L F ⟨first.take m, e⟩ k) {t : Tape}
    (h : Hinges L G t k') : Hinges L F ⟨first ++ t.bytes, t.ending⟩ k := by
  rcases h with ⟨used, rest, r, k'', hrest, hused⟩ | ⟨a, k'', hout, ha⟩
  · refine .inl ⟨first ++ used, rest, r, k'', ?_, fun t' => ?_, fun m e hm => ?_⟩
    · rw [hrest, List.append_assoc]
    · rw [List.append_assoc, hgo ⟨used ++ t'.bytes, t'.ending⟩]
      exact hused.same t'
    · rcases Nat.lt_or_ge m first.length with hfirst | hfirst
      · rw [List.take_append_of_le_length (Nat.le_of_lt hfirst)]
        exact hcut m e hfirst
      · rw [List.length_append] at hm
        obtain ⟨a, k₁, hout, ha⟩ := hused.cut (m - first.length) e (by omega)
        refine ⟨a, k₁, ?_, ha⟩
        rw [List.take_append, List.take_of_length_le hfirst, hgo ⟨used.take (m - first.length), e⟩]
        exact hout
  · exact .inr ⟨a, k'', (hgo t).trans hout, ha⟩

theorem Script.Prompt.hinges {p : Script α} (hp : p.Prompt L) (t : Tape) (k : Nat) :
    Hinges L (p.outcome stop) t k := by
  -- A fetch that is met in full is one more piece of the bytes taken, and one that is not fails.
  induction p generalizing t k with
  | done a => exact .inl ⟨[], t.bytes, a, k, rfl, fun _ => rfl, nofun⟩
  | fetch n next ih =>
    have hshort (bs : Bytes) (e : Option Fault) (h : bs.length < n) :
        Fails L ((fetch n next).outcome stop) ⟨bs, e⟩ k := by
      obtain ⟨hhaul, hdrop⟩ := Tape.haul_short (t := ⟨bs, e⟩) h
      obtain ⟨a, ha, hout⟩ := ((hp ⟨bs, e⟩).2 h).outcome stop
      refine ⟨a, k, ?_, ha⟩
      rw [outcome_fetch, hhaul, hdrop, hout]
    rcases Nat.lt_or_ge t.bytes.length n with hlen | hlen
    · exact .inr (hshort t.bytes t.ending hlen)
    · have htake : (t.bytes.take n).length = n := List.length_take_of_le hlen
      have hgo (t' : Tape) : (fetch n next).outcome stop ⟨t.bytes.take n ++ t'.bytes, t'.ending⟩ k =
          (next ⟨t.bytes.take n, none⟩).outcome stop t' k := by
        rw [outcome_fetch, Tape.haul, Tape.drop, List.take_left' htake, List.drop_left' htake,
          if_neg (by simp only [List.length_append]; omega)]
      have hcut (m : Nat) (e : Option Fault) (hm : m < (t.bytes.take n).length) :
          Fails L ((fetch n next).outcome stop) ⟨(t.bytes.take n).take m, e⟩ k := by
        apply hshort
        rw [List.length_take]
        omega
      have h := Hinges.prepend hgo hcut (ih ⟨t.bytes.take n, none⟩ ((hp _).1 rfl) (t.drop n) k)
      rwa [Tape.drop, List.take_append_drop] at h
  | check halt next ihhalt ih =>
    have hgo {q : Script α}
        (hq : ∀ t', (check halt next).outcome stop t' k = q.outcome stop t' (k + 1))
        (h : Hinges L (q.outcome stop) t (k + 1)) :
        Hinges L ((check halt next).outcome stop) t k := by
      have hgo (t' : Tape) : (check halt next).outcome stop ⟨[] ++ t'.bytes, t'.ending⟩ k =
          q.outcome stop t' (k + 1) := hq t'
      exact Hinges.prepend hgo nofun h
    cases hk : stop k with
    | none => exact hgo (fun t' => by rw [outcome_check, hk]; rfl) (ih hp.2 t (k + 1))
    | some why =>
      exact hgo (fun t' => by rw [outcome_check, hk]; rfl) (ihhalt why (hp.1 why) t (k + 1))
  | note line next ih =>
    have hgo (t' : Tape) : (note line next).outcome stop ⟨[] ++ t'.bytes, t'.ending⟩ k =
        next.outcome stop t' k := outcome_note line next t' k
    exact Hinges.prepend hgo nofun (ih hp t k)

namespace Walk

theorem follow_core {τ : Type} (next : τ → Session Tape → α × Session Tape)
    (next' : τ → Tape → Nat → Showing α)
    (h : ∀ state (s : Session Tape), (next state s).map id Session.core = next' state s.core.1 s.core.2)
    (out : Step τ α × Session Tape) :
    (resume next out).map id Session.core = follow next' (out.map id Session.core) := by
  rcases out with ⟨state | a, s⟩
  · exact h state s
  · rfl

theorem outcomeFrom_core (w : Walk α) (state : w.State) (s : Session ρ) :
    (w.runFrom stop state s).map id Session.core = w.outcomeFrom stop state s.core.1 s.core.2 :=
  w.runFrom_core stop state s _ rfl

theorem outcome_core (w : Walk α) (stop : Stop) (s : Session ρ) :
    (w.run stop s).map id Session.core = w.outcome stop s.core.1 s.core.2 :=
  w.run_core stop rfl

theorem outcomeFrom_eq (w : Walk α) (state : w.State) (t : Tape) (k : Nat) :
    w.outcomeFrom stop state t k =
      follow (w.outcomeFrom stop) ((w.turn state).outcome stop t k) := by
  rw [outcomeFrom, runFrom_eq]
  exact follow_core _ _ (fun state s => w.outcomeFrom_core state s) _

theorem outcomeFrom_induction (w : Walk α) (stop : Stop) {Q : w.State → Tape → Nat → Prop}
    (step : ∀ state t k, (∀ state' t' k',
      (w.turn state).outcome stop t k = (.more state', t', k') → Q state' t' k') → Q state t k)
    (state : w.State) (t : Tape) (k : Nat) : Q state t k := by
  suffices h : ∀ state (s : Session Tape), Q state s.core.1 s.core.2 from h state ⟨t, k, []⟩
  intro state s
  refine w.runFrom_induction stop (fun state s ih => step state _ _ ?_) state s
  intro state' t' k' hmore
  rw [← Script.outcome_core] at hmore
  rcases hout : (w.turn state).run stop s with ⟨r, s'⟩
  rw [hout] at hmore ih
  obtain ⟨rfl, hcore⟩ := Prod.mk.inj hmore
  have hnext := ih state' rfl
  rwa [show s'.core = (t', k') from hcore] at hnext

theorem outcomeFrom_unique (w : Walk α) {G : w.State → Tape → Nat → Showing α}
    (hG : ∀ state t k, G state t k = follow G ((w.turn state).outcome stop t k)) (state : w.State)
    (t : Tape) (k : Nat) : G state t k = w.outcomeFrom stop state t k := by
  induction state, t, k using w.outcomeFrom_induction stop with
  | step state t k ih =>
    rw [hG, outcomeFrom_eq]
    rcases hturn : (w.turn state).outcome stop t k with ⟨state' | a, t', k'⟩
    · exact ih state' t' k' hturn
    · rfl

theorem outcome_eq (w : Walk α) (t : Tape) (k : Nat) :
    w.outcome stop t k = follow (w.outcomeFrom stop) (w.start.outcome stop t k) := by
  rw [outcome, run_eq]
  exact follow_core _ _ (fun state s => w.outcomeFrom_core state s) _

variable {w : Walk α}

theorem Prompt.fails (hw : w.Prompt L) (stop : Stop) (state : w.State) (k : Nat) :
    Fails L (w.outcomeFrom stop state) ⟨[], none⟩ k := by
  obtain ⟨hhaul, hdrop⟩ := Tape.haul_short (t := ⟨[], none⟩) (Nat.succ_pos (w.reach state))
  have hclose : (.done <$> w.close state .endOfData : Script (Step w.State α)).Ends
      fun x => ∃ a, x = .done a ∧ L none a := (hw.close state none).bind fun a ha => ⟨a, rfl, ha⟩
  obtain ⟨x, ⟨a, rfl, ha⟩, hout⟩ := hclose.outcome stop
  refine ⟨a, k, ?_, ha⟩
  rw [outcomeFrom_eq, Walk.turn, Script.outcome_fetch, hhaul, hdrop]
  exact (congrArg (fun p => follow _ (Script.outcome stop p _ k)) (if_pos (Nat.succ_pos _))).trans
    (congrArg (follow _) (hout ⟨[], none⟩ k))

theorem Prompt.fails_of_round (hw : w.Prompt L) {F : Tape → Nat → Showing (Step w.State α)}
    {G : Tape → Nat → Showing α} (hG : ∀ t k, G t k = follow (w.outcomeFrom stop) (F t k)) {t : Tape}
    {k : Nat} (h : Fails (Step.Lost L) F t k) : Fails L G t k := by
  obtain ⟨x, k', hout, hx⟩ := h
  cases x with
  | done a => exact ⟨a, k', by rw [hG, hout, follow], hx⟩
  | more state =>
    obtain ⟨bs, e⟩ := t
    cases hx
    obtain ⟨a, k'', hclose, ha⟩ := hw.fails stop state k'
    exact ⟨a, k'', by rw [hG, hout]; exact hclose, ha⟩

theorem Prompt.hinges_of_round (hw : w.Prompt L) {F : Tape → Nat → Showing (Step w.State α)}
    {G : Tape → Nat → Showing α} (hG : ∀ t k, G t k = follow (w.outcomeFrom stop) (F t k)) {t : Tape}
    {k : Nat} (h : Hinges (Step.Lost L) F t k)
    (hnext : ∀ state t' k', F t k = (.more state, t', k') →
      Hinges L (w.outcomeFrom stop state) t' k') : Hinges L G t k := by
  obtain ⟨bs, ending⟩ := t
  rcases h with ⟨used, rest, r, k', rfl, hused⟩ | hfails
  · have hself := hused.same ⟨rest, ending⟩
    have hcut (m : Nat) (e : Option Fault) (hm : m < used.length) : Fails L G ⟨used.take m, e⟩ k :=
      hw.fails_of_round hG (hused.cut m e hm)
    rcases r with state | a
    · exact Hinges.prepend (fun t => by rw [hG, hused.same, follow]) hcut
        (hnext state ⟨rest, ending⟩ k' hself)
    · exact .inl ⟨used, rest, a, k', rfl, fun t => by rw [hG, hused.same, follow], hcut⟩
  · exact .inr (hw.fails_of_round hG hfails)

theorem Prompt.hingesFrom (hw : w.Prompt L) (state : w.State) (t : Tape) (k : Nat) :
    Hinges L (w.outcomeFrom stop state) t k := by
  induction state, t, k using w.outcomeFrom_induction stop with
  | step state t k ih =>
    exact hw.hinges_of_round (w.outcomeFrom_eq state) ((hw.turn state).hinges t k) ih

theorem Prompt.hinges (hw : w.Prompt L) (stop : Stop) (t : Tape) (k : Nat) :
    Hinges L (w.outcome stop) t k :=
  hw.hinges_of_round w.outcome_eq (hw.start.hinges t k) fun state t' k' _ => hw.hingesFrom state t' k'

end Walk

/-- An answer that is a value, or finds fault with the bytes themselves. -/
def Telling (r : Except ProbeError α) : Prop :=
  (∃ a, r = .ok a) ∨ ∃ format defect, r = .error (.malformed format defect)

/-- A telling answer rests on the bytes taken for it: it is the same on any stream that begins with
them, and on one that ends or fails before the last of them that is what is told. -/
def RestsOnTaken (w : Walk (Except ProbeError α)) : Prop :=
  ∀ {ρ τ : Type} [ByteReader ρ] [ByteReader τ] (stop : Stop) (r : ρ) (r' : τ) (log log' : List Note),
    let out := w.answer stop r log
    let out' := w.answer stop r' log'
    let c := taken r out.2.reader
    Telling out.1 →
      ((tape r').bytes.take c = (tape r).bytes.take c →
        out'.1 = out.1 ∧ taken r' out'.2.reader = c ∧ out'.2.checks = out.2.checks) ∧
      ∀ n < c,
        (tape r' = ⟨(tape r).bytes.take n, none⟩ →
          out'.1 = .error .endOfData ∧ taken r' out'.2.reader = n) ∧
        ∀ fault : Fault, fault.kind ≠ .unexpectedEnd → tape r' = ⟨(tape r).bytes.take n, some fault⟩ →
          out'.1 = .error (.transport fault) ∧ taken r' out'.2.reader = n

theorem not_telling_shortage (e : Option Fault) :
    ¬ Telling (.error (shortageAt e) : Except ProbeError α) := by
  rintro (⟨a, ⟨⟩⟩ | ⟨format, defect, h⟩)
  cases e with
  | none => cases h
  | some fault =>
    rw [shortageAt, Option.elim, ProbeError.ofFault] at h
    split at h <;> cases h

theorem answer_of_outcome {w : Walk (Except ProbeError α)} {r : ρ} {res : Except ProbeError α}
    {t : Tape} {k : Nat} (log : List Note) (h : w.outcome stop (tape r) 0 = (res, t, k)) :
    (w.answer stop r log).1 = res ∧ tape (w.answer stop r log).2.reader = t ∧
      (w.answer stop r log).2.checks = k := by
  obtain ⟨hres, hcore⟩ := Prod.mk.inj ((w.outcome_core stop ⟨r, 0, log⟩).trans h)
  obtain ⟨ht, hk⟩ := Prod.mk.inj hcore
  exact ⟨hres, ht, hk⟩

theorem answer_of_fails {w : Walk (Except ProbeError α)} {r : ρ} (log : List Note)
    (h : Fails Lost (w.outcome stop) (tape r) 0) :
    (w.answer stop r log).1 = .error (shortageAt (tape r).ending) ∧
      taken r (w.answer stop r log).2.reader = (tape r).bytes.length := by
  obtain ⟨a, k, hout, rfl⟩ := h
  obtain ⟨hres, ht, -⟩ := answer_of_outcome log hout
  refine ⟨hres, ?_⟩
  rw [taken, ht]
  rfl

theorem Walk.Prompt.restsOnTaken {w : Walk (Except ProbeError α)} (hw : w.Prompt Lost) :
    RestsOnTaken w := by
  intro ρ τ _ _ stop r r' log log' out out' c htelling
  rcases hw.hinges stop (tape r) 0 with ⟨used, rest, res, k, hbytes, hused⟩ | hfails
  · have hself := hused.same ⟨rest, (tape r).ending⟩
    rw [← hbytes] at hself
    obtain ⟨hres, ht, hk⟩ := answer_of_outcome log hself
    have hc : c = used.length := by
      simp only [c, taken, out, ht, hbytes, List.length_append]
      omega
    have hfirst : (tape r).bytes.take c = used := by rw [hc, hbytes, List.take_left]
    refine ⟨fun hsame => ?_, fun n hn => ?_⟩
    · have hother := hused.same ((tape r').drop c)
      have hsplit : used ++ ((tape r').drop c).bytes = (tape r').bytes := by
        rw [← hfirst, ← hsame]
        exact List.take_append_drop c _
      rw [hsplit] at hother
      obtain ⟨hres', ht', hk'⟩ := answer_of_outcome log' hother
      refine ⟨hres'.trans hres.symm, ?_, hk'.trans hk.symm⟩
      have hlen := congrArg List.length hsplit
      rw [List.length_append, ← hc] at hlen
      simp only [taken, out', ht']
      omega
    · have hcut (e : Option Fault) (h : tape r' = ⟨(tape r).bytes.take n, e⟩) :
          out'.1 = .error (shortageAt e) ∧ taken r' out'.2.reader = n := by
        have hbefore : (tape r).bytes.take n = used.take n := by
          rw [hbytes, List.take_append_of_le_length (by omega)]
        have hfails := hused.cut n e (hc ▸ hn)
        rw [← hbefore, ← h] at hfails
        obtain ⟨hres', ht'⟩ := answer_of_fails log' hfails
        rw [h] at hres' ht'
        refine ⟨hres', ht'.trans ?_⟩
        rw [hbefore, List.length_take]
        omega
      refine ⟨hcut none, fun fault hkind h => ?_⟩
      have htransport : shortageAt (some fault) = .transport fault := if_neg hkind
      rw [← htransport]
      exact hcut (some fault) h
  · obtain ⟨hres, -⟩ := answer_of_fails log hfails
    exact absurd (hres ▸ htelling) (not_telling_shortage _)

end ImageProbe
