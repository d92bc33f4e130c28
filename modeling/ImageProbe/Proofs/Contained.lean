import ImageProbe.Proofs.Box.Parcel
import ImageProbe.Proofs.Checks
import ImageProbe.Proofs.Settled

namespace ImageProbe

open ByteReader

variable {α β σ ρ : Type} [ByteReader ρ] {stop : Stop}

namespace Script

theorem outcome_bind (p : Script α) (f : α → Script β) (t : Tape) (k : Nat) :
    (p >>= f).outcome stop t k =
      (f (p.outcome stop t k).1).outcome stop (p.outcome stop t k).2.1 (p.outcome stop t k).2.2 := by
  change (p.bind f).outcome stop t k = _
  rw [outcome, run_bind]
  exact outcome_core (f (p.run stop (⟨t, k, []⟩ : Session Tape)).1) _

theorem outcome_of_checksOn (stop : Stop) {p : Script α} {t : Tape} (h : p.checksOn t = 0)
    (k : Nat) :
    p.outcome stop t k = ((p.eval t).1, (p.eval t).2, k) := by
  induction p generalizing t with
  | done a => rfl
  | fetch n next ih =>
    rw [outcome_fetch]
    exact ih _ h
  | check halt next => exact absurd h (Nat.succ_ne_zero _)
  | note line next ih =>
    rw [outcome_note]
    exact ih h

theorem outcome_length_le (stop : Stop) (p : Script α) (t : Tape) (k : Nat) :
    (p.outcome stop t k).2.1.bytes.length ≤ t.bytes.length :=
  run_length_le stop p (⟨t, k, []⟩ : Session Tape)

theorem eval_eq_outcome (p : Script α) (t : Tape) :
    p.eval t = ((p.outcome .never t 0).1, (p.outcome .never t 0).2.1) :=
  have h := run_never p (⟨t, 0, []⟩ : Session Tape)
  Prod.ext h.1.symm h.2.symm

theorem eval_of_outcome {p q : Script α} {t t' : Tape}
    (h : p.outcome .never t 0 = q.outcome .never t' 0) : p.eval t = q.eval t' := by
  rw [eval_eq_outcome, eval_eq_outcome, h]

theorem outcome_within (p : Script α) (payload : Bytes) (t : Tape) (k : Nat) :
    let out := p.outcome stop ⟨payload, none⟩ k
    (p.within payload.length).outcome stop ⟨payload ++ t.bytes, t.ending⟩ k =
      ((out.1, out.2.1.bytes.length), ⟨out.2.1.bytes ++ t.bytes, t.ending⟩, out.2.2) := by
  induction p generalizing payload k with
  | done a => rfl
  | fetch n next ih =>
    rw [within, outcome_fetch, outcome_fetch, Tape.haul_within, Tape.drop_within, Tape.left_within]
    exact ih _ _ _
  | check halt next ihhalt ih =>
    rw [within, outcome_check, outcome_check]
    cases stop k with
    | none => exact ih _ _
    | some why => exact ihhalt why _ _
  | note line next ih =>
    rw [within, outcome_note, outcome_note]
    exact ih _ _

end Script

def Contained (F : Tape → Nat → Showing α) (first : Bytes) (k : Nat) (r : α) (left : Bytes)
    (k' : Nat) : Prop :=
  ∀ t : Tape, F ⟨first ++ t.bytes, t.ending⟩ k = (r, ⟨left ++ t.bytes, t.ending⟩, k')

def Halts (T : StopReason → α → Prop) (F : Tape → Nat → Showing α) (first : Bytes) (k : Nat) :
    Prop :=
  ∃ why a left k', T why a ∧ Contained F first k a left k'

theorem Halts.of_eq {T : StopReason → α → Prop} {F G : Tape → Nat → Showing α}
    {first first' : Bytes}
    {k k' : Nat} (h : Halts T G first' k')
    (hgo : ∀ t : Tape, F ⟨first ++ t.bytes, t.ending⟩ k = G ⟨first' ++ t.bytes, t.ending⟩ k') :
    Halts T F first k := by
  obtain ⟨why, a, left, k'', htold, h⟩ := h
  exact ⟨why, a, left, k'', htold, fun t => (hgo t).trans (h t)⟩

namespace Tape

variable {n : Nat} {first : Bytes} (h : n ≤ first.length) (rest : Bytes) (e : Option Fault)

include h

theorem haul_first : (Tape.mk (first ++ rest) e).haul n = ⟨first.take n, none⟩ := by
  have hlong : ¬ (first ++ rest).length < n := by
    rw [List.length_append]
    omega
  rw [haul, List.take_append_of_le_length h, if_neg hlong]

theorem drop_first : (Tape.mk (first ++ rest) e).drop n = ⟨first.drop n ++ rest, e⟩ := by
  rw [drop, List.drop_append_of_le_length h]

end Tape

namespace Script

variable {first left rest : Bytes} {e : Option Fault}

theorem fetch_unread {n : Nat} {next : Haul → Script α} (hrest : rest ≠ [])
    (hleft : ((fetch n next).eval ⟨first ++ rest, e⟩).2.bytes = left ++ rest) : n ≤ first.length := by
  have hlen := eval_length_le (next ((Tape.mk (first ++ rest) e).haul n))
    ((Tape.mk (first ++ rest) e).drop n)
  have hsame := congrArg List.length hleft
  have hpos := List.length_pos_iff.2 hrest
  rw [eval] at hsame
  rw [hsame, Tape.drop_length] at hlen
  simp only [List.length_append] at hlen
  omega

theorem eval_unread (p : Script α) (hrest : rest ≠ [])
    (hleft : (p.eval ⟨first ++ rest, e⟩).2.bytes = left ++ rest) (t : Tape) :
    p.eval ⟨first ++ t.bytes, t.ending⟩ =
      ((p.eval ⟨first ++ rest, e⟩).1, ⟨left ++ t.bytes, t.ending⟩) := by
  induction p generalizing first with
  | done a =>
    obtain rfl : first = left := List.append_cancel_right hleft
    rfl
  | fetch n next ih =>
    have hn := fetch_unread hrest hleft
    rw [eval, Tape.haul_first hn, Tape.drop_first hn] at hleft
    rw [eval, eval, Tape.haul_first hn, Tape.haul_first hn, Tape.drop_first hn, Tape.drop_first hn]
    exact ih _ hleft
  | check halt next _ ih => exact ih hleft
  | note line next ih => exact ih hleft

theorem Heeds.outcome_unread {T : StopReason → α → Prop} {p : Script α} (hp : p.Heeds T)
    (stop : Stop) (hrest : rest ≠ [])
    (hleft : (p.eval ⟨first ++ rest, e⟩).2.bytes = left ++ rest) (k : Nat) :
    Halts T (p.outcome stop) first k ∨
      ∃ k', Contained (p.outcome stop) first k (p.eval ⟨first ++ rest, e⟩).1 left k' := by
  induction p generalizing first k with
  | done a =>
    obtain rfl : first = left := List.append_cancel_right hleft
    exact .inr ⟨k, fun t => rfl⟩
  | fetch n next ih =>
    have hn := fetch_unread hrest hleft
    have hgo (t : Tape) : (fetch n next).outcome stop ⟨first ++ t.bytes, t.ending⟩ k =
        (next ⟨first.take n, none⟩).outcome stop ⟨first.drop n ++ t.bytes, t.ending⟩ k := by
      rw [outcome_fetch, Tape.haul_first hn, Tape.drop_first hn]
    rw [eval, Tape.haul_first hn, Tape.drop_first hn] at hleft ⊢
    rcases ih _ (hp _) hleft k with h | ⟨k', h⟩
    · exact .inl (h.of_eq hgo)
    · exact .inr ⟨k', fun t => (hgo t).trans (h t)⟩
  | check halt next _ ih =>
    cases hk : stop k with
    | none =>
      have hgo (t : Tape) : (check halt next).outcome stop t k = next.outcome stop t (k + 1) := by
        rw [outcome_check, hk]
        rfl
      rcases ih hp.2 hleft (k + 1) with h | ⟨k', h⟩
      · exact .inl (h.of_eq fun t => hgo _)
      · exact .inr ⟨k', fun t => (hgo _).trans (h t)⟩
    | some why =>
      obtain ⟨a, ha, hout⟩ := (hp.1 why).outcome stop
      refine .inl ⟨why, a, first, k + 1, ha, fun t => ?_⟩
      rw [outcome_check, hk]
      exact hout _ _
  | note line next ih =>
    have hnote : (note line next).outcome stop = next.outcome stop :=
      funext fun t => funext fun k => outcome_note line next t k
    rw [hnote]
    exact ih hp hleft k

end Script

theorem Reading.Gives.unread {p : Reading α} {a : α} {first : Bytes} {t : Tape}
    (h : p.Gives ⟨first ++ t.bytes, t.ending⟩ a t) (ht : t.bytes ≠ []) (t' : Tape) :
    p.Gives ⟨first ++ t'.bytes, t'.ending⟩ a t' := by
  rw [Reading.Gives] at h ⊢
  have hleft : (p.run.eval ⟨first ++ t.bytes, t.ending⟩).2.bytes = [] ++ t.bytes := by
    rw [h, List.nil_append]
  rw [p.run.eval_unread ht hleft, h]
  rfl

namespace Walk

/-- The walk gets from here to there, round by round, if no check stops it. -/
inductive Reaches (w : Walk α) : w.State → Tape → w.State → Tape → Prop
  | here (state : w.State) (t : Tape) : w.Reaches state t state t
  | turn {state state' state'' : w.State} {t t' t'' : Tape}
    (round : (w.turn state).eval t = (.more state', t')) (rest : w.Reaches state' t' state'' t'') :
    w.Reaches state t state'' t''

variable {w : Walk α} {state state' : w.State}

theorem outcome_turn {bs : Bytes} (h : bs.length = w.reach state + 1) (t : Tape) (k : Nat) :
    (w.turn state).outcome stop ⟨bs ++ t.bytes, t.ending⟩ k = (w.round state bs).outcome stop t k := by
  have hlong : ¬ (bs ++ t.bytes).length < w.reach state + 1 := by
    rw [List.length_append]
    omega
  rw [turn, Script.outcome_fetch, Tape.haul, Tape.drop, List.take_left' h, List.drop_left' h,
    if_neg hlong]
  exact congrArg (Script.outcome stop · t k) (if_neg (Nat.not_lt.2 (Nat.le_of_eq h.symm)))

theorem eval_turn {bs : Bytes} (h : bs.length = w.reach state + 1) (t : Tape) :
    (w.turn state).eval ⟨bs ++ t.bytes, t.ending⟩ = (w.round state bs).eval t :=
  Script.eval_of_outcome (outcome_turn h t 0)

theorem outcome_turn_short {t : Tape} (h : t.bytes.length < w.reach state + 1) (k : Nat) :
    (w.turn state).outcome stop t k =
      (.done <$> w.close state (t.haul (w.reach state + 1)).shortage : Script _).outcome stop
        (t.drop (w.reach state + 1)) k := by
  have hshort : (t.haul (w.reach state + 1)).bytes.length < w.reach state + 1 := by
    rw [Tape.haul, List.length_take]
    omega
  rw [turn, Script.outcome_fetch]
  exact congrArg (Script.outcome stop · _ k) (if_pos hshort)

theorem runFrom_reaches (w : Walk α) (state : w.State) (s : Session ρ) :
    ∃ state' t', w.Reaches state (tape s.reader) state' t' ∧
      (w.turn state').eval t' =
        (.done (w.runFrom .never state s).1, tape (w.runFrom .never state s).2.reader) := by
  refine w.runFrom_induction .never (fun state s ih => ?_) state s
  obtain ⟨hr, htape⟩ := Script.run_never (w.turn state) s
  rcases heval : (w.turn state).eval (tape s.reader) with ⟨state' | b, t'⟩
  · rw [heval] at hr htape
    obtain ⟨state'', t'', hreach, hdone⟩ := ih state' hr
    rw [← (runFrom_more heval).2] at hdone
    rw [htape] at hreach
    exact ⟨state'', t'', .turn heval hreach, hdone⟩
  · rw [heval] at htape
    refine ⟨state, tape s.reader, .here _ _, ?_⟩
    rw [runFrom_done (congrArg Prod.fst heval), htape, heval]

theorem run_reaches (w : Walk α) (s : Session ρ) :
    (w.start.eval (tape s.reader)).1 = .done (w.run .never s).1 ∨
      ∃ state t state' t', w.start.eval (tape s.reader) = (.more state, t) ∧
        w.Reaches state t state' t' ∧
        (w.turn state').eval t' =
          (.done (w.run .never s).1, tape (w.run .never s).2.reader) := by
  obtain ⟨hr, htape⟩ := Script.run_never w.start s
  rw [run_eq]
  rcases hout : w.start.run .never s with ⟨r, s'⟩
  rw [hout] at hr htape
  subst hr
  rcases heval : w.start.eval (tape s.reader) with ⟨state | b, t⟩
  · rw [heval] at htape
    obtain rfl : tape s'.reader = t := htape
    obtain ⟨state', t', hreach, hdone⟩ := w.runFrom_reaches state s'
    exact .inr ⟨state, _, state', t', rfl, hreach, hdone⟩
  · exact .inl rfl

theorem Reaches.last {state'' : w.State} {t t' t'' : Tape} {a b : α}
    (h : w.Reaches state t state' t') (h' : w.Reaches state t state'' t'')
    (hdone : ((w.turn state').eval t').1 = .done a) (hdone' : ((w.turn state'').eval t'').1 = .done b) :
    state' = state'' ∧ t' = t'' := by
  induction h with
  | here state t =>
    cases h' with
    | here => exact ⟨rfl, rfl⟩
    | turn round rest =>
      rw [round] at hdone
      exact nomatch hdone
  | turn round rest ih =>
    cases h' with
    | here =>
      rw [round] at hdone'
      exact nomatch hdone'
    | turn round' rest' =>
      obtain ⟨hstate, htape⟩ := Prod.mk.inj (round.symm.trans round')
      cases hstate
      cases htape
      exact ih rest' hdone

theorem Reaches.suffix {t t' : Tape} (h : w.Reaches state t state' t') : t'.bytes <:+ t.bytes := by
  induction h with
  | here state t => exact List.suffix_rfl
  | turn round rest ih =>
    rename_i state state₁ _ t t₁ t₂
    have hround := (w.turn state).eval_suffix t
    rw [round] at hround
    exact ih.trans hround

theorem Reaches.comesFrom {t t' : Tape} {a : α} (h : w.Reaches state t state' t')
    (h' : w.ComesFrom state' t' a) : w.ComesFrom state t a := by
  induction h with
  | here => exact h'
  | turn round _ ih => exact .more round (ih h')

theorem comesFrom_unique {t : Tape} {a b : α} (h : w.ComesFrom state t a)
    (h' : w.ComesFrom state t b) : a = b := by
  induction h with
  | done round =>
    cases h' with
    | done round' => exact Step.done.inj (round.symm.trans round')
    | more round' rest' =>
      rw [round'] at round
      exact nomatch round
  | more round rest ih =>
    cases h' with
    | done round' =>
      rw [round] at round'
      exact nomatch round'
    | more round' rest' =>
      obtain ⟨hstate, htape⟩ := Prod.mk.inj (round.symm.trans round')
      cases hstate
      cases htape
      exact ih rest'

/-- The rounds on the way to a place that is not the end of the tape take what they take whatever
stands there. -/
theorem Reaches.round_induction {first rest : Bytes} {e e' : Option Fault} {Q : w.State → Bytes → Prop}
    (h : w.Reaches state ⟨first ++ rest, e⟩ state' ⟨rest, e'⟩) (hrest : rest ≠ []) (here : Q state' [])
    (turn : ∀ state state₁ first left, (∀ t : Tape, (w.turn state).eval ⟨first ++ t.bytes, t.ending⟩ =
      (.more state₁, ⟨left ++ t.bytes, t.ending⟩)) → Q state₁ left → Q state first) : Q state first := by
  generalize hfrom : Tape.mk (first ++ rest) e = u at h
  generalize hto : Tape.mk rest e' = u' at h
  induction h generalizing first e with
  | here state u =>
    have hfirst : first = [] := by
      have hlen := congrArg (·.bytes.length) (hfrom.trans hto.symm)
      simpa using hlen
    exact hfirst ▸ here
  | turn round onward ih =>
    rename_i state state₁ _ u u₁ u₂
    obtain ⟨left, hleft⟩ := onward.suffix
    subst hfrom
    subst hto
    have hbytes : ((w.turn state).eval ⟨first ++ rest, e⟩).2.bytes = left ++ rest := by
      rw [round]
      exact hleft.symm
    have hround := Script.eval_unread _ hrest hbytes
    rw [round] at hround
    have hthere : Tape.mk (left ++ rest) u₁.ending = u₁ := by rw [hleft]
    exact turn state state₁ first left hround (ih here hthere rfl)

theorem Reaches.elsewhere {first rest : Bytes} {e e' : Option Fault}
    (h : w.Reaches state ⟨first ++ rest, e⟩ state' ⟨rest, e'⟩) (hrest : rest ≠ []) (t : Tape) :
    w.Reaches state ⟨first ++ t.bytes, t.ending⟩ state' t := by
  refine h.round_induction (Q := fun state first =>
    w.Reaches state ⟨first ++ t.bytes, t.ending⟩ state' t) hrest (.here state' t) ?_
  intro state state₁ first left hround ih
  exact .turn (hround t) ih

/-- On the way to a place that is not the end of the tape, what stands there does not count. -/
theorem Reaches.outcomeFrom {T : StopReason → α → Prop} (hw : w.Heeds T) (stop : Stop)
    {first rest : Bytes} {e e' : Option Fault}
    (h : w.Reaches state ⟨first ++ rest, e⟩ state' ⟨rest, e'⟩) (hrest : rest ≠ []) (k : Nat) :
    Halts T (w.outcomeFrom stop state) first k ∨
      ∃ k', ∀ t : Tape, w.outcomeFrom stop state ⟨first ++ t.bytes, t.ending⟩ k =
        w.outcomeFrom stop state' t k' := by
  refine h.round_induction (Q := fun state first => ∀ k, Halts T (w.outcomeFrom stop state) first k ∨
    ∃ k', ∀ t : Tape, w.outcomeFrom stop state ⟨first ++ t.bytes, t.ending⟩ k =
      w.outcomeFrom stop state' t k') hrest (fun k => .inr ⟨k, fun t => rfl⟩) ?_ k
  intro state state₁ first left hround ih k
  have hgo {r : Step w.State α} {left' : Bytes} {k' : Nat}
      (h : Contained ((w.turn state).outcome stop) first k r left' k') (t : Tape) :
      w.outcomeFrom stop state ⟨first ++ t.bytes, t.ending⟩ k =
        follow (w.outcomeFrom stop) (r, ⟨left' ++ t.bytes, t.ending⟩, k') := by
    rw [outcomeFrom_eq, h t]
  have hbytes : ((w.turn state).eval ⟨first ++ rest, e⟩).2.bytes = left ++ rest := by
    rw [hround ⟨rest, e⟩]
  rcases (hw.turn state).outcome_unread stop hrest hbytes k with
    ⟨why, state' | a, left', k', htold, h⟩ | ⟨k', h⟩
  · exact htold.elim
  · exact .inl ⟨why, a, left', k', htold, hgo h⟩
  · rw [hround ⟨rest, e⟩] at h
    rcases ih k' with hstop | ⟨k'', hon⟩
    · exact .inl (hstop.of_eq fun t => hgo h t)
    · exact .inr ⟨k'', fun t => (hgo h t).trans (hon t)⟩

end Walk

namespace Box

def passed (t : Tape) : Showing (Step σ α) → Showing (Step σ α)
  | (.more s, _, k) => (.more s, t, k)
  | (.done a, left, k) => (.done a, ⟨left.bytes ++ t.bytes, t.ending⟩, k)

theorem outcome_leave (h : Header) (left : Nat) (a : α) (t : Tape) (k : Nat) :
    (h.leave left a).outcome stop t k = (a, t, k) := by
  rw [Header.leave, Script.outcome_of_checksOn stop (Script.quiet_notes _ _ _), Script.eval_notes]

theorem outcome_visit {h : Header} {payload : Bytes} (hp : h.payload = payload.length)
    (refused : σ → ProbeError → α) (look : Script (Step σ α)) (t : Tape) (k : Nat) :
    (h.visit refused look).outcome stop ⟨payload ++ t.bytes, t.ending⟩ k =
      passed t (look.outcome stop ⟨payload, none⟩ k) := by
  rw [Header.visit, hp, Script.outcome_bind, Script.outcome_within]
  rcases look.outcome stop ⟨payload, none⟩ k with ⟨s | a, left, k'⟩
  · simp only [Script.outcome_bind,
      Script.outcome_of_checksOn stop (h.quiet_skipRest left.bytes.length _), eval_skipRest]
    rfl
  · exact outcome_leave h _ _ _ _

end Box

end ImageProbe
