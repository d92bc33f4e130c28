import ImageProbe.Proofs.Agree

namespace ImageProbe

variable {α β γ σ : Type} {stop : Stop}

theorem Tape.drop_within_limit (t : Tape) {m limit : Nat} (h : m ≤ limit) :
    (t.drop m).drop (limit - (t.haul m).bytes.length) = t.drop limit := by
  have hbytes : (t.bytes.drop m).drop (limit - min m t.bytes.length) = t.bytes.drop limit := by
    rw [List.drop_drop]
    rcases Nat.le_total m t.bytes.length with hle | hle
    · rw [Nat.min_eq_left hle, Nat.add_sub_cancel' h]
    · rw [List.drop_of_length_le (Nat.le_trans hle h), List.drop_of_length_le (by omega)]
  rw [haul, List.length_take]
  exact congrArg (Tape.mk · t.ending) hbytes

theorem Tape.clip_replaced {t : Tape} {limit : Nat} {bs bs' : Bytes} {e : Option Fault}
    (h : t.clip limit = ⟨bs, e⟩) (hlength : bs'.length = bs.length) :
    let t' : Tape := ⟨bs' ++ t.bytes.drop limit, t.ending⟩
    t.bytes = bs ++ t.bytes.drop limit ∧ t'.bytes.length = t.bytes.length ∧
      t'.clip limit = ⟨bs', e⟩ ∧ t'.drop limit = t.drop limit := by
  obtain ⟨rfl, rfl⟩ := Tape.mk.inj h
  rw [List.length_take] at hlength
  have hall : (bs' ++ t.bytes.drop limit).length = t.bytes.length := by
    rw [List.length_append, List.length_drop]
    omega
  have hsplit : (bs' ++ t.bytes.drop limit).take limit = bs' ∧
      (bs' ++ t.bytes.drop limit).drop limit = t.bytes.drop limit := by
    rcases Nat.le_total limit t.bytes.length with hle | hle
    · have hlimit : bs'.length = limit := hlength.trans (Nat.min_eq_left hle)
      exact ⟨List.take_left' hlimit, List.drop_left' hlimit⟩
    · have hlimit : bs'.length ≤ limit := by omega
      rw [List.drop_of_length_le hle, List.append_nil]
      exact ⟨List.take_of_length_le hlimit, List.drop_of_length_le hlimit⟩
  refine ⟨(List.take_append_drop limit t.bytes).symm, hall, ?_, ?_⟩
  · rw [clip, hsplit.1, hall]
  · exact congrArg (Tape.mk · t.ending) hsplit.2

/-- Within a length limit a run shows what it shows on the clipped tape, and what is left of the limit
leads to its end. -/
theorem Script.outcome_within_clip (stop : Stop) (p : Script α) (limit : Nat) (t : Tape)
    (k : Nat) :
    ∃ room left, (p.within limit).outcome stop t k =
        (((p.outcome stop (t.clip limit) k).1, room), left,
          (p.outcome stop (t.clip limit) k).2.2) ∧
      left.drop room = t.drop limit ∧ room + t.bytes.length = limit + left.bytes.length := by
  induction p generalizing limit t k with
  | done a => exact ⟨limit, t, rfl, rfl, Nat.add_comm _ _ ▸ rfl⟩
  | fetch n next ih =>
    obtain ⟨room, left, hout, hdrop, hlength⟩ := ih (t.haul (min n limit))
      (limit - (t.haul (min n limit)).bytes.length) (t.drop (min n limit)) k
    refine ⟨room, left, ?_, hdrop.trans ?_, ?_⟩
    · rw [within, outcome_fetch, outcome_fetch, Tape.haul_clip, Tape.drop_clip]
      exact hout
    · exact Tape.drop_within_limit t (Nat.min_le_right n limit)
    · simp only [Tape.haul, List.length_take, Tape.drop_length] at hlength
      omega
  | check halt next ihhalt ih =>
    rw [within, outcome_check, outcome_check]
    cases stop k with
    | none => exact ih limit t (k + 1)
    | some why => exact ihhalt why limit t (k + 1)
  | note line next ih =>
    rw [within, outcome_note, outcome_note]
    exact ih limit t k

namespace Box

def past (h : Header) (refused : σ → ProbeError → α) (t left : Tape) :
    Showing (Step σ α) → Showing (Step σ α)
  | (.more s, _, k) =>
    (if t.bytes.length < h.payload ∧ (t.ending.isSome ∨ ¬ h.isOpen) then
        .done (refused s (shortageAt t.ending))
      else .more s, t.drop h.payload, k)
  | (.done a, _, k) => (.done a, left, k)

theorem outcome_visit_clip (h : Header) (refused : σ → ProbeError → α) (look : Script (Step σ α))
    (t : Tape) (k : Nat) :
    ∃ left, (h.visit refused look).outcome stop t k =
      past h refused t left (look.outcome stop (t.clip h.payload) k) := by
  obtain ⟨room, left, hout, hdrop, hlength⟩ :=
    look.outcome_within_clip stop h.payload t k
  refine ⟨left, ?_⟩
  rw [Header.visit, Script.outcome_bind, hout]
  rcases look.outcome stop (t.clip h.payload) k with ⟨s | a, left', k'⟩
  · have hending : (left.drop room).ending = (t.drop h.payload).ending := by rw [hdrop]
    change left.ending = t.ending at hending
    have hshort : left.bytes.length < room ↔ t.bytes.length < h.payload := by omega
    simp only [Script.outcome_bind, Script.outcome_of_checksOn stop (h.quiet_skipRest room _),
      Header.skipRest_eval, hdrop, hending, hshort, past]
    by_cases hlost : t.bytes.length < h.payload ∧ (t.ending.isSome ∨ ¬ h.isOpen)
    · rw [if_pos hlost, if_pos hlost]
      rfl
    · rw [if_neg hlost, if_neg hlost]
      rfl
  · exact outcome_leave h _ _ _ _

end Box

theorem AgreeBy.visit {view : β → γ} {h : Box.Header} {refused : σ → ProbeError → β}
    {look look' : Script (Step σ β)} {L : σ → Tape → Nat → Showing β} {t t' : Tape} {k : Nat}
    (hlength : t.bytes.length = t'.bytes.length) (hdrop : t.drop h.payload = t'.drop h.payload)
    (hlook : AgreeBy id (look.outcome stop (t.clip h.payload) k)
      (look'.outcome stop (t'.clip h.payload) k)) :
    AgreeBy view (Walk.follow L ((h.visit refused look).outcome stop t k))
      (Walk.follow L ((h.visit refused look').outcome stop t' k)) := by
  obtain ⟨left, hvisit⟩ := Box.outcome_visit_clip h refused look t k
  obtain ⟨left', hvisit'⟩ := Box.outcome_visit_clip h refused look' t' k
  have hending : (t.drop h.payload).ending = (t'.drop h.payload).ending := by rw [hdrop]
  change t.ending = t'.ending at hending
  obtain ⟨hresult, hchecks⟩ := hlook
  rw [hvisit, hvisit']
  generalize look.outcome stop (t.clip h.payload) k = x at hresult hchecks ⊢
  generalize look'.outcome stop (t'.clip h.payload) k = y at hresult hchecks ⊢
  rcases x with ⟨s | a, rest, k₁⟩ <;> rcases y with ⟨s' | a', rest', k₁'⟩ <;>
    cases hresult <;> cases hchecks
  · rw [Box.past, Box.past, hlength, hending, hdrop]
    exact .of_eq rfl
  · exact ⟨rfl, rfl⟩

end ImageProbe
