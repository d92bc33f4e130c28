import ImageProbe.Proofs.Contained

namespace ImageProbe

variable {α σ : Type} {stop : Stop}

namespace Script

theorem outcome_within_end (stop : Stop) (p : Script α) {limit : Nat} {bytes : Bytes}
    (hlimit : bytes.length ≤ limit) (k : Nat) :
    ∃ res left limit' k', p.outcome stop ⟨bytes, none⟩ k = (res, ⟨left, none⟩, k') ∧
      (p.within limit).outcome stop ⟨bytes, none⟩ k = ((res, limit'), ⟨left, none⟩, k') ∧
      left.length ≤ limit' := by
  induction p generalizing limit bytes k with
  | done a => exact ⟨a, bytes, limit, k, rfl, rfl, hlimit⟩
  | fetch n next ih =>
    have hhaul (m : Nat) : (Tape.mk bytes none).haul m = ⟨bytes.take m, none⟩ := by
      rw [Tape.haul, ite_self]
    have htake : bytes.take (min n limit) = bytes.take n := by
      rw [← List.take_take, List.take_of_length_le hlimit]
    have hdrop : bytes.drop (min n limit) = bytes.drop n := by
      rcases Nat.le_total n limit with hle | hle
      · rw [Nat.min_eq_left hle]
      · rw [Nat.min_eq_right hle, List.drop_of_length_le hlimit, List.drop_of_length_le (by omega)]
    rw [within, outcome_fetch, outcome_fetch, hhaul, hhaul, Tape.drop, Tape.drop, htake, hdrop]
    apply ih
    simp only [List.length_take, List.length_drop]
    omega
  | check halt next ihhalt ih =>
    rw [within, outcome_check, outcome_check]
    cases stop k with
    | none => exact ih hlimit (k + 1)
    | some why => exact ihhalt why hlimit (k + 1)
  | note line next ih =>
    rw [within, outcome_note, outcome_note]
    exact ih hlimit k

end Script

namespace Box

theorem eval_skipRest_open {h : Header} (hopen : h.isOpen = true) {left : Bytes} {limit : Nat}
    (hlimit : left.length ≤ limit) :
    (h.skipRest limit).eval ⟨left, none⟩ = (.ok (), ⟨[], none⟩) := by
  rw [h.skipRest_eval, if_neg (by simp [hopen]), Tape.drop, List.drop_of_length_le hlimit]

theorem outcome_visit_open {h : Header} (hopen : h.isOpen = true) {payload : Bytes}
    (hp : payload.length ≤ h.payload) (refused : σ → ProbeError → α) (look : Script (Step σ α))
    (k : Nat) :
    (h.visit refused look).outcome stop ⟨payload, none⟩ k =
      passed ⟨[], none⟩ (look.outcome stop ⟨payload, none⟩ k) := by
  obtain ⟨res, left, limit, k', hlook, hwithin, hlimit⟩ :=
    look.outcome_within_end stop hp k
  rw [Header.visit, Script.outcome_bind, hwithin, hlook]
  rcases res with s | a
  · simp only [Script.outcome_bind,
      Script.outcome_of_checksOn stop (h.quiet_skipRest limit _), eval_skipRest_open hopen hlimit]
    rfl
  · rw [passed, List.append_nil]
    exact outcome_leave h _ _ _ _

theorem visit_done_open {a : α} {h : Header} {payload : Bytes}
    {refused : σ → ProbeError → α} {look : Script (Step σ α)} (hp : payload.length ≤ h.payload)
    (hlook : (look.eval ⟨payload, none⟩).1 = .done a) :
    ((h.visit refused look).eval ⟨payload, none⟩).1 = .done a := by
  rw [← Tape.clip_all hp] at hlook
  exact Header.visit_done hlook

namespace Parcel

def opened (p : Parcel) : Bytes := toBigEndian 4 0 ++ p.name ++ p.payload

def openHeader (p : Parcel) : Header := ⟨p.name, openSize, headLength⟩

theorem openHeader_gives (p : Parcel) (format : ImageFormat) (t : Tape) :
    (Box.header format (toBigEndian 4 0 ++ p.name)).Gives t p.openHeader t := by
  have htake : (toBigEndian 4 0 ++ p.name).take 4 = toBigEndian 4 0 :=
    List.take_left' (length_toBigEndian _ _)
  have hdrop : (toBigEndian 4 0 ++ p.name).drop 4 = p.name :=
    List.drop_left' (length_toBigEndian _ _)
  unfold Box.header
  rw [htake, hdrop, bigEndian_toBigEndian (by decide)]
  exact .pure _ _

theorem haul_opened {p : Parcel} (hp : p.Fits) :
    (Tape.mk p.opened none).haul headLength = ⟨toBigEndian 4 0 ++ p.name, none⟩ ∧
      (Tape.mk p.opened none).drop headLength = ⟨p.payload, none⟩ ∧
      ¬ (toBigEndian 4 0 ++ p.name).length < headLength := by
  have hhead : (toBigEndian 4 0 ++ p.name).length = headLength := by
    rw [List.length_append, length_toBigEndian, hp.name]
    rfl
  rw [Tape.haul, Tape.drop, Parcel.opened, List.take_left' hhead, List.drop_left' hhead, ite_self]
  exact ⟨rfl, rfl, Nat.not_lt.2 (Nat.le_of_eq hhead.symm)⟩

theorem payload_le_open {p : Parcel} (hp : p.Fits) :
    p.payload.length ≤ p.openHeader.payload := by
  have hsize := hp.size
  have hroom : p.openHeader.payload = range64 - 9 := rfl
  obtain ⟨wide, name, payload⟩ := p
  rw [hroom]
  cases wide with
  | true =>
    simp only [header, if_true] at hsize
    simp only
    omega
  | false =>
    have hrange : range32 ≤ range64 - 9 := by decide
    simp only [header, Bool.false_eq_true, if_false] at hsize
    simp only
    omega

end Parcel

end Box

end ImageProbe
