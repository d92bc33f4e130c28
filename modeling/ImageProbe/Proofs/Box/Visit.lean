import ImageProbe.Proofs.Eval
import ImageProbe.Proofs.Prompt

namespace ImageProbe

namespace Tape

theorem clip_append (payload rest : Bytes) (e : Option Fault) :
    (Tape.mk (payload ++ rest) e).clip payload.length = ⟨payload, none⟩ := by
  rw [clip, List.take_left, if_neg]
  simp only [List.length_append]
  omega

theorem clip_all {bs : Bytes} {limit : Nat} (h : bs.length ≤ limit) :
    (Tape.mk bs none).clip limit = ⟨bs, none⟩ := by
  rw [clip, List.take_of_length_le h, ite_self]

end Tape

namespace Box

variable {σ α : Type} {h : Header} {refused : σ → ProbeError → α} {look : Script (Step σ α)}
  {t : Tape} {s : σ} {a : α} {payload : Bytes}

namespace Header

theorem skipRest_eval (h : Header) (left : Nat) (t : Tape) :
    (h.skipRest left).eval t =
      (if t.bytes.length < left ∧ (t.ending.isSome ∨ ¬ h.isOpen) then .error (shortageAt t.ending)
        else .ok (), t.drop left) := by
  rw [skipRest]
  by_cases hleft : left = 0
  · subst hleft
    rw [if_pos rfl, if_neg fun hboth => Nat.not_lt_zero _ hboth.1]
    rfl
  rw [if_neg hleft, Script.eval, Script.eval]
  by_cases hshort : t.bytes.length < left
  · have hhaul : t.haul left = ⟨t.bytes, t.ending⟩ := by
      rw [Tape.haul, if_pos hshort, List.take_of_length_le (Nat.le_of_lt hshort)]
    rw [hhaul]
    split
    · exact Script.eval_notes _ _ _
    · rfl
  · have hlong : ¬ (t.haul left).bytes.length < left := by
      rw [Tape.haul, List.length_take]
      omega
    rw [if_neg fun hboth => hlong hboth.1, if_neg fun hboth => hshort hboth.1]
    rfl

theorem visit_more (hlook : (look.eval (t.clip h.payload)).1 = .more s) :
    (h.visit refused look).eval t =
      (if t.bytes.length < h.payload ∧ (t.ending.isSome ∨ ¬ h.isOpen) then
          .done (refused s (shortageAt t.ending))
        else .more s, t.drop h.payload) := by
  rw [← Script.eval_clip look h.payload] at hlook
  have hleft := look.within_left h.payload t
  have hsuffix := (look.within h.payload).eval_suffix t
  have hending := (look.within h.payload).eval_ending t
  rw [visit, Script.eval_bind]
  rcases hout : (look.within h.payload).eval t with ⟨⟨x, left⟩, t'⟩
  rw [hout] at hlook hleft hsuffix hending
  dsimp only at hlook hleft hsuffix hending
  subst hlook
  have hdrop : t'.drop left = t.drop h.payload := by
    have hbytes : t'.bytes.drop left = t.bytes.drop h.payload := by
      obtain ⟨taken, htaken⟩ := hsuffix
      have hlen := congrArg List.length htaken
      rw [List.length_append] at hlen
      have hpayload : h.payload = taken.length + left := by omega
      rw [← htaken, hpayload, List.drop_length_add_append]
    rw [Tape.drop, Tape.drop, hbytes, hending]
  have hshort : t'.bytes.length < left ↔ t.bytes.length < h.payload := by omega
  simp only [Script.eval_bind, skipRest_eval, hdrop, hending, hshort]
  by_cases hlost : t.bytes.length < h.payload ∧ (t.ending.isSome ∨ ¬ h.isOpen)
  · rw [if_pos hlost, if_pos hlost]
    rfl
  · rw [if_neg hlost, if_neg hlost]
    rfl

theorem visit_done (hlook : (look.eval (t.clip h.payload)).1 = .done a) :
    ((h.visit refused look).eval t).1 = .done a := by
  rw [← Script.eval_clip look h.payload] at hlook
  rw [visit, Script.eval_bind]
  rcases hout : (look.within h.payload).eval t with ⟨⟨x, left⟩, t'⟩
  rw [hout] at hlook
  subst hlook
  exact congrArg Prod.fst (Script.eval_notes _ _ _)

theorem visit_short {rest : Tape} (ht : t.bytes.length < h.payload)
    (hmore : (h.visit refused look).eval t = (.more s, rest)) : rest.bytes = [] := by
  rcases hlook : (look.eval (t.clip h.payload)).1 with s' | a
  · rw [visit_more hlook, Prod.mk.injEq] at hmore
    rw [← hmore.2]
    exact List.drop_eq_nil_of_le (Nat.le_of_lt ht)
  · have hdone : ((h.visit refused look).eval t).1 = .done a := visit_done hlook
    rw [hmore] at hdone
    cases hdone

end Header

theorem eval_skipRest (h : Header) (left rest : Bytes) (e : Option Fault) :
    (h.skipRest left.length).eval ⟨left ++ rest, e⟩ = (.ok (), ⟨rest, e⟩) := by
  have hlong : ¬ (left ++ rest).length < left.length := by
    rw [List.length_append]
    omega
  rw [h.skipRest_eval, if_neg fun hboth => hlong hboth.1, Tape.drop, List.drop_left]

theorem visit_more (hp : h.payload = payload.length)
    (hlook : (look.eval ⟨payload, none⟩).1 = .more s) (rest : Bytes) (e : Option Fault) :
    (h.visit refused look).eval ⟨payload ++ rest, e⟩ = (.more s, ⟨rest, e⟩) := by
  have hlong : ¬ (payload ++ rest).length < h.payload := by
    rw [hp, List.length_append]
    omega
  rw [← Tape.clip_append payload rest e, ← hp] at hlook
  rw [Header.visit_more hlook, if_neg fun hboth => hlong hboth.1, hp, Tape.drop, List.drop_left]

theorem visit_done (hp : h.payload = payload.length)
    (hlook : (look.eval ⟨payload, none⟩).1 = .done a) (rest : Bytes) (e : Option Fault) :
    ((h.visit refused look).eval ⟨payload ++ rest, e⟩).1 = .done a := by
  rw [← Tape.clip_append payload rest e, ← hp] at hlook
  exact Header.visit_done hlook

end Box

end ImageProbe
