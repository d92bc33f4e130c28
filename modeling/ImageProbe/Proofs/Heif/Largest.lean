import ImageProbe.Heif.Findings

namespace ImageProbe

namespace Heif

open Findings

def best (extents : List (Nat × Nat)) : Nat × Nat := extents.foldr better (0, 0)

def Exceeds (extent best : Nat × Nat) : Prop := best.1 < extent.1 ∨ best.2 < extent.2

def Dominates (extent best : Nat × Nat) : Prop :=
  best.1 ≤ extent.1 ∧ best.2 ≤ extent.2 ∧ Exceeds extent best

instance (e b : Nat × Nat) : Decidable (Exceeds e b) := inferInstanceAs (Decidable (_ ∨ _))

instance (e b : Nat × Nat) : Decidable (Dominates e b) := inferInstanceAs (Decidable (_ ∧ _))

theorem best_cons (e : Nat × Nat) (es : List (Nat × Nat)) :
    best (e :: es) = if Exceeds e (best es) then e else best es := rfl

/-- The extents that were the best ones when they were found. -/
def records : List (Nat × Nat) → List (Nat × Nat)
  | [] => []
  | e :: es => if Exceeds e (best es) then e :: records es else records es

theorem best_eq_head (es : List (Nat × Nat)) : best es = (records es).headD (0, 0) := by
  induction es with
  | nil => rfl
  | cons e es ih =>
    rw [best_cons, records]
    split
    · rfl
    · exact ih

theorem mem_of_mem_records {r : Nat × Nat} {es : List (Nat × Nat)} (h : r ∈ records es) :
    r ∈ es := by
  induction es with
  | nil => exact h
  | cons e es ih =>
    rw [records] at h
    split at h
    · rcases List.mem_cons.1 h with rfl | h
      · exact List.mem_cons_self
      · exact List.mem_cons_of_mem _ (ih h)
    · exact List.mem_cons_of_mem _ (ih h)

theorem records_tail (es : List (Nat × Nat)) {r : Nat × Nat} {rs : List (Nat × Nat)}
    (h : records es = r :: rs) : Exceeds r (rs.headD (0, 0)) := by
  induction es with
  | nil => exact nomatch h
  | cons e es ih =>
    rw [records] at h
    split at h
    · rename_i he
      obtain ⟨rfl, rfl⟩ := List.cons.inj h
      rwa [← best_eq_head]
    · exact ih h

theorem within_record {e : Nat × Nat} {es : List (Nat × Nat)} (h : e ∈ es) :
    ∃ r, (r = (0, 0) ∨ r ∈ records es) ∧ e.1 ≤ r.1 ∧ e.2 ≤ r.2 := by
  induction es with
  | nil => exact nomatch h
  | cons x es ih =>
    rw [records]
    rcases List.mem_cons.1 h with rfl | h
    · split
      · exact ⟨e, .inr List.mem_cons_self, Nat.le_refl _, Nat.le_refl _⟩
      · rename_i he
        obtain ⟨h1, h2⟩ := not_or.1 he
        refine ⟨best es, ?_, Nat.le_of_not_lt h1, Nat.le_of_not_lt h2⟩
        rw [best_eq_head]
        cases records es with
        | nil => exact .inl rfl
        | cons r rs => exact .inr List.mem_cons_self
    · obtain ⟨r, hr, hle⟩ := ih h
      refine ⟨r, hr.imp_right fun hr => ?_, hle⟩
      split
      · exact List.mem_cons_of_mem _ hr
      · exact hr

theorem Dominates.not_exceeds {e b : Nat × Nat} (h : Dominates e b) : ¬ Exceeds b e := by
  obtain ⟨h1, h2, -⟩ := h
  rintro (h | h)
  · omega
  · omega

theorem Dominates.of_le {e r b : Nat × Nat} (h : Dominates e b) (h1 : e.1 ≤ r.1) (h2 : e.2 ≤ r.2) :
    Dominates r b := by
  obtain ⟨hb1, hb2, hb⟩ := h
  refine ⟨by omega, by omega, ?_⟩
  apply hb.imp
  · intro hw
    omega
  · intro hh
    omega

theorem not_dominates_self (e : Nat × Nat) : ¬ Dominates e e :=
  fun h => h.not_exceeds h.2.2

theorem undominated_iff (es : List (Nat × Nat)) :
    (∀ e ∈ es, ¬ Dominates e (best es)) ↔ ∀ r ∈ (records es).drop 2, ¬ Dominates r (best es) := by
  constructor
  · intro h r hr
    exact h r (mem_of_mem_records (List.mem_of_mem_drop hr))
  · intro h e he hdom
    -- A record that holds the extent dominates too; it is not the last one, and not the one before,
    -- which the last one exceeds.
    obtain ⟨r, hr, h1, h2⟩ := within_record he
    replace hdom := hdom.of_le h1 h2
    rw [best_eq_head] at h hdom
    rcases hr with rfl | hr
    · rcases hdom.2.2 with h0 | h0 <;> exact Nat.not_lt_zero _ h0
    · cases hrec : records es with
      | nil => exact nomatch hrec ▸ hr
      | cons r₀ rs =>
        rw [hrec] at h hr hdom
        have hlast := records_tail es hrec
        rcases List.mem_cons.1 hr with rfl | hr
        · exact not_dominates_self _ hdom
        · cases rs with
          | nil => exact nomatch hr
          | cons r₁ rs =>
            rcases List.mem_cons.1 hr with rfl | hr
            · exact hdom.not_exceeds hlast
            · exact h r hr hdom

end Heif

end ImageProbe
