import Mathlib.Control.Monad.Basic
import ImageProbe.Heif
import ImageProbe.Proofs.Heif.Largest
import ImageProbe.Proofs.Prompt.Decoders
import ImageProbe.Stream.Source

namespace ImageProbe

namespace Heif

variable {ρ : Type} [ByteReader ρ]

def verdict : Outcome → Except ProbeError ImageInfo
  | (.ok (), f) => answer f
  | (.error (.stopped why), _) => .error (.stopped why)
  | (.error e, f) => if f.isKnown ∨ e = .endOfData then answer f else .error e

theorem verdict_error {e : ProbeError} (h : e.Plain) (f : Findings) :
    verdict (.error e, f) = if f.isKnown ∨ e = .endOfData then answer f else .error e := by
  cases e with
  | stopped why => exact absurd rfl (h why)
  | _ => rfl

theorem conclude_ends (o : Outcome) : (conclude o).Ends (· = verdict o) := by
  unfold conclude
  split
  · rfl
  · rfl
  · rename_i e f h
    rw [verdict_error h]
    by_cases hk : f.isKnown = true
    · rw [if_pos hk, if_pos (.inl hk)]
      rfl
    by_cases he : e = .endOfData
    · rw [if_neg hk, if_pos he, if_pos (.inr he)]
      rfl
    · rw [if_neg hk, if_neg he, if_neg (not_or.2 ⟨hk, he⟩)]
      rfl

theorem conclude_run (o : Outcome) (stop : Stop) (s : Session ρ) :
    ∃ log, (conclude o).run stop s = (verdict o, { s with log }) := by
  obtain ⟨a, log, rfl, hrun⟩ := (conclude_ends o).run stop s
  exact ⟨log, hrun⟩

theorem decode_eq (brands : BrandRule) (stop : Stop) (s : Session ρ) :
    ((decoder brands).decode stop s).1 = verdict ((walk brands).run stop s).1 :=
  Decoder.decode_andThen conclude_ends stop s

theorem answer_of_known {f : Findings} (h : f.isKnown = true) :
    answer f = .ok ⟨f.errorFormat, (best f.extents).1, (best f.extents).2⟩ := by
  obtain ⟨format | format, extents⟩ := f
  · exact nomatch h
  · exact if_pos h

theorem answer_of_unknown {f : Findings} (h : ¬ f.isKnown = true) :
    answer f = .error (.malformed f.errorFormat .dimensionsNotFound) := by
  obtain ⟨format | format, extents⟩ := f
  · rfl
  · exact if_neg h

theorem verdict_of_known {o : Outcome} (h : o.2.isKnown = true) (hlate : ∀ why, ¬ Reported why o) :
    verdict o = .ok ⟨o.2.errorFormat, (best o.2.extents).1, (best o.2.extents).2⟩ := by
  rw [← answer_of_known h]
  rcases o with ⟨e | u, f⟩
  · have he : e.Plain := fun why he => hlate why (told_error.2 he)
    rw [verdict_error he, if_pos (.inl h)]
  · rfl

theorem verdict_of_unknown {o : Outcome} (h : ¬ o.2.isKnown = true) :
    ∃ e, verdict o = .error e := by
  have hanswer := answer_of_unknown h
  unfold verdict
  split
  · exact ⟨_, hanswer⟩
  · exact ⟨_, rfl⟩
  · split
    · exact ⟨_, hanswer⟩
    · exact ⟨_, rfl⟩

theorem verdict_of_reported {o : Outcome} {why : StopReason} (h : Reported why o) :
    verdict o = .error (.stopped why) := by
  obtain ⟨r, f⟩ := o
  cases h
  rfl

theorem untold_of_verdict {o : Outcome} {info : ImageInfo} (h : verdict o = .ok info)
    (why : StopReason) : ¬ Reported why o :=
  fun hwhy => nomatch (verdict_of_reported hwhy).symm.trans h

theorem known_of_verdict {o : Outcome} {info : ImageInfo} (h : verdict o = .ok info) :
    o.2.isKnown = true ∧ info = ⟨o.2.errorFormat, (best o.2.extents).1, (best o.2.extents).2⟩ := by
  by_cases hk : o.2.isKnown = true
  · rw [verdict_of_known hk (untold_of_verdict h)] at h
    exact ⟨hk, (Except.ok.inj h).symm⟩
  · obtain ⟨e, he⟩ := verdict_of_unknown hk
    exact nomatch he.symm.trans h

theorem verdict_ok_iff {o : Outcome} (hlate : ∀ why, ¬ Reported why o) (info : ImageInfo) :
    verdict o = .ok info ↔ o.2.isKnown = true ∧
      info = ⟨o.2.errorFormat, (best o.2.extents).1, (best o.2.extents).2⟩ := by
  constructor
  · exact known_of_verdict
  · rintro ⟨hknown, rfl⟩
    exact verdict_of_known hknown hlate

theorem isKnown_iff (f : Findings) :
    f.isKnown = true ↔ f.format.isSome = true ∧ 0 < (best f.extents).1 ∧ 0 < (best f.extents).2 := by
  simp only [Findings.isKnown, Bool.and_eq_true, decide_eq_true_eq, and_assoc]
  rfl

theorem records_head? {es : List (Nat × Nat)} (h : 0 < (best es).1) :
    (records es).head? = some (best es) := by
  rw [best_eq_head] at h ⊢
  cases hr : records es with
  | nil => exact absurd (show 0 < 0 by rwa [hr] at h) (Nat.lt_irrefl 0)
  | cons r rs => rfl

/-- The extent reported is the last one found that exceeds the best one before it. None of the
extents found dominates it exactly if none does that was the best one earlier, the one right before
it apart. -/
theorem reported_undominated_iff {brands : BrandRule} {stop : Stop} {s : Session ρ}
    {info : ImageInfo} (h : ((decoder brands).decode stop s).1 = .ok info) :
    ∃ ending f, ((walk brands).run stop s).1 = (ending, f) ∧
      (records f.extents).head? = some (info.width, info.height) ∧
      ((∀ e ∈ f.extents, ¬ Dominates e (info.width, info.height)) ↔
        ∀ r ∈ (records f.extents).drop 2, ¬ Dominates r (info.width, info.height)) := by
  rw [decode_eq] at h
  obtain ⟨hk, rfl⟩ := known_of_verdict h
  refine ⟨_, _, rfl, ?_, undominated_iff _⟩
  exact records_head? ((isKnown_iff _).1 hk).2.1

def sizeBox (width height : UInt8) : Bytes :=
  [0, 0, 0, 20] ++ ascii "ispe" ++ [0, 0, 0, 0, 0, 0, 0, width, 0, 0, 0, height]

def threeSizes : Tape where
  bytes := [0, 0, 0, 16] ++ ascii "ftypheic" ++ [0, 0, 0, 0, 0, 0, 0, 72] ++ ascii "meta" ++
    [0, 0, 0, 0] ++ sizeBox 10 10 ++ sizeBox 1 11 ++ sizeBox 2 5

theorem reported_undominated_threeSizes :
    ((decoder heifBrands).decode .never ⟨threeSizes, 0, []⟩).1 = .ok ⟨.heic, 2, 5⟩ ∧
      ∃ ending f, ((walk heifBrands).run .never (⟨threeSizes, 0, []⟩ : Session Tape)).1 =
          (ending, f) ∧
        (records f.extents).head? = some (2, 5) ∧
        ((∀ e ∈ f.extents, ¬ Dominates e (2, 5)) ↔
          ∀ r ∈ (records f.extents).drop 2, ¬ Dominates r (2, 5)) := by
  have h : ((decoder heifBrands).decode .never (⟨threeSizes, 0, []⟩ : Session Tape)).1 =
      .ok ⟨.heic, 2, 5⟩ := by decide +kernel
  exact ⟨h, reported_undominated_iff h⟩

theorem reported_dominated_threeSizes :
    ((decoder heifBrands).decode .never ⟨threeSizes, 0, []⟩).1 = .ok ⟨.heic, 2, 5⟩ ∧
      ((walk heifBrands).run .never (⟨threeSizes, 0, []⟩ : Session Tape)).1 =
        (.ok (), ⟨some .heic, [(2, 5), (1, 11), (10, 10)]⟩) ∧
      (10, 10) ∈ [(2, 5), (1, 11), (10, 10)] ∧ Dominates (10, 10) (2, 5) := by
  refine ⟨?_, ?_, ?_, ?_⟩ <;> decide +kernel

end Heif

end ImageProbe
