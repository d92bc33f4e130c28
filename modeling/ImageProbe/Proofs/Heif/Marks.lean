import ImageProbe.Proofs.Heif.Verdict

namespace ImageProbe

namespace Heif

/-- What a box adds to the extents found: one more, or some quarters of a turn of the latest. -/
inductive Mark
  | size (width height : Nat)
  | turn (quarters : Nat)
  deriving DecidableEq

def Mark.collect (extents : List (Nat × Nat)) : Mark → List (Nat × Nat)
  | size width height => extents ++ [(width, height)]
  | turn quarters =>
    match extents.getLast? with
    | some (width, height) =>
      if quarters % 2 = 1 then extents.dropLast ++ [(height, width)] else extents
    | none => []

/-- The extent that a scan in the order of the file ends with: one that is wider or higher than
the best so far replaces it. -/
def scan (extents : List (Nat × Nat)) : Nat × Nat :=
  extents.foldl (fun b e => if b.1 < e.1 ∨ b.2 < e.2 then e else b) (0, 0)

theorem scan_reverse (extents : List (Nat × Nat)) : scan extents.reverse = best extents :=
  List.foldl_reverse

namespace Findings

def mark (f : Findings) : Mark → Findings
  | .size width height => f.addExtent width height
  | .turn quarters => f.rotate quarters

def after (f : Findings) (marks : List Mark) : Findings := marks.foldl mark f

theorem after_append (f : Findings) (ms ns : List Mark) : f.after (ms ++ ns) = (f.after ms).after ns :=
  List.foldl_append

@[simp] theorem mark_format (f : Findings) (m : Mark) : (f.mark m).format = f.format := by
  cases m with
  | size width height => rfl
  | turn quarters =>
    rw [mark, rotate]
    split <;> rfl

@[simp] theorem after_format (f : Findings) (marks : List Mark) : (f.after marks).format = f.format := by
  induction marks generalizing f with
  | nil => rfl
  | cons m ms ih => exact (ih (f.mark m)).trans (mark_format f m)

theorem mark_extents (f : Findings) (m : Mark) :
    (f.mark m).extents.reverse = m.collect f.extents.reverse := by
  cases m with
  | size width height => exact List.reverse_cons
  | turn quarters =>
    obtain ⟨format, extents⟩ := f
    cases extents with
    | nil =>
      rw [mark, rotate]
      split <;> rfl
    | cons e es =>
      simp only [mark, rotate, Mark.collect, List.reverse_cons, List.getLast?_concat,
        List.dropLast_concat]
      split
      · exact List.reverse_cons
      · exact List.reverse_cons

theorem after_extents (f : Findings) (marks : List Mark) :
    (f.after marks).extents.reverse = marks.foldl Mark.collect f.extents.reverse := by
  induction marks generalizing f with
  | nil => rfl
  | cons m ms ih => rw [List.foldl_cons, ← mark_extents, ← ih]; rfl

end Findings

def Positive (e : Nat × Nat) : Prop := 0 < e.1 ∧ 0 < e.2

instance (e : Nat × Nat) : Decidable (Positive e) := inferInstanceAs (Decidable (_ ∧ _))

/-- The latest extent is the best one for one of its sides, and the other side is zero. -/
def Spoilt : List (Nat × Nat) → Prop
  | [] => False
  | e :: es => ¬ Positive e ∧ Exceeds e (best es)

theorem Exceeds.of_not {e b : Nat × Nat} (h : ¬ Exceeds e b) (he : Positive e) : Positive b := by
  obtain ⟨h1, h2⟩ := not_or.1 h
  obtain ⟨hw, hh⟩ := he
  exact ⟨by omega, by omega⟩

theorem positive_cons {e : Nat × Nat} {es : List (Nat × Nat)} (h : Positive e ∨ Positive (best es)) :
    Positive (best (e :: es)) ↔ ¬ Spoilt (e :: es) := by
  rw [best_cons, Spoilt]
  by_cases he : Exceeds e (best es)
  · rw [if_pos he]
    constructor
    · intro hpos hspoilt
      exact hspoilt.1 hpos
    · intro hspoilt
      apply Decidable.byContradiction
      intro hpos
      exact hspoilt ⟨hpos, he⟩
  · rw [if_neg he]
    constructor
    · intro _ hspoilt
      exact he hspoilt.2
    · intro _
      exact h.elim (Exceeds.of_not he) id

theorem positive_or {e : Nat × Nat} {es : List (Nat × Nat)} (h : Positive (best (e :: es))) :
    Positive e ∨ Positive (best es) := by
  rw [best_cons] at h
  split at h
  · exact .inl h
  · exact .inr h

namespace Findings

theorem isKnown_iff_positive (f : Findings) :
    f.isKnown = true ↔ f.format.isSome = true ∧ Positive (best f.extents) := isKnown_iff f

theorem isKnown_mark {f : Findings} (hf : f.isKnown = true) (m : Mark) :
    (f.mark m).isKnown = true ↔ ¬ Spoilt (f.mark m).extents := by
  obtain ⟨hformat, hbest⟩ := f.isKnown_iff_positive.1 hf
  rw [isKnown_iff_positive, mark_format, and_iff_right hformat]
  obtain ⟨format, extents⟩ := f
  cases m with
  | size width height => exact positive_cons (.inr hbest)
  | turn quarters =>
    cases extents with
    | nil => exact absurd hbest.1 (Nat.lt_irrefl 0)
    | cons e es =>
      -- A turn changes the latest extent alone, whose sides stay positive if they were.
      rw [mark, rotate]
      split
      · exact positive_cons ((positive_or hbest).imp_left And.symm)
      · exact positive_cons (positive_or hbest)

theorem not_spoilt {f : Findings} (hf : f.isKnown = true) : ¬ Spoilt f.extents := by
  obtain ⟨-, hbest⟩ := f.isKnown_iff_positive.1 hf
  obtain ⟨format, extents⟩ := f
  cases extents with
  | nil => exact id
  | cons e es => exact (positive_cons (positive_or hbest)).1 hbest

theorem isKnown_after {f : Findings} (hf : f.isKnown = true) (marks : List Mark) :
    (∀ ms, ms <+: marks → (f.after ms).isKnown = true) ↔
      ∀ ms, ms <+: marks → ¬ Spoilt (f.after ms).extents := by
  constructor
  · intro h ms hms
    exact not_spoilt (h ms hms)
  · induction marks generalizing f with
    | nil =>
      intro h ms hms
      rw [List.prefix_nil.1 hms]
      exact hf
    | cons m marks ih =>
      intro h ms hms
      have hm : (f.mark m).isKnown = true := by
        apply (isKnown_mark hf m).2
        exact h [m] ((List.prefix_cons_inj m).2 List.nil_prefix)
      cases ms with
      | nil => exact hf
      | cons n ns =>
        obtain ⟨rfl, hns⟩ := List.cons_prefix_cons.1 hms
        apply ih hm _ ns hns
        intro ks hks
        exact h (n :: ks) ((List.prefix_cons_inj n).2 hks)

end Findings

end Heif

end ImageProbe
