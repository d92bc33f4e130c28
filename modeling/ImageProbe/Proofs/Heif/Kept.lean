import ImageProbe.Proofs.Ensures
import ImageProbe.Proofs.Heif.Document
import ImageProbe.Proofs.Heif.LookInto

namespace ImageProbe

open Box ByteReader

namespace Heif

structure Kept (I : Findings → Prop) : Prop where
  format (f : Findings) (format : ImageFormat) : I f → I { f with format := some format }
  extent (f : Findings) (width height : Nat) : I f → I (f.addExtent width height)
  rotate (f : Findings) (quarters : Nat) : I f → I (f.rotate quarters)

open Reading

variable {I : Findings → Prop} {brands : BrandRule} {children : Children} {f : Findings}

theorem fileType_yields (hI : Kept I) (header : Header) (hf : I f) :
    Yields I (fileType brands header f) := by
  apply Yields.bind
  intro _
  apply Yields.bind
  intro major
  cases brands.format? major with
  | some format => exact .pure (hI.format f format hf)
  | none =>
    apply Yields.bind
    intro _
    apply Yields.bind
    rintro (_ | format)
    · exact Yields.bind _ fun _ => .refuse I _ _
    · exact .pure (hI.format f format hf)

theorem extent_yields (header : Header) (hf : ∀ width height, I (f.addExtent width height)) :
    Yields I (extent header f) := by
  apply Yields.bind
  intro _
  apply Yields.bind
  intro _
  apply Yields.bind
  intro width
  apply Yields.bind
  intro height
  exact Yields.bind _ fun _ => .pure (hf width height)

theorem rotation_yields (header : Header) (hf : ∀ quarters, I (f.rotate quarters)) :
    Yields I (rotation header f) := by
  apply Yields.bind
  intro _
  apply Yields.bind
  intro quarters
  exact Yields.bind _ fun _ => .pure (hf _)

theorem reading_ensures {p : Reading Findings} (hp : Yields I p) (hf : I f) :
    (reading f p).Ensures (Step.All I fun o => I o.2) := by
  apply Script.Ensures.bind hp
  rintro (e | f') h
  · exact hf
  · exact h f' rfl

def Children.Keeps (I : Findings → Prop) (children : Children) : Prop :=
  ∀ room f, I f → (children room f).Ensures fun o => I o.2

theorem enclosed_keeps (hc : children.Keeps I) (depth : Nat) :
    Children.Keeps I (enclosed depth children) := by
  intro room f hf
  apply Script.Ensures.bind (hc room f hf)
  rintro ⟨e | u, f'⟩ hf'
  · cases e <;> exact hf'
  · exact hf'

theorem metadata_ensures (hc : children.Keeps I) (header : Header) (hf : I f) :
    (metadata children header f).Ensures fun o => I o.2 := by
  apply Script.Ensures.bind_forall
  rintro (e | u)
  · exact hf
  · have hinside : (if header.payload = 4 then pure (.ok (), f)
        else children (header.payload - 4) f : Script Outcome).Ensures fun o => I o.2 := by
      split
      · exact hf
      · exact hc _ f hf
    apply Script.Ensures.bind hinside
    rintro ⟨e | u, f'⟩ hf'
    · exact hf'
    · exact hf'

theorem lookInto_ensures (hI : Kept I) (hc : children.Keeps I) (header : Header) (hf : I f) :
    (lookInto brands children header f).Ensures (Step.All I fun o => I o.2) := by
  rw [lookInto_eq]
  refine ⟨fun _ => hf, ?_⟩
  unfold content
  split
  · exact reading_ensures (fileType_yields hI header hf) hf
  split
  · exact Script.Ensures.map (metadata_ensures hc header hf)
  split
  · apply Script.Ensures.bind_forall
    rintro (e | u)
    · exact hf
    · exact hf
  split
  · apply Script.Ensures.bind (hc header.payload f hf)
    rintro ⟨e | u, f'⟩ hf'
    · exact hf'
    · exact hf'
  split
  · exact reading_ensures (extent_yields header fun w h => hI.extent f w h hf) hf
  split
  · exact reading_ensures (rotation_yields header fun quarters => hI.rotate f quarters hf) hf
  split
  · exact hf
  · exact hf

theorem box_ensures (hI : Kept I) (hc : children.Keeps I) (format : ImageFormat) (head : Bytes)
    (hf : I f) : (box brands children format head f).Ensures (Step.All I fun o => I o.2) := by
  apply Script.Ensures.bind_forall
  rintro (e | header)
  · exact hf
  apply Script.Ensures.bind (Script.Ensures.within (lookInto_ensures hI hc header hf) _)
  rintro ⟨f' | o, left⟩ hf'
  · apply Script.Ensures.bind_forall
    rintro (e | u)
    · exact hf'
    · exact hf'
  · exact Script.ensures_note _ _ hf'

theorem boxes_ensures (hI : Kept I) (hc : children.Keeps I) (format : ImageFormat) (most : Nat)
    (hf : I f) : (boxes brands children format most f).Ensures fun o => I o.2 := by
  induction most generalizing f with
  | zero => exact fun _ => hf
  | succ most ih =>
    intro haul
    dsimp only
    split
    · exact hf
    · apply Script.Ensures.bind (box_ensures hI hc format _ hf)
      rintro (f' | o) hf'
      · exact ih hf'
      · exact hf'

theorem level_keeps (hI : Kept I) (spare : Nat) : Children.Keeps I (level brands spare) := by
  induction spare with
  | zero => exact fun _ _ hf => hf
  | succ spare ih =>
    intro room f hf
    exact boxes_ensures hI (enclosed_keeps ih _) f.errorFormat _ hf

theorem walk_carries (hI : Kept I) (brands : BrandRule) :
    (walk brands).Carries I fun o => I o.2 where
  round _ head hf := box_ensures hI (enclosed_keeps (level_keeps hI maxDepth) 0) _ head hf
  close _ _ hf := hf

def Findings.Found (f : Findings) : Prop := f.format.isSome = true ∧ ∃ e ∈ f.extents, Positive e

theorem found_kept : Kept Findings.Found where
  format _ _ := fun ⟨_, he⟩ => ⟨rfl, he⟩
  extent _ _ _ := fun ⟨hformat, e, he, hpos⟩ => ⟨hformat, e, List.mem_cons_of_mem _ he, hpos⟩
  rotate := by
    rintro ⟨format, extents⟩ quarters ⟨hformat, e, he, hpos⟩
    rw [Findings.rotate]
    split
    · refine ⟨hformat, ?_⟩
      cases he with
      | head es => exact ⟨(e.2, e.1), List.mem_cons_self, hpos.symm⟩
      | tail x he => exact ⟨e, List.mem_cons_of_mem _ he, hpos⟩
    · exact ⟨hformat, e, he, hpos⟩

theorem best_mem {es : List (Nat × Nat)} (h : Positive (best es)) : best es ∈ es :=
  mem_of_mem_records (List.mem_of_mem_head? (records_head? h.1))

theorem Findings.Found.of_isKnown {f : Findings} (hf : f.isKnown = true) : f.Found := by
  obtain ⟨hformat, hbest⟩ := f.isKnown_iff_positive.1 hf
  exact ⟨hformat, best f.extents, best_mem hbest, hbest⟩

theorem Findings.Found.isKnown_iff_record {f : Findings} (hf : f.Found) :
    f.isKnown = true ↔ ∀ r, (records f.extents).head? = some r → Positive r := by
  obtain ⟨hformat, e, he, hpos⟩ := hf
  rw [isKnown_iff_positive, and_iff_right hformat]
  constructor
  · intro h r hr
    rw [records_head? h.1] at hr
    cases hr
    exact h
  · intro h
    obtain ⟨r, hr, hw, hh⟩ := within_record he
    have hrpos : Positive r := ⟨Nat.lt_of_lt_of_le hpos.1 hw, Nat.lt_of_lt_of_le hpos.2 hh⟩
    rcases hr with rfl | hr
    · exact absurd hrpos.1 (Nat.lt_irrefl 0)
    · rw [best_eq_head]
      cases hrec : records f.extents with
      | nil => exact absurd (hrec ▸ hr) List.not_mem_nil
      | cons x xs => exact h x (by rw [hrec]; rfl)

theorem isOk_verdict {o : Outcome} (hlate : ∀ why, ¬ Reported why o) :
    (∃ info, verdict o = .ok info) ↔ o.2.isKnown = true := by
  constructor
  · rintro ⟨info, h⟩
    exact (known_of_verdict h).1
  · intro h
    exact ⟨_, verdict_of_known h hlate⟩

variable {ρ : Type} [ByteReader ρ]

/-- What is known stays known through the marks that follow exactly if none of them leaves the
extents spoilt. A walk that goes on from there keeps something found, and if it has not been told to
stop, tells it unless its last record has a side that is zero; and a document whose marks go on from
there is decoded exactly if all of them leave it known. -/
theorem known_kept_iff {f : Findings} (hf : f.isKnown = true) :
    (∀ marks, (∀ ms, ms <+: marks → (f.after ms).isKnown = true) ↔
      ∀ ms, ms <+: marks → ¬ Spoilt (f.after ms).extents) ∧
    (∀ brands stop (s : Session ρ) ending f' s',
      (walk brands).runFrom stop f s = ((ending, f'), s') → f'.Found ∧
        ((∀ why, ending ≠ .error (.stopped why)) →
          ((∃ info, verdict (ending, f') = .ok info) ↔
            ∀ r, (records f'.extents).head? = some r → Positive r))) ∧
    ∀ brands (d : Document) format ms ns, d.Sound → d.format? brands = some format →
      d.forest.marks = ms ++ ns → f = Findings.after ⟨some format, []⟩ ms →
      ∀ (s : Session ρ) further, (tape s.reader).bytes = d.bytes ++ further →
        ((∃ info, ((decoder brands).decode .never s).1 = .ok info) ↔ (f.after ns).isKnown = true) := by
  refine ⟨Findings.isKnown_after hf, ?_, ?_⟩
  · intro brands stop s ending f' s' hrun
    have hfound := (walk_carries found_kept brands).runFrom stop f s (.of_isKnown hf)
    rw [hrun] at hfound
    exact ⟨hfound, fun hlate => (isOk_verdict (o := (ending, f')) hlate).trans hfound.isKnown_iff_record⟩
  · intro brands d format ms ns hd hformat hmarks hms s further hs
    have hafter : Findings.after ⟨some format, []⟩ d.forest.marks = f.after ns := by
      rw [hmarks, Findings.after_append, ← hms]
    have hlate (why : StopReason) : ¬ Reported why (d.outcome format) := by
      unfold Document.outcome
      dsimp only
      split <;> exact nofun
    rw [decode_outcome hd hformat s further hs, isOk_verdict hlate, Document.outcome, hafter]

theorem known_kept_picture :
    let f : Findings := ⟨some .avif, [(3, 258)]⟩
    let s : Session Tape := ⟨⟨picture.bytes, none⟩, 0, []⟩
    f.isKnown = true ∧ (∃ info, ((decoder heifBrands).decode .never s).1 = .ok info) ∧
      ¬ ∀ ms, ms <+: [.size 0 300] → ¬ Spoilt (f.after ms).extents := by
  intro f s
  have hf : f.isKnown = true := by decide
  have h := @known_kept_iff Tape _ f hf
  refine ⟨hf, ?_, fun hms => ?_⟩
  · have hmarks : picture.forest.marks = [.size 258 3, .turn 1] ++ [.size 2 2] := by decide +kernel
    refine (h.2.2 heifBrands picture .avif _ _ picture_sound ?_ hmarks rfl s [] ?_).2 ?_
    · decide +kernel
    · exact (List.append_nil _).symm
    · decide
  · exact absurd ((h.1 [.size 0 300]).2 hms [.size 0 300] (List.prefix_refl _)) (by decide)

def bareSizes (sizes : Bytes) : Tape where
  bytes := [0, 0, 0, 16] ++ ascii "ftypheic" ++ [0, 0, 0, 0] ++ sizes

theorem known_lost :
    let f : Findings := ⟨some .heic, [(10, 10)]⟩
    f.isKnown = true ∧ (f.after [.size 0 11]).isKnown = false ∧
      ((decoder heifBrands).decode .never ⟨bareSizes (sizeBox 10 10), 0, []⟩).1 =
        .ok ⟨.heic, 10, 10⟩ ∧
      ((decoder heifBrands).decode .never ⟨bareSizes (sizeBox 10 10 ++ sizeBox 0 11), 0, []⟩).1 =
        .error (.malformed .heic .dimensionsNotFound) := by
  refine ⟨?_, ?_, ?_, ?_⟩ <;> decide +kernel

end Heif

end ImageProbe
