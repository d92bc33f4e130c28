import ImageProbe.Proofs.Heif.Clues

namespace ImageProbe

open Box ByteReader

namespace Heif

def Look.Tells (brands : BrandRule) (l : Look) (format : ImageFormat) : Prop :=
  ∃ brand ∈ l.brands, brands.format? brand = some format

def ToldBy (brands : BrandRule) (ls : List Look) (f f' : Findings) : Prop :=
  f'.format = f.format ∨ ∃ l ∈ ls, ∃ format, l.Tells brands format ∧ f'.format = some format

variable {brands : BrandRule} {ls ls' : List Look} {f f' f'' : Findings}

theorem ToldBy.mono (h : ToldBy brands ls f f') (hls : ls ⊆ ls') : ToldBy brands ls' f f' := by
  apply h.imp_right
  rintro ⟨l, hl, htells⟩
  exact ⟨l, hls hl, htells⟩

theorem ToldBy.trans (h : ToldBy brands ls f f') (h' : ToldBy brands ls' f' f'') :
    ToldBy brands (ls ++ ls') f f'' := by
  rcases h' with h' | ⟨l, hl, htells⟩
  · rw [ToldBy, h']
    exact h.mono (List.subset_append_left ls ls')
  · exact .inr ⟨l, List.mem_append_right ls hl, htells⟩

theorem told_clues (l : Look) (f : Findings) : ToldBy brands [l] f (f.learn (l.clues brands)) := by
  rw [Look.clues]
  split
  · cases hfind : l.brands.findSome? brands.format? with
    | none => exact .inl rfl
    | some format =>
      obtain ⟨brand, hmem, hbrand⟩ := List.exists_of_findSome?_eq_some hfind
      exact .inr ⟨l, List.mem_singleton_self l, format, ⟨brand, hmem, hbrand⟩, rfl⟩
  split
  · exact .inl rfl
  split
  · exact .inl (f.mark_format (.turn ((l.payload.headD 0).toNat % 4)))
  · exact .inl rfl

theorem told_learn (ls : List Look) (f : Findings) :
    ToldBy brands ls f (f.learn (cluesOf brands ls)) := by
  induction ls generalizing f with
  | nil => exact .inl rfl
  | cons l ls ih =>
    rw [cluesOf_cons, Findings.learn_append]
    exact (told_clues l f).trans (ih _)

variable {ρ : Type} [ByteReader ρ]

theorem run_told {stop : Stop} {s : Session ρ}
    (huntold : ∀ why, ¬ Reported why ((walk brands).run stop s).1) :
    ToldBy brands (looks brands (tape s.reader)) (.ofBrands brands)
      ((walk brands).run stop s).1.2 := by
  rcases (walk_heeds brands).run_result stop (s := s) rfl with ⟨-, why, -, htold⟩ | hsame
  · exact absurd htold (huntold why)
  · rw [hsame, run_learns]
    exact told_learn _ _

theorem accepted_of_decode (brands : BrandRule) (stop : Stop) (s : Session ρ) {info : ImageInfo}
    (halways : brands.always = none) (h : ((decoder brands).decode stop s).1 = .ok info) :
    ∃ l ∈ looks brands (tape s.reader), l.Tells brands info.format := by
  rw [decode_eq] at h
  obtain ⟨hknown, rfl⟩ := known_of_verdict h
  obtain ⟨hformat, -⟩ := (isKnown_iff _).1 hknown
  rcases run_told (untold_of_verdict h) with hsame | ⟨l, hl, format, htells, htold⟩
  · rw [hsame, Findings.ofBrands, halways] at hformat
    exact nomatch hformat
  · refine ⟨l, hl, ?_⟩
    rw [Findings.errorFormat, htold]
    exact htells

/-- An image is reported by the brand of a file type that the walk has read, if no format is told
whichever brand it is. If one is, then exactly unless a walk that has read no such brand and has not
been told to stop ends with extents whose best one is positive. -/
theorem accepted_iff (brands : BrandRule) (stop : Stop) (s : Session ρ) :
    (brands.always = none → ∀ info, ((decoder brands).decode stop s).1 = .ok info →
      ∃ l ∈ looks brands (tape s.reader), l.Tells brands info.format) ∧
    (((∃ info, ((decoder brands).decode stop s).1 = .ok info) →
        ∃ l ∈ looks brands (tape s.reader), ∃ format, l.Tells brands format) ↔
      brands.always = none ∨
        (∃ l ∈ looks brands (tape s.reader), ∃ format, l.Tells brands format) ∨
        ∀ ending f, ((walk brands).run stop s).1 = (ending, f) →
          (∀ why, ending ≠ .error (.stopped why)) → ¬ Positive (best f.extents)) := by
  refine ⟨fun halways info h => accepted_of_decode brands stop s halways h, ?_, ?_⟩
  · intro hgate
    cases halways : brands.always with
    | none => exact .inl rfl
    | some format =>
      -- A positive extent would be reported with this format, so a brand has been read.
      right
      by_cases haccepted : ∃ l ∈ looks brands (tape s.reader), ∃ format, l.Tells brands format
      · exact .inl haccepted
      · right
        intro ending f hrun huntold hpos
        have htold : ToldBy brands (looks brands (tape s.reader)) (.ofBrands brands)
            ((walk brands).run stop s).1.2 := run_told (by rwa [hrun])
        rw [hrun] at htold
        have hformat : f.format = some format := by
          rcases htold with hsame | ⟨l, hl, format, htells, -⟩
          · exact hsame.trans halways
          · exact absurd ⟨l, hl, format, htells⟩ haccepted
        have hknown : f.isKnown = true := by
          apply f.isKnown_iff_positive.2
          exact ⟨by rw [hformat]; rfl, hpos⟩
        have hverdict := verdict_of_known (o := (ending, f)) hknown huntold
        rw [← hrun, ← decode_eq] at hverdict
        exact haccepted (hgate ⟨_, hverdict⟩)
  · rintro (halways | haccepted | hnone) ⟨info, h⟩
    · obtain ⟨l, hl, htells⟩ := accepted_of_decode brands stop s halways h
      exact ⟨l, hl, info.format, htells⟩
    · exact haccepted
    · rw [decode_eq] at h
      obtain ⟨hknown, -⟩ := known_of_verdict h
      exact absurd ((Findings.isKnown_iff_positive _).1 hknown).2
        (hnone _ _ rfl (untold_of_verdict h))

def unbranded : Tape where
  bytes := [0, 0, 0, 32] ++ ascii "meta" ++ [0, 0, 0, 0] ++ sizeBox 10 10

def refusedBrand : Tape where
  bytes := sizeBox 10 10 ++ [0, 0, 0, 16] ++ ascii "ftypavif" ++ [0, 0, 0, 0]

theorem accepted_threeSizes :
    heifBrands.always = none ∧
      ((decoder heifBrands).decode .never ⟨threeSizes, 0, []⟩).1 = .ok ⟨.heic, 2, 5⟩ ∧
      ∃ l ∈ looks heifBrands threeSizes, l.Tells heifBrands .heic := by
  have h : ((decoder heifBrands).decode .never (⟨threeSizes, 0, []⟩ : Session Tape)).1 =
      .ok ⟨.heic, 2, 5⟩ := by decide +kernel
  exact ⟨rfl, h, (accepted_iff heifBrands .never (⟨threeSizes, 0, []⟩ : Session Tape)).1 rfl _ h⟩

theorem unbranded_reported :
    ((decoder heicBrands).decode .never ⟨unbranded, 0, []⟩).1 = .ok ⟨.heic, 10, 10⟩ ∧
      (looks heicBrands unbranded).flatMap Look.brands = [] ∧
      ((decoder heicBrands).decode .never ⟨refusedBrand, 0, []⟩).1 = .ok ⟨.heic, 10, 10⟩ ∧
      (looks heicBrands refusedBrand).flatMap Look.brands = [ascii "avif"] ∧
      heicBrands.format? (ascii "avif") = none := by
  refine ⟨?_, ?_, ?_, ?_, ?_⟩ <;> decide +kernel

end Heif

end ImageProbe
