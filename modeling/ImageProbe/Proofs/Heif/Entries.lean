import ImageProbe.Proofs.Heif.Abreast
import ImageProbe.Proofs.Heif.Brand

namespace ImageProbe

open Box ByteReader

namespace Heif

open Reading

variable {brands brands' : BrandRule} {children : Children} {f : Findings} {h : Header} {t : Tape}
  {l : Look} {ls : List Look}

theorem brands_of_mem {brand : Bytes} (hname : l.header.name = ascii "ftyp")
    (hroom : 8 ≤ l.header.payload) (hfour : brand.length = 4) (hmem : brand ∈ brandsOf l.payload) :
    l.brands = brandsOf l.payload := by
  rw [Look.brands, if_pos ⟨hname, hroom⟩]
  apply brands_whole
  by_contra hshort
  have hnone := brands_short hshort
  rw [List.filter_eq_nil_iff] at hnone
  exact hnone brand hmem (decide_eq_true hfour)

theorem visit_accepted {refused : Findings → ProbeError → Outcome} {format : ImageFormat}
    (hname : h.name = ascii "ftyp")
    (hfind : (Look.brands ⟨h, (t.clip h.payload).bytes⟩).findSome? brands.format? = some format) :
    (h.visit refused (lookInto brands children h f)).eval t =
      (if t.bytes.length < h.payload ∧ (t.ending.isSome ∨ ¬ h.isOpen) then
          .done (refused { f with format := some format } (shortageAt t.ending))
        else .more { f with format := some format }, t.drop h.payload) := by
  apply Header.visit_more
  obtain ⟨t', hgives⟩ := fileType_gives_of_find (f := f) (List.length_take_le _ _) hfind
  rw [lookInto_fileType hname]
  exact eval_reading hgives

theorem accepted_inPlace {children' : Children} {f' : Findings} {format format' : ImageFormat}
    (hextents : f.extents = f'.extents) (hname : h.name = ascii "ftyp")
    (hfind : (Look.brands ⟨h, (t.clip h.payload).bytes⟩).findSome? brands.format? = some format)
    (hfind' : (Look.brands ⟨h, (t.clip h.payload).bytes⟩).findSome? brands'.format? = some format') :
    InPlace ((h.visit (fun f e => (.error e, f)) (lookInto brands children h f)).eval t)
      ((h.visit (fun f e => (.error e, f)) (lookInto brands' children' h f')).eval t) := by
  have hlike : Findings.Like { f with format := some format } { f' with format := some format' } :=
    ⟨rfl, hextents⟩
  rw [visit_accepted hname hfind, visit_accepted hname hfind']
  split
  · exact .done ⟨.error rfl, hlike⟩ _ _
  · exact .more hlike _

theorem visit_refused (hname : h.name = ascii "ftyp")
    (hfind : (Look.brands ⟨h, (t.clip h.payload).bytes⟩).findSome? brands.format? = none) :
    ∃ o, ((h.visit (fun f e => (.error e, f)) (lookInto brands children h f)).eval t).1 =
      .done o := by
  have hdone : ∃ o, ((lookInto brands children h f).eval (t.clip h.payload)).1 = .done o := by
    rw [lookInto_fileType hname, Script.eval, reading, Script.eval_bind]
    rcases hr : (fileType brands h f).run.eval (t.clip h.payload) with ⟨e | f', t'⟩
    · exact ⟨_, rfl⟩
    · obtain ⟨format, hsome, -⟩ := gives_of_fileType hname (List.length_take_le _ _) hr
      rw [hfind] at hsome
      cases hsome
  obtain ⟨o, ho⟩ := hdone
  exact ⟨o, Header.visit_done ho⟩

theorem fileType_leaf (hname : h.name = ascii "ftyp") : h.name ∉ holders := by
  rw [hname]
  decide

theorem boxesLooks_first {journal : Journal} {format : ImageFormat} {most : Nat}
    (hlooks : boxesLooks brands children journal format most f t = l :: ls)
    (hname : l.header.name = ascii "ftyp") :
    ∃ k h inside, most = k + 1 ∧ l = ⟨h, (inside.clip h.payload).bytes⟩ ∧
      ¬ (t.haul headLength).bytes.length < headLength ∧
      (Box.header format (t.haul headLength).bytes).Gives (t.drop headLength) h inside ∧
      ls = looksBehind brands children journal format k
        ((h.visit (fun f e => (.error e, f)) (lookInto brands children h f)).eval inside) := by
  cases most with
  | zero => cases hlooks
  | succ k =>
    by_cases hshort : (t.haul headLength).bytes.length < headLength
    · rw [boxesLooks] at hlooks
      simp only [if_pos hshort] at hlooks
      cases hlooks
    rcases hh : (Box.header format (t.haul headLength).bytes).run.eval (t.drop headLength) with
      ⟨e | h, inside⟩
    · rw [boxesLooks] at hlooks
      simp only [if_neg hshort, hh] at hlooks
      cases hlooks
    · rw [boxesLooks_long k f hshort hh] at hlooks
      obtain rfl : ⟨h, (inside.clip h.payload).bytes⟩ = l := (List.cons.inj hlooks).1
      rw [looksInto_leaf (fileType_leaf hname)] at hlooks
      exact ⟨k, h, inside, rfl, rfl, hshort, hh, (List.cons.inj hlooks).2.symm⟩

theorem looks_twins (hlooks : looks brands t = l :: ls) (hname : l.header.name = ascii "ftyp")
    (hboth : (l.brands.findSome? brands.format?).isSome = (l.brands.findSome? brands'.format?).isSome)
    (hls : NoFileType ls) : looks brands' t = l :: ls := by
  obtain ⟨k, h, inside, hmost, rfl, hshort, hh, rfl⟩ := boxesLooks_first hlooks hname
  have hh' := (header_abreast _ (Findings.ofBrands brands').errorFormat _).gives hh
  have htwins := enclosed_twins (level_twins brands brands' maxDepth) 0
  rw [looks, levelLooks, hmost, boxesLooks_long k _ hshort hh', looksInto_leaf (fileType_leaf hname)]
  apply congrArg (_ :: ·)
  cases hfind : (Look.brands ⟨h, (inside.clip h.payload).bytes⟩).findSome? brands.format? with
  | none =>
    cases hfind' : (Look.brands ⟨h, (inside.clip h.payload).bytes⟩).findSome? brands'.format? with
    | some format => simp [hfind, hfind'] at hboth
    | none =>
      obtain ⟨o, ho⟩ := visit_refused hname hfind
      obtain ⟨o', ho'⟩ := visit_refused hname hfind'
      rw [looksBehind_done k ho]
      exact looksBehind_done k ho'
  | some format =>
    cases hfind' : (Look.brands ⟨h, (inside.clip h.payload).bytes⟩).findSome? brands'.format? with
    | none => simp [hfind, hfind'] at hboth
    | some format' =>
      exact looksBehind_twins htwins _ _ k (accepted_inPlace rfl hname hfind hfind') hls

theorem looks_either (hlooks : looks brands t = l :: ls ∨ looks brands' t = l :: ls)
    (hname : l.header.name = ascii "ftyp")
    (hboth : (l.brands.findSome? brands.format?).isSome = (l.brands.findSome? brands'.format?).isSome)
    (hls : NoFileType ls) : looks brands t = l :: ls ∧ looks brands' t = l :: ls := by
  rcases hlooks with hlooks | hlooks
  · exact ⟨hlooks, looks_twins hlooks hname hboth hls⟩
  · exact ⟨looks_twins hlooks hname hboth.symm hls, hlooks⟩

theorem looks_refused (hlooks : looks brands t = l :: ls) (hname : l.header.name = ascii "ftyp")
    (hfind : l.brands.findSome? brands.format? = none) : ls = [] := by
  obtain ⟨k, h, inside, -, rfl, -, -, rfl⟩ := boxesLooks_first hlooks hname
  obtain ⟨o, ho⟩ := visit_refused hname hfind
  exact looksBehind_done k ho

theorem clues_unbranded (hls : NoFileType ls) :
    ∃ ms : List Mark, ∀ brands, cluesOf brands ls = ms.map .mark := by
  induction ls with
  | nil => exact ⟨[], fun _ => rfl⟩
  | cons l ls ih =>
    obtain ⟨hname, hrest⟩ := noFileType_cons.1 hls
    obtain ⟨ms, hms⟩ := ih hrest
    have hfirst : ∃ ms : List Mark, ∀ brands, l.clues brands = ms.map .mark := by
      simp only [Look.clues, if_neg hname]
      split
      · exact ⟨[.size _ _], fun _ => rfl⟩
      split
      · exact ⟨[.turn _], fun _ => rfl⟩
      · exact ⟨[], fun _ => rfl⟩
    obtain ⟨ns, hns⟩ := hfirst
    refine ⟨ns ++ ms, fun brands => ?_⟩
    rw [cluesOf_cons, hns, hms, List.map_append]

theorem told_marks (brands : BrandRule) (format : ImageFormat) (ms : List Mark) (info : ImageInfo) :
    told brands (.format format :: ms.map .mark) = some info ↔
      Positive (scan (ms.foldl Mark.collect [])) ∧
        info = ⟨format, (scan (ms.foldl Mark.collect [])).1, (scan (ms.foldl Mark.collect [])).2⟩ := by
  have hlearn : (Findings.ofBrands brands).learn (.format format :: ms.map .mark) =
      Findings.after ⟨some format, []⟩ ms := List.foldl_map
  have hformat := Findings.after_format ⟨some format, []⟩ ms
  have hbest : best (Findings.after ⟨some format, []⟩ ms).extents = scan (ms.foldl Mark.collect []) := by
    rw [← scan_reverse, Findings.after_extents]
    rfl
  rw [told, hlearn]
  simp only [Findings.isKnown_iff_positive, Findings.errorFormat, hformat, hbest]
  simp [eq_comm]

theorem told_nil (brands : BrandRule) : told brands [] = none := by
  simp [told, Findings.learn, Findings.ofBrands, Findings.isKnown, Findings.largest]

variable {ρ : Type} [ByteReader ρ]

theorem decode_ok_iff (brands : BrandRule) (stop : Stop) (s : Session ρ) (info : ImageInfo) :
    ((decoder brands).decode stop s).1 = .ok info ↔
      told brands (clues brands (tape s.reader)) = some info ∧
        stop.Passes s.checks (s.checks + (looks brands (tape s.reader)).length) := by
  have htold : ((decoder brands).decode .never s).1 = .ok info ↔
      told brands (clues brands (tape s.reader)) = some info :=
    (decode_told brands .never s).resolve_left (Decoder.not_halted_never _) info
  rw [← decode_checks, ← htold]
  exact ((decoder_heeds brands).run stop s).ok_iff info

theorem heic_format {brand : Bytes} {format : ImageFormat}
    (h : heicBrands.format? brand = some format) : format = .heic := by
  rw [BrandRule.format?, Option.map_eq_some_iff] at h
  obtain ⟨known, -, rfl⟩ := h
  rfl

theorem accepted_of_mem (brands : BrandRule) {bs : List Bytes} (hmem : ascii "heic" ∈ bs)
    (haccepts : (brands.format? (ascii "heic")).isSome) :
    ∃ format, bs.findSome? brands.format? = some format :=
  Option.isSome_iff_exists.1 (List.findSome?_isSome_iff.2 ⟨_, hmem, haccepts⟩)

theorem clues_fileType {format : ImageFormat} {ms : List Mark} (hname : l.header.name = ascii "ftyp")
    (hfind : l.brands.findSome? brands.format? = some format)
    (hms : cluesOf brands ls = ms.map .mark) :
    cluesOf brands (l :: ls) = .format format :: ms.map .mark := by
  rw [cluesOf_cons, Look.clues, if_pos hname, hfind, hms]
  rfl

theorem decode_refused (stop : Stop) {s : Session ρ} (hlooks : looks brands (tape s.reader) = l :: ls)
    (hname : l.header.name = ascii "ftyp") (hfind : l.brands.findSome? brands.format? = none)
    (info : ImageInfo) : ¬ ((decoder brands).decode stop s).1 = .ok info := by
  obtain rfl := looks_refused hlooks hname hfind
  rw [decode_ok_iff, clues, hlooks, cluesOf_cons, Look.clues, if_pos hname, hfind]
  rintro ⟨htold, -⟩
  have hnone : told brands [] = some info := htold
  rw [told_nil] at hnone
  cases hnone

theorem decode_accepted (stop : Stop) {s : Session ρ} {format : ImageFormat} {ms : List Mark}
    (hlooks : looks brands (tape s.reader) = l :: ls)
    (hname : l.header.name = ascii "ftyp") (hfind : l.brands.findSome? brands.format? = some format)
    (hms : cluesOf brands ls = ms.map .mark) (width height : Nat) :
    ((decoder brands).decode stop s).1 = .ok ⟨format, width, height⟩ ↔
      (Positive (scan (ms.foldl Mark.collect [])) ∧ (width, height) = scan (ms.foldl Mark.collect [])) ∧
        stop.Passes s.checks (s.checks + (l :: ls).length) := by
  rw [decode_ok_iff, clues, hlooks, clues_fileType hname hfind hms, told_marks, ImageInfo.mk.injEq,
    eq_self, true_and, ← Prod.mk.injEq]

/-- With a file type that names `heic`, and no further one, the two decoders agree but for the
format. -/
theorem decode_entries {s : Session ρ}
    (hlooks : looks heicBrands (tape s.reader) = l :: ls ∨ looks heifBrands (tape s.reader) = l :: ls)
    (hname : l.header.name = ascii "ftyp") (hbrand : ascii "heic" ∈ brandsOf l.payload)
    (hls : NoFileType ls) (stop : Stop) (width height : Nat) :
    (heic.decode stop s).1 = .ok ⟨.heic, width, height⟩ ↔
      ∃ format, (brandsOf l.payload).findSome? heifBrands.format? = some format ∧
        (heif.decode stop s).1 = .ok ⟨format, width, height⟩ := by
  obtain ⟨format', hheic⟩ := accepted_of_mem heicBrands hbrand rfl
  obtain rfl : format' = .heic := by
    obtain ⟨brand, -, hformat⟩ := List.exists_of_findSome?_eq_some hheic
    exact heic_format hformat
  obtain ⟨format, hheif⟩ := accepted_of_mem heifBrands hbrand rfl
  suffices hsame : (heic.decode stop s).1 = .ok ⟨.heic, width, height⟩ ↔
      (heif.decode stop s).1 = .ok ⟨format, width, height⟩ by
    rw [hsame, hheif]
    simp
  by_cases hroom : 8 ≤ l.header.payload
  · rw [← brands_of_mem hname hroom rfl hbrand] at hheic hheif
    obtain ⟨hlooksHeic, hlooksHeif⟩ := looks_either hlooks hname (by rw [hheic, hheif]; rfl) hls
    obtain ⟨ms, hms⟩ := clues_unbranded hls
    exact (decode_accepted stop hlooksHeic hname hheic (hms _) width height).trans
      (decode_accepted stop hlooksHeif hname hheif (hms _) width height).symm
  · -- Neither decoder reads a brand in a file type that has no room for its version.
    have hnone (brands : BrandRule) : l.brands.findSome? brands.format? = none := by
      rw [Look.brands, if_neg fun hboth => hroom hboth.2]
      rfl
    obtain ⟨hlooksHeic, hlooksHeif⟩ := looks_either hlooks hname (by rw [hnone, hnone]) hls
    exact iff_of_false (decode_refused stop hlooksHeic hname (hnone _) _)
      (decode_refused stop hlooksHeif hname (hnone _) _)

def brandedBoth : Tape where
  bytes := [0, 0, 0, 20] ++ ascii "ftypavif" ++ [0, 0, 0, 0] ++ ascii "heic" ++
    [0, 0, 0, 100] ++ ascii "meta" ++ [0, 0, 0, 0] ++ [0, 0, 0, 80] ++ ascii "iprp" ++
    sizeBox 10 10 ++ sizeBox 20 30

theorem decode_entries_brandedBoth :
    ∃ l ls, looks heifBrands brandedBoth = l :: ls ∧ l.header.name = ascii "ftyp" ∧
      ascii "heic" ∈ brandsOf l.payload ∧ NoFileType ls ∧
      ((heic.decode .never ⟨brandedBoth, 0, []⟩).1 = .ok ⟨.heic, 20, 30⟩ ↔
        ∃ format, (brandsOf l.payload).findSome? heifBrands.format? = some format ∧
          (heif.decode .never ⟨brandedBoth, 0, []⟩).1 = .ok ⟨format, 20, 30⟩) ∧
      (heif.decode .never ⟨brandedBoth, 0, []⟩).1 = .ok ⟨.avif, 20, 30⟩ := by
  have hsome : looks heifBrands brandedBoth ≠ [] := List.ne_nil_of_length_pos (by decide +kernel)
  have hfirst : ∀ l ∈ (looks heifBrands brandedBoth).head?,
      l.header.name = ascii "ftyp" ∧ ascii "heic" ∈ brandsOf l.payload := by decide +kernel
  have hls : NoFileType (looks heifBrands brandedBoth).tail := by decide +kernel
  obtain ⟨l, ls, hlooks⟩ := List.exists_cons_of_ne_nil hsome
  rw [hlooks] at hfirst hls
  obtain ⟨hname, hbrand⟩ := hfirst l rfl
  refine ⟨l, ls, hlooks, hname, hbrand, hls, ?_, by decide +kernel⟩
  exact decode_entries (s := ⟨brandedBoth, 0, []⟩) (.inr hlooks) hname hbrand hls .never 20 30

end Heif

end ImageProbe
