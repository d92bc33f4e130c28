import ImageProbe.Proofs.Abreast
import ImageProbe.Proofs.Heif.Cut
import ImageProbe.Proofs.Heif.Outline

namespace ImageProbe

open Box ByteReader

namespace Heif

open Reading

structure Findings.Like (f f' : Findings) : Prop where
  format : f.format.isSome = f'.format.isSome
  extents : f.extents = f'.extents

namespace Findings.Like

variable {f f' : Findings}

theorem isKnown (h : f.Like f') : f.isKnown = f'.isKnown := by
  rw [Findings.isKnown, Findings.isKnown, Findings.largest, Findings.largest, h.format, h.extents]

theorem addExtent (h : f.Like f') (width height : Nat) :
    (f.addExtent width height).Like (f'.addExtent width height) where
  format := h.format
  extents := congrArg ((width, height) :: ·) h.extents

theorem rotate (h : f.Like f') (quarters : Nat) : (f.rotate quarters).Like (f'.rotate quarters) := by
  rw [Findings.rotate, Findings.rotate]
  split
  · exact ⟨h.format, congrArg swapLatest h.extents⟩
  · exact h

end Findings.Like

def Matches (o o' : Outcome) : Prop := Parallel Eq o.1 o'.1 ∧ o.2.Like o'.2

inductive InStep : Step Findings Outcome → Step Findings Outcome → Prop
  | more {f f' : Findings} (h : f.Like f') : InStep (.more f) (.more f')
  | done {o o' : Outcome} (h : Matches o o') : InStep (.done o) (.done o')

inductive InPlace : Step Findings Outcome × Tape → Step Findings Outcome × Tape → Prop
  | more {f f' : Findings} (h : f.Like f') (t : Tape) : InPlace (.more f, t) (.more f', t)
  | done {o o' : Outcome} (h : Matches o o') (t t' : Tape) : InPlace (.done o, t) (.done o', t')

theorem InPlace.of_done {out out' : Step Findings Outcome × Tape} {o o' : Outcome}
    (h : Matches o o') (hout : out.1 = .done o) (hout' : out'.1 = .done o') : InPlace out out' := by
  obtain ⟨r, rest⟩ := out
  obtain ⟨r', rest'⟩ := out'
  obtain rfl : r = .done o := hout
  obtain rfl : r' = .done o' := hout'
  exact .done h rest rest'

variable {brands brands' : BrandRule} {children children' : Children} {journal journal' : Journal}
  {f f' : Findings} {h : Header} {t : Tape}

theorem needs_abreast (f f' : Findings) (h : Header) (n : Nat) (defect : Defect) :
    Abreast Eq (needs f h n defect) (needs f' h n defect) := .require _ _ _ _

theorem handler_abreast (f f' : Findings) (h : Header) :
    Abreast Eq (handler h f) (handler h f') := by
  apply (needs_abreast f f' h 12 _).bind_eq
  intro _
  apply (Abreast.refl _).bind_eq
  intro bs
  dsimp only
  split
  · exact (Abreast.refl _).bind_eq fun _ => .refuse _ _ _ _
  · exact .refl _

theorem extent_abreast (hf : f.Like f') (h : Header) :
    Abreast Findings.Like (extent h f) (extent h f') := by
  apply (needs_abreast f f' h 12 _).bind_eq
  intro _
  apply (Abreast.refl _).bind_eq
  intro _
  apply (Abreast.refl _).bind_eq
  intro width
  apply (Abreast.refl _).bind_eq
  intro height
  exact (Abreast.refl _).bind_eq fun _ => .pure (hf.addExtent width height)

theorem rotation_abreast (hf : f.Like f') (h : Header) :
    Abreast Findings.Like (rotation h f) (rotation h f') := by
  apply (needs_abreast f f' h 1 _).bind_eq
  intro _
  apply (Abreast.refl _).bind_eq
  intro quarters
  exact (Abreast.refl _).bind_eq fun _ => .pure (hf.rotate _)

theorem version_abreast (f f' : Findings) (h : Header) :
    Abreast Eq (needs f h 4 .metaTooShort >>= fun _ => skip 4)
      (needs f' h 4 .metaTooShort >>= fun _ => skip 4) :=
  (needs_abreast f f' h 4 _).bind_eq fun _ => .refl _

theorem reading_inStep (hf : f.Like f') {p q : Reading Findings} (hpq : Abreast Findings.Like p q)
    (t : Tape) : InStep ((reading f p).eval t).1 ((reading f' q).eval t).1 := by
  obtain ⟨hresult, -⟩ := hpq t
  rw [reading, reading, Script.eval_bind, Script.eval_bind]
  generalize (p.run.eval t).1 = r at hresult ⊢
  generalize (q.run.eval t).1 = r' at hresult ⊢
  cases hresult with
  | ok h => exact .more h
  | error h => exact .done ⟨.error h, hf⟩

def NoFileType (ls : List Look) : Prop := ∀ l ∈ ls, l.header.name ≠ ascii "ftyp"

instance (ls : List Look) : Decidable (NoFileType ls) :=
  inferInstanceAs (Decidable (∀ l ∈ ls, l.header.name ≠ _))

theorem noFileType_append {ls ms : List Look} : NoFileType (ls ++ ms) ↔ NoFileType ls ∧ NoFileType ms :=
  List.forall_mem_append

theorem noFileType_cons {l : Look} {ls : List Look} :
    NoFileType (l :: ls) ↔ l.header.name ≠ ascii "ftyp" ∧ NoFileType ls := List.forall_mem_cons

structure Twins (journal journal' : Journal) (children children' : Children) : Prop where
  looks (room : Nat) (t : Tape) {f f' : Findings} : f.Like f' → NoFileType (journal room f t) →
    journal' room f' t = journal room f t
  outcomes (room : Nat) (t : Tape) {f f' : Findings} : f.Like f' → NoFileType (journal room f t) →
    Matches ((children room f).eval t).1 ((children' room f').eval t).1

theorem enclosed_outcome (depth : Nat) (children : Children) (room : Nat) (f : Findings)
    (t : Tape) :
    ((enclosed depth children room f).eval t).1 =
      (tryCatch ((children room f).eval t).1.1 levelEnd, ((children room f).eval t).1.2) := by
  rw [enclosed, Script.eval_bind]
  rcases ((children room f).eval t).1 with ⟨e | u, g⟩
  · cases e <;> rfl
  · rfl

theorem levelEnd_parallel {e e' : ProbeError} (h : e.blurred = e'.blurred) :
    Parallel Eq (levelEnd e) (levelEnd e') := by
  have hend := ProbeError.endOfData_iff h
  unfold levelEnd
  split
  · rw [hend.1 rfl]
    exact .ok rfl
  · split
    · exact absurd (hend.2 rfl) ‹_›
    · exact .error h

theorem enclosed_twins (hc : Twins journal journal' children children') (depth : Nat) :
    Twins journal journal' (enclosed depth children) (enclosed depth children') where
  looks := hc.looks
  outcomes room t f f' hf hls := by
    obtain ⟨hending, hlike⟩ := hc.outcomes room t hf hls
    rw [enclosed_outcome, enclosed_outcome]
    refine ⟨?_, hlike⟩
    dsimp only
    generalize ((children room f).eval t).1.1 = r at hending ⊢
    generalize ((children' room f').eval t).1.1 = r' at hending ⊢
    cases hending with
    | ok h => exact .ok h
    | error h => exact levelEnd_parallel h

theorem metadata_twins (hc : Twins journal journal' children children') (hf : f.Like f')
    (hls : NoFileType (journal (h.payload - 4) f (t.drop 4))) :
    Matches ((metadata children h f).eval t).1 ((metadata children' h f').eval t).1 := by
  have hversion := version_abreast f f' h t
  rw [metadata, metadata, Script.eval_bind, Script.eval_bind]
  rcases hr : (needs f h 4 .metaTooShort >>= fun _ => skip 4).run.eval t with ⟨r, t₁⟩
  rcases hr' : (needs f' h 4 .metaTooShort >>= fun _ => skip 4).run.eval t with ⟨r', t₂⟩
  rw [hr, hr'] at hversion
  obtain ⟨hresult, rfl⟩ : Parallel Eq r r' ∧ t₁ = t₂ := hversion
  cases hresult with
  | error h => exact ⟨.error h, hf⟩
  | ok _ =>
    obtain ⟨_, t₂, hneeds, hskip⟩ := Gives.of_bind hr
    obtain ⟨-, rfl⟩ := Gives.of_require hneeds
    obtain ⟨-, rfl⟩ := Gives.of_skip hskip
    have hinside : Matches
        ((if h.payload = 4 then pure (.ok (), f) else children (h.payload - 4) f).eval (t.drop 4)).1
        ((if h.payload = 4 then pure (.ok (), f') else children' (h.payload - 4) f').eval
          (t.drop 4)).1 := by
      split
      · exact ⟨.ok rfl, hf⟩
      · exact hc.outcomes _ _ hf hls
    simp only [Script.eval_bind]
    generalize ((if h.payload = 4 then pure (.ok (), f)
      else children (h.payload - 4) f).eval (t.drop 4)).1 = o at hinside ⊢
    generalize ((if h.payload = 4 then pure (.ok (), f')
      else children' (h.payload - 4) f').eval (t.drop 4)).1 = o' at hinside ⊢
    obtain ⟨r, g⟩ := o
    obtain ⟨r', g'⟩ := o'
    obtain ⟨hending, hlike⟩ : Parallel Eq r r' ∧ g.Like g' := hinside
    cases hending with
    | error h => exact ⟨.error h, hlike⟩
    | ok _ =>
      refine ⟨?_, hlike⟩
      change Parallel Eq (if g.isKnown then _ else _) (if g'.isKnown then _ else _)
      rw [← hlike.isKnown]
      split
      · exact .ok rfl
      · exact .error rfl

theorem looksInto_twins (hc : Twins journal journal' children children') (hf : f.Like f')
    (hls : NoFileType (looksInto journal h f t)) :
    looksInto journal' h f' t = looksInto journal h f t := by
  by_cases hmeta : h.name = ascii "meta"
  · rw [looksInto_metadata hmeta] at hls ⊢
    rw [looksInto_metadata hmeta, hc.looks _ _ hf (noFileType_cons.1 hls).2]
  by_cases hgroup : h.name = ascii "iprp" ∨ h.name = ascii "ipco"
  · rw [looksInto_properties hgroup] at hls ⊢
    rw [looksInto_properties hgroup, hc.looks _ _ hf (noFileType_cons.1 hls).2]
  · have hleaf : h.name ∉ holders := by simp [holders, hmeta, not_or.1 hgroup]
    rw [looksInto_leaf hleaf, looksInto_leaf hleaf]

theorem goOn_inStep {o o' : Outcome} (h : Matches o o') : InStep (goOn o) (goOn o') := by
  obtain ⟨r, g⟩ := o
  obtain ⟨r', g'⟩ := o'
  obtain ⟨hending, hlike⟩ : Parallel Eq r r' ∧ g.Like g' := h
  cases hending with
  | ok _ => exact .more hlike
  | error h => exact .done ⟨.error h, hlike⟩

theorem heed_inStep (hf : f.Like f') {r r' : Except ProbeError Unit} (hr : Parallel Eq r r')
    (t : Tape) : InStep ((heed f r).eval t).1 ((heed f' r').eval t).1 := by
  cases hr with
  | ok _ => exact .more hf
  | error _ => exact .done ⟨.ok rfl, hf⟩

theorem lookInto_twins (brands brands' : BrandRule)
    (hc : Twins journal journal' children children') (hf : f.Like f')
    (hls : NoFileType (looksInto journal h f t)) :
    InStep ((lookInto brands children h f).eval t).1 ((lookInto brands' children' h f').eval t).1 := by
  rcases name_cases h.name with
    hftyp | hmeta | hhdlr | hgroup | hispe | hirot | hmdat | hother
  · exact absurd hftyp (hls ⟨h, t.bytes⟩ List.mem_cons_self)
  · rw [looksInto_metadata hmeta] at hls
    rw [lookInto_metadata hmeta, lookInto_metadata hmeta]
    rw [Script.eval, Script.eval, Script.eval_map, Script.eval_map]
    exact .done (metadata_twins hc hf (noFileType_cons.1 hls).2)
  · obtain ⟨hresult, hrest⟩ := handler_abreast f f' h t
    rw [lookInto_handler hhdlr, lookInto_handler hhdlr]
    rw [Script.eval, Script.eval, Script.eval_bind, Script.eval_bind, hrest]
    exact heed_inStep hf hresult _
  · rw [looksInto_properties hgroup] at hls
    rw [lookInto_properties hgroup, lookInto_properties hgroup]
    rw [Script.eval, Script.eval, Script.eval_bind, Script.eval_bind]
    exact goOn_inStep (hc.outcomes _ _ hf (noFileType_cons.1 hls).2)
  · rw [lookInto_extent hispe, lookInto_extent hispe]
    exact reading_inStep hf (extent_abreast hf h) t
  · rw [lookInto_rotation hirot, lookInto_rotation hirot]
    exact reading_inStep hf (rotation_abreast hf h) t
  · rw [lookInto_media hmdat, lookInto_media hmdat]
    exact .done ⟨.error rfl, hf⟩
  · rw [lookInto_other hother, lookInto_other hother]
    exact .more hf

theorem visit_inPlace {look look' : Script (Step Findings Outcome)}
    (hlook : InStep (look.eval (t.clip h.payload)).1 (look'.eval (t.clip h.payload)).1) :
    InPlace ((h.visit (fun f e => (.error e, f)) look).eval t)
      ((h.visit (fun f e => (.error e, f)) look').eval t) := by
  rcases hstep : (look.eval (t.clip h.payload)).1 with g | o <;>
    rcases hstep' : (look'.eval (t.clip h.payload)).1 with g' | o' <;>
    rw [hstep, hstep'] at hlook
  · cases hlook with
    | more hlike =>
      rw [Header.visit_more hstep, Header.visit_more hstep']
      split
      · exact .done ⟨.error rfl, hlike⟩ _ _
      · exact .more hlike _
  · cases hlook
  · cases hlook
  · cases hlook with
    | done hmatch => exact .of_done hmatch (Header.visit_done hstep) (Header.visit_done hstep')

theorem boxes_twins (hc : Twins journal journal' children children') (format format' : ImageFormat)
    (most : Nat) (hf : f.Like f')
    (hls : NoFileType (boxesLooks brands children journal format most f t)) :
    boxesLooks brands' children' journal' format' most f' t =
        boxesLooks brands children journal format most f t ∧
      Matches ((boxes brands children format most f).eval t).1
        ((boxes brands' children' format' most f').eval t).1 := by
  induction most generalizing f f' t with
  | zero => exact ⟨rfl, levelEnd_parallel rfl, hf⟩
  | succ most ih =>
    by_cases hshort : (t.haul headLength).bytes.length < headLength
    · rw [boxes_short _ f hshort, boxes_short _ f' hshort, boxesLooks, boxesLooks]
      simp only [if_pos hshort]
      exact ⟨trivial, levelEnd_parallel rfl, hf⟩
    rw [boxes_box most f hshort, boxes_box most f' hshort]
    -- The headers are refused alike, each with the format of its own level.
    have hheader := header_abreast format format' (t.haul headLength).bytes
    rcases hh : (Box.header format (t.haul headLength).bytes).run.eval (t.drop headLength) with
      ⟨e | h, inside⟩
    · obtain ⟨e', hh', he⟩ := hheader.fails hh
      rw [boxesLooks, boxesLooks, box, box, Script.eval_bind, Script.eval_bind]
      simp only [if_neg hshort, hh, hh']
      exact ⟨trivial, levelEnd_parallel he, hf⟩
    · have hh' := hheader.gives hh
      rw [boxesLooks_long most f hshort hh] at hls ⊢
      rw [boxesLooks_long most f' hshort hh', box_header hh, box_header hh']
      obtain ⟨hinto, hbehind⟩ := noFileType_append.1 hls
      have hplace := visit_inPlace (lookInto_twins brands brands' hc hf hinto)
      -- From here on only where the two walks have got to counts.
      rw [looksInto_twins hc hf hinto]
      generalize (h.visit (fun f e => (.error e, f)) (lookInto brands children h f)).eval inside =
        out at hbehind hplace ⊢
      generalize (h.visit (fun f e => (.error e, f)) (lookInto brands' children' h f')).eval inside =
        out' at hplace ⊢
      cases hplace with
      | more hlike rest =>
        obtain ⟨hlooks, hmatch⟩ := ih hlike hbehind
        exact ⟨congrArg _ hlooks, hmatch⟩
      | done hmatch rest rest' => exact ⟨rfl, hmatch⟩

theorem looksBehind_twins (hc : Twins journal journal' children children')
    (format format' : ImageFormat) (most : Nat) {out out' : Step Findings Outcome × Tape}
    (hplace : InPlace out out')
    (hls : NoFileType (looksBehind brands children journal format most out)) :
    looksBehind brands' children' journal' format' most out' =
      looksBehind brands children journal format most out := by
  cases hplace with
  | more hlike rest => exact (boxes_twins hc format format' most hlike hls).1
  | done => rfl

theorem level_twins (brands brands' : BrandRule) (spare : Nat) :
    Twins (levelLooks brands spare) (levelLooks brands' spare) (level brands spare)
      (level brands' spare) := by
  induction spare with
  | zero => exact ⟨fun _ _ _ _ _ _ => rfl, fun _ _ _ _ hf _ => ⟨.error rfl, hf⟩⟩
  | succ spare ih =>
    have hinside := enclosed_twins ih (maxDepth - spare)
    constructor
    · intro room t f f' hf hls
      exact (boxes_twins hinside f.errorFormat f'.errorFormat (room / headLength) hf hls).1
    · intro room t f f' hf hls
      exact (boxes_twins hinside f.errorFormat f'.errorFormat (room / headLength) hf hls).2

end Heif

end ImageProbe
