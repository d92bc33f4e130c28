import ImageProbe.Proofs.Cut
import ImageProbe.Proofs.Heif.Clues

namespace ImageProbe

open Box ByteReader

namespace Heif

variable {brands : BrandRule} {children : Children} {journal : Journal} {format : ImageFormat}
  {h : Header} {bs bs' : Bytes} {t t' : Tape}

theorem quads_cut {n m : Nat} (hbs : bs' <+: bs) (hn : 4 * n ≤ bs'.length) (hm : n ≤ m) :
    quads n bs' <+: quads m bs := by
  induction n generalizing m bs' bs with
  | zero => exact List.nil_prefix
  | succ n ih =>
    obtain ⟨m, rfl⟩ : ∃ k, m = k + 1 := ⟨m - 1, by omega⟩
    obtain ⟨more, rfl⟩ := hbs
    have hfirst : (bs' ++ more).take 4 = bs'.take 4 := List.take_append_of_le_length (by omega)
    have hrest : bs'.drop 4 <+: (bs' ++ more).drop 4 := (List.prefix_append bs' more).drop 4
    rw [quads, quads, hfirst]
    apply (List.prefix_cons_inj _).2
    apply ih hrest _ (by omega)
    simp only [List.length_drop]
    omega

theorem brands_cut (hbs : bs' <+: bs) : Look.brands ⟨h, bs'⟩ <+: Look.brands ⟨h, bs⟩ := by
  have hlen := hbs.length_le
  rw [Look.brands, Look.brands]
  split
  · by_cases hfour : 4 ≤ bs'.length
    · rw [brands_whole hfour, brands_whole (Nat.le_trans hfour hlen), brandsOf, brandsOf]
      have hmajor : bs'.take 4 = bs.take 4 := by
        obtain ⟨more, rfl⟩ := hbs
        exact (List.take_append_of_le_length hfour).symm
      rw [hmajor]
      apply (List.prefix_cons_inj _).2
      apply quads_cut (hbs.drop 8)
      · simp only [List.length_drop]
        omega
      · omega
    · rw [brands_short hfour]
      exact List.nil_prefix
  · exact List.nil_prefix

theorem slice_cut (hbs : bs' <+: bs) {i n : Nat} (hn : i + n ≤ bs'.length) :
    slice bs' i n = slice bs i n := by
  obtain ⟨more, rfl⟩ := hbs
  rw [slice, slice, List.drop_append_of_le_length (by omega), List.take_append_of_le_length]
  simp only [List.length_drop]
  omega

theorem clues_cut (hbs : bs' <+: bs) :
    Look.clues brands ⟨h, bs'⟩ <+: Look.clues brands ⟨h, bs⟩ := by
  have hlen := hbs.length_le
  rw [Look.clues, Look.clues]
  by_cases hftyp : h.name = ascii "ftyp"
  · rw [if_pos hftyp, if_pos hftyp]
    cases hfind : (Look.brands ⟨h, bs'⟩).findSome? brands.format? with
    | none => exact List.nil_prefix
    | some format =>
      rw [(brands_cut hbs).findSome?_eq_some hfind]
  rw [if_neg hftyp, if_neg hftyp]
  by_cases hispe : h.name = ascii "ispe" ∧ 12 ≤ bs'.length
  · have hroom := hispe.2
    rw [if_pos hispe, if_pos ⟨hispe.1, Nat.le_trans hroom hlen⟩,
      slice_cut hbs (by omega), slice_cut hbs (by omega)]
  rw [if_neg hispe]
  by_cases hirot : h.name = ascii "irot" ∧ 1 ≤ bs'.length
  · have hother : h.name ≠ ascii "ispe" := by
      rw [hirot.1]
      decide
    obtain ⟨b, bs'', rfl⟩ := List.exists_cons_of_length_pos hirot.2
    obtain ⟨more, rfl⟩ := hbs
    rw [if_pos hirot, if_neg fun hboth => hother hboth.1,
      if_pos ⟨hirot.1, Nat.le_trans hirot.2 hlen⟩]
    exact List.prefix_rfl
  · rw [if_neg hirot]
    exact List.nil_prefix

def Journal.Grows (brands : BrandRule) (journal : Journal) : Prop :=
  ∀ room f (t t' : Tape), t'.bytes <+: t.bytes →
    cluesOf brands (journal room f t') <+: cluesOf brands (journal room f t)

theorem looksInto_grows (hj : journal.Grows brands) (f : Findings) (ht : t'.bytes <+: t.bytes) :
    cluesOf brands (looksInto journal h f t') <+: cluesOf brands (looksInto journal h f t) := by
  rw [looksInto, looksInto, cluesOf_cons, cluesOf_cons]
  by_cases hleaf : h.name ∈ tellers
  · have hother : h.name ≠ ascii "meta" ∧ ¬ (h.name = ascii "iprp" ∨ h.name = ascii "ipco") := by
      simp only [tellers, List.mem_cons, List.not_mem_nil, or_false] at hleaf
      rcases hleaf with hname | hname | hname <;> rw [hname] <;> decide
    simp only [if_neg hother.1, if_neg hother.2, cluesOf, List.flatMap_nil, List.append_nil]
    exact clues_cut ht
  · rw [clues_other hleaf, clues_other hleaf]
    split
    · exact hj _ f _ _ (ht.drop 4)
    split
    · exact hj _ f _ _ ht
    · exact List.prefix_rfl

def looksBehind (brands : BrandRule) (children : Children) (journal : Journal)
    (format : ImageFormat) (most : Nat) : Step Findings Outcome × Tape → List Look
  | (.more f, rest) => boxesLooks brands children journal format most f rest
  | (.done _, _) => []

theorem looksBehind_drained (most : Nat) {out : Step Findings Outcome × Tape}
    (hout : ∀ f, out.1 = .more f → out.2.bytes = []) :
    looksBehind brands children journal format most out = [] := by
  rcases out with ⟨f | o, rest⟩
  · exact boxesLooks_empty most f (hout f rfl)
  · rfl

theorem looksBehind_done (most : Nat) {out : Step Findings Outcome × Tape} {o : Outcome}
    (hout : out.1 = .done o) : looksBehind brands children journal format most out = [] := by
  obtain ⟨r, rest⟩ := out
  obtain rfl : r = .done o := hout
  rfl

theorem boxesLooks_long (most : Nat) (f : Findings) {inside : Tape}
    (ht : ¬ (t.haul headLength).bytes.length < headLength)
    (hh : (Box.header format (t.haul headLength).bytes).Gives (t.drop headLength) h inside) :
    boxesLooks brands children journal format (most + 1) f t =
      looksInto journal h f (inside.clip h.payload) ++
        looksBehind brands children journal format most
          ((h.visit (fun f e => (.error e, f)) (lookInto brands children h f)).eval inside) := by
  rw [← box_header hh]
  rw [Reading.Gives] at hh
  rw [boxesLooks]
  simp only [if_neg ht, hh]
  rcases (box brands children format (t.haul headLength).bytes f).eval (t.drop headLength) with
    ⟨f' | o, rest⟩
  · rfl
  · rfl

theorem boxesLooks_grows (hj : journal.Grows brands) {most most' : Nat} (hmost : most' ≤ most)
    (f : Findings) (ht : t'.bytes <+: t.bytes) :
    cluesOf brands (boxesLooks brands children journal format most' f t') <+:
      cluesOf brands (boxesLooks brands children journal format most f t) := by
  induction most' generalizing most f t t' with
  | zero => exact List.nil_prefix
  | succ most' ih =>
    obtain ⟨most, rfl⟩ : ∃ m, most = m + 1 := ⟨most - 1, by omega⟩
    by_cases hshort : (t'.haul headLength).bytes.length < headLength
    · rw [boxesLooks]
      simp only [if_pos hshort]
      exact List.nil_prefix
    have hhead : t'.haul headLength = t.haul headLength := by
      apply Tape.haul_cut ht
      simp only [Tape.haul, List.length_take] at hshort
      omega
    rcases hh' : (Box.header format (t'.haul headLength).bytes).run.eval (t'.drop headLength) with
      ⟨e | h, inside'⟩
    · rw [boxesLooks]
      simp only [if_neg hshort, hh']
      exact List.nil_prefix
    have hdrop : (t'.drop headLength).bytes <+: (t.drop headLength).bytes := ht.drop headLength
    obtain ⟨inside, hh, hinside⟩ := (header_prompt format _).gives_cut hdrop hh'
    rw [boxesLooks_long most' f hshort hh', boxesLooks_long most f (hhead ▸ hshort) (hhead ▸ hh),
      cluesOf_append, cluesOf_append]
    generalize hlook : h.visit (fun f e => (.error e, f)) (lookInto brands children h f) = look
    rcases Nat.lt_or_ge inside'.bytes.length h.payload with hroom | hroom
    · -- The shorter tape ends in this box, which is then its last one.
      have hclip : (inside'.clip h.payload).bytes <+: (inside.clip h.payload).bytes :=
        hinside.take h.payload
      have hinto := looksInto_grows (h := h) hj f hclip
      have hlast : looksBehind brands children journal format most' (look.eval inside') = [] := by
        apply looksBehind_drained
        intro f' hmore
        rw [← hlook] at hmore ⊢
        exact Header.visit_short hroom (Prod.ext hmore rfl)
      rw [hlast]
      exact (List.append_nil _).symm ▸ hinto.trans (List.prefix_append _ _)
    · rw [Tape.clip_cut hinside hroom]
      apply (List.prefix_append_right_inj _).2
      rcases look.eval_cut hinside with hdrained | ⟨hsame, hrest⟩
      · rw [looksBehind_drained most' fun _ _ => hdrained]
        exact List.nil_prefix
      · rcases hout' : look.eval inside' with ⟨f' | o, rest'⟩
        · rcases hout : look.eval inside with ⟨r, rest⟩
          rw [hout', hout] at hsame hrest
          obtain rfl : .more f' = r := hsame
          exact ih (by omega) f' hrest
        · exact List.nil_prefix

theorem level_grows (spare : Nat) {room room' : Nat} (hroom : room' ≤ room) (f : Findings)
    (ht : t'.bytes <+: t.bytes) :
    cluesOf brands (levelLooks brands spare room' f t') <+:
      cluesOf brands (levelLooks brands spare room f t) := by
  induction spare generalizing room room' f t t' with
  | zero => exact List.nil_prefix
  | succ spare ih =>
    apply boxesLooks_grows _ (Nat.div_le_div_right hroom) f ht
    exact fun room f _ _ ht => ih (Nat.le_refl room) f ht

theorem clues_grow (brands : BrandRule) (ht : t'.bytes <+: t.bytes) :
    clues brands t' <+: clues brands t := level_grows (maxDepth + 1) ht.length_le _ ht

/-- What is told of an image by the clues to it. -/
def told (brands : BrandRule) (cs : List Clue) : Option ImageInfo :=
  let f := (Findings.ofBrands brands).learn cs
  if f.isKnown then some ⟨f.errorFormat, (best f.extents).1, (best f.extents).2⟩ else none

variable {ρ σ : Type} [ByteReader ρ] [ByteReader σ]

theorem decode_told (brands : BrandRule) (stop : Stop) (s : Session ρ) :
    Decoder.Halted stop ((decoder brands).decode stop s).1 ∨
      ∀ info, ((decoder brands).decode stop s).1 = .ok info ↔
        told brands (clues brands (tape s.reader)) = some info := by
  rcases (decoder_heeds brands).run_result stop (decode_eq brands .never s) with hstop | hrun
  · exact .inl hstop
  · right
    intro info
    rw [Decoder.decode, hrun, verdict_ok_iff ((walk_heeds brands).untold s), told, ← run_learns,
      Option.ite_none_right_eq_some, Option.some.injEq]
    exact and_congr_right' eq_comm

/-- A stream that ends or fails too early is told by the clues that it has delivered. The whole of
it has these clues first, so it is told alike unless there are more behind the cut; and as long as
they tell nothing, there is an error. -/
theorem decode_cut (brands : BrandRule) (stop : Stop) (s' : Session ρ) (s : Session σ)
    (cut : (tape s'.reader).bytes <+: (tape s.reader).bytes) :
    ∃ more, clues brands (tape s.reader) = clues brands (tape s'.reader) ++ more ∧
      (Decoder.Halted stop ((decoder brands).decode stop s').1 ∨
        ∀ info, ((decoder brands).decode stop s').1 = .ok info ↔
          told brands (clues brands (tape s'.reader)) = some info) ∧
      (Decoder.Halted stop ((decoder brands).decode stop s).1 ∨
        ∀ info, ((decoder brands).decode stop s).1 = .ok info ↔
          told brands (clues brands (tape s'.reader) ++ more) = some info) ∧
      (told brands (clues brands (tape s'.reader)) = none →
        ∃ e, ((decoder brands).decode stop s').1 = .error e) := by
  obtain ⟨more, hmore⟩ := clues_grow brands cut
  have hcut := decode_told brands stop s'
  refine ⟨more, hmore.symm, hcut, hmore ▸ decode_told brands stop s, fun hnone => ?_⟩
  rcases hout : ((decoder brands).decode stop s').1 with e | info
  · exact ⟨e, rfl⟩
  · rw [hout, hnone] at hcut
    rcases hcut with hhalt | htold
    · exact absurd hhalt (Decoder.not_halted_ok stop info)
    · exact nomatch (htold info).1 rfl

def twoSizes : Tape where
  bytes := [0, 0, 0, 16] ++ ascii "ftypheic" ++ [0, 0, 0, 0, 0, 0, 0, 52] ++ ascii "meta" ++
    [0, 0, 0, 0] ++ sizeBox 10 10 ++ sizeBox 20 20

def earlyReset : Tape := Tape.failingAt twoSizes.bytes 30 ⟨.other, "reset"⟩

def lateReset : Tape := Tape.failingAt twoSizes.bytes 48 ⟨.other, "reset"⟩

theorem decode_cut_earlyReset :
    (earlyReset.bytes <+: twoSizes.bytes) ∧
      told heifBrands (clues heifBrands earlyReset) = none ∧
      (∃ more, clues heifBrands twoSizes = clues heifBrands earlyReset ++ more) ∧
      (∃ e, ((decoder heifBrands).decode .never ⟨earlyReset, 0, []⟩).1 = .error e) ∧
      (lateReset.bytes <+: twoSizes.bytes) ∧
      clues heifBrands lateReset = [.format .heic, .mark (.size 10 10)] ∧
      clues heifBrands twoSizes =
        clues heifBrands lateReset ++ [.mark (.size 20 20)] ∧
      ((decoder heifBrands).decode .never ⟨lateReset, 0, []⟩).1 = .ok ⟨.heic, 10, 10⟩ ∧
      ((decoder heifBrands).decode .never ⟨twoSizes, 0, []⟩).1 = .ok ⟨.heic, 20, 20⟩ := by
  have hcut : earlyReset.bytes <+: twoSizes.bytes := List.take_prefix 30 _
  have hnone : told heifBrands (clues heifBrands earlyReset) = none := by decide +kernel
  obtain ⟨more, hmore, -, -, herror⟩ := decode_cut heifBrands .never
    (⟨earlyReset, 0, []⟩ : Session Tape) (⟨twoSizes, 0, []⟩ : Session Tape) hcut
  refine ⟨hcut, hnone, ⟨more, hmore⟩, herror hnone, List.take_prefix 48 _, ?_⟩
  have hlate : clues heifBrands lateReset = [.format .heic, .mark (.size 10 10)] := by
    decide +kernel
  have hwhole : clues heifBrands twoSizes = clues heifBrands lateReset ++ [.mark (.size 20 20)] := by
    decide +kernel
  obtain ⟨more', hmore', htold, htold', -⟩ := decode_cut heifBrands .never
    (⟨lateReset, 0, []⟩ : Session Tape) (⟨twoSizes, 0, []⟩ : Session Tape) (List.take_prefix 48 _)
  obtain rfl : more' = [.mark (.size 20 20)] :=
    List.append_cancel_left (hmore'.symm.trans hwhole)
  refine ⟨hlate, hwhole, ?_, ?_⟩
  · apply (htold.resolve_left (Decoder.not_halted_never _) _).2
    rw [show clues heifBrands (tape lateReset) = _ from hlate]
    decide +kernel
  · apply (htold'.resolve_left (Decoder.not_halted_never _) _).2
    rw [show clues heifBrands (tape lateReset) = _ from hlate]
    decide +kernel

theorem decode_cut_incomplete :
    (twoSizes.bytes.take 48 <+: twoSizes.bytes) ∧ twoSizes.bytes.length = 68 ∧
      ((decoder heifBrands).decode .never
        ⟨Tape.failingAt twoSizes.bytes 48 ⟨.other, "reset"⟩, 0, []⟩).1 = .ok ⟨.heic, 10, 10⟩ ∧
      ((decoder heifBrands).decode .never
        ⟨(⟨twoSizes.bytes.take 48, none⟩ : Tape), 0, []⟩).1 = .ok ⟨.heic, 10, 10⟩ ∧
      ((decoder heifBrands).decode .never ⟨twoSizes, 0, []⟩).1 = .ok ⟨.heic, 20, 20⟩ := by
  refine ⟨List.take_prefix 48 _, ?_, ?_, ?_, ?_⟩ <;> decide +kernel

end Heif

end ImageProbe
