import ImageProbe.Proofs.Checks
import ImageProbe.Proofs.Heif.Looks

namespace ImageProbe

open Box ByteReader

namespace Heif

open Reading

variable {brands : BrandRule} {children : Children} {format : ImageFormat} {f : Findings}
  {ρ : Type} [ByteReader ρ]

theorem compatibleFormat_quiet (n : Nat) : Quiet (compatibleFormat brands n) := by
  induction n with
  | zero => exact .pure none
  | succ n ih =>
    apply (Quiet.exactly 4).bind
    intro brand
    cases brands.format? brand with
    | some format => exact .pure _
    | none => exact ih

theorem needs_quiet (h : Header) (n : Nat) (defect : Defect) : Quiet (needs f h n defect) :=
  .require _ _ _

theorem fileType_quiet (h : Header) : Quiet (fileType brands h f) := by
  apply (needs_quiet h 8 _).bind
  intro _
  apply (Quiet.exactly 4).bind
  intro major
  cases brands.format? major with
  | some format => exact .pure _
  | none =>
    apply (Quiet.skip 4).bind
    intro _
    apply (compatibleFormat_quiet _).bind
    rintro (_ | format)
    · exact .note _ (.refuse _ _)
    · exact .pure _

theorem handler_quiet (h : Header) : Quiet (handler h f) := by
  apply (needs_quiet h 12 _).bind
  intro _
  apply (Quiet.exactly 12).bind
  intro bs
  dsimp only
  split
  · exact .note _ (.refuse _ _)
  · exact .pure ()

theorem extent_quiet (h : Header) : Quiet (extent h f) := by
  apply (needs_quiet h 12 _).bind
  intro _
  apply (Quiet.skip 4).bind
  intro _
  apply (Quiet.beNumber 4).bind
  intro width
  apply (Quiet.beNumber 4).bind
  intro height
  exact .note _ (.pure _)

theorem rotation_quiet (h : Header) : Quiet (rotation h f) := by
  apply (needs_quiet h 1 _).bind
  intro _
  apply (Quiet.beNumber 1).bind
  intro quarters
  exact .note _ (.pure _)

theorem heed_quiet (f : Findings) (r : Except ProbeError Unit) : (heed f r).Quiet := by
  rcases r with e | u
  · exact fun _ => rfl
  · exact fun _ => rfl

theorem reading_quiet {p : Reading Findings} (hp : Quiet p) : (reading f p).Quiet := by
  apply Script.Quiet.bind hp
  rintro (e | f')
  · exact fun _ => rfl
  · exact fun _ => rfl

structure Journal.Counts (journal : Journal) (children : Children) : Prop where
  checks (room : Nat) (f : Findings) (t : Tape) :
    (children room f).checksOn t = (journal room f t).length
  empty (room : Nat) (f : Findings) (t : Tape) : t.bytes = [] → journal room f t = []

variable {journal : Journal}

theorem enclosed_counts (hc : journal.Counts children) (depth : Nat) :
    journal.Counts (enclosed depth children) where
  checks room f t := by
    rw [← hc.checks room f t, enclosed, Script.checksOn_bind]
    apply Nat.add_eq_left.2
    rcases ((children room f).eval t).1 with ⟨e | u, f'⟩
    · cases e <;> rfl
    · rfl
  empty := hc.empty

theorem metadata_checks (hc : journal.Counts children) (h : Header) (f : Findings) {t : Tape}
    (ht : t.bytes.length ≤ h.payload) :
    (metadata children h f).checksOn t = (journal (h.payload - 4) f (t.drop 4)).length := by
  have hversion : Quiet (needs f h 4 .metaTooShort >>= fun _ => skip 4) :=
    (needs_quiet h 4 _).bind fun _ => .skip 4
  -- Where no boxes follow the version, no bytes do either, and the journal is empty there.
  have hnone (hshort : t.bytes.length ≤ 4) : journal (h.payload - 4) f (t.drop 4) = [] :=
    hc.empty _ _ _ (List.drop_eq_nil_of_le hshort)
  rw [metadata, Script.checksOn_bind, hversion, Nat.zero_add]
  rcases hr : (needs f h 4 .metaTooShort >>= fun _ => skip 4).run.eval t with ⟨e | u, t'⟩
  · rw [hnone, List.length_nil]
    · rfl
    · apply Nat.le_of_not_lt
      intro hlong
      have hneeds : (needs f h 4 .metaTooShort).Gives t () t :=
        Gives.require _ (decide_eq_true (by omega)) _ t
      have hskip : (skip 4).Gives t () (t.drop 4) :=
        Gives.skip_at t.bytes 0 4 (by omega) t.ending
      have hboth := hr.symm.trans (Gives.bind hneeds hskip)
      cases hboth
  · obtain ⟨_, t₁, hneeds, hskip⟩ := Gives.of_bind hr
    obtain ⟨-, rfl⟩ := Gives.of_require hneeds
    obtain ⟨-, rfl⟩ := Gives.of_skip hskip
    simp only [Script.checksOn_bind]
    by_cases hempty : h.payload = 4
    · rw [if_pos hempty, hnone (hempty ▸ ht)]
      rfl
    · rw [if_neg hempty, hc.checks]
      apply Nat.add_eq_left.2
      rcases ((children (h.payload - 4) f).eval (t.drop 4)).1 with ⟨e | u, f'⟩
      · rfl
      · rfl

theorem lookInto_checks (hc : journal.Counts children) (h : Header) (f : Findings) {t : Tape}
    (ht : t.bytes.length ≤ h.payload) :
    (lookInto brands children h f).checksOn t = (looksInto journal h f t).length := by
  have hleaf {p : Script (Step Findings Outcome)} (hp : p.Quiet) (hname : h.name ∉ holders) :
      (Script.check (halt f) p).checksOn t = (looksInto journal h f t).length := by
    rw [Script.checksOn, hp, looksInto_leaf hname]
    rfl
  rcases name_cases h.name with
    hftyp | hmeta | hhdlr | hgroup | hispe | hirot | hmdat | hother
  · rw [lookInto_fileType hftyp]
    exact hleaf (reading_quiet (fileType_quiet h)) (by rw [hftyp]; decide)
  · rw [lookInto_metadata hmeta, looksInto_metadata hmeta, Script.checksOn, List.length_cons,
      ← metadata_checks hc h f ht]
    exact congrArg (· + 1) (Script.checksOn_bind _ _ t)
  · rw [lookInto_handler hhdlr]
    exact hleaf (Script.Quiet.bind (handler_quiet h) (heed_quiet f)) (by rw [hhdlr]; decide)
  · rw [lookInto_properties hgroup, looksInto_properties hgroup, Script.checksOn,
      List.length_cons, Script.checksOn_bind, hc.checks]
    rfl
  · rw [lookInto_extent hispe]
    exact hleaf (reading_quiet (extent_quiet h)) (by rw [hispe]; decide)
  · rw [lookInto_rotation hirot]
    exact hleaf (reading_quiet (rotation_quiet h)) (by rw [hirot]; decide)
  · rw [lookInto_media hmdat]
    exact hleaf (fun _ => rfl) (by rw [hmdat]; decide)
  · rw [lookInto_other hother]
    exact hleaf (fun _ => rfl) (holders_heeded hother)

theorem box_checks (hc : journal.Counts children) {head : Bytes} {t t' : Tape} {h : Header}
    (hh : (Box.header format head).Gives t h t') (f : Findings) :
    (box brands children format head f).checksOn t =
      (looksInto journal h f (t'.clip h.payload)).length := by
  rw [Gives] at hh
  rw [box, Script.checksOn_bind, Header.quiet_header, Nat.zero_add, hh]
  refine (Header.checksOn_visit h _ _ t').trans (lookInto_checks hc h f ?_)
  exact List.length_take_le _ _

theorem boxes_checks (hc : journal.Counts children) (format : ImageFormat) (most : Nat)
    (f : Findings) (t : Tape) :
    (boxes brands children format most f).checksOn t =
      (boxesLooks brands children journal format most f t).length := by
  induction most generalizing f t with
  | zero => rfl
  | succ most ih =>
    rw [boxes, Script.checksOn, boxesLooks]
    by_cases hshort : (t.haul headLength).bytes.length < headLength
    · rw [if_pos hshort, if_pos hshort]
      rfl
    · rw [if_neg hshort, if_neg hshort, Script.checksOn_bind]
      rcases hh : (Box.header format (t.haul headLength).bytes).run.eval (t.drop headLength) with
        ⟨e | h, inside⟩
      · rw [box, Script.checksOn_bind, Script.eval_bind, Header.quiet_header, hh]
        rfl
      · rw [box_checks hc hh f, List.length_append]
        rcases (box brands children format (t.haul headLength).bytes f).eval (t.drop headLength) with
          ⟨f' | o, rest⟩
        · exact congrArg _ (ih f' rest)
        · rfl

theorem level_counts (spare : Nat) :
    Journal.Counts (levelLooks brands spare) (level brands spare) := by
  induction spare with
  | zero => exact ⟨fun _ _ _ => rfl, fun _ _ _ _ => rfl⟩
  | succ spare ih =>
    constructor
    · intro room f t
      exact boxes_checks (enclosed_counts ih _) f.errorFormat _ f t
    · intro room f t ht
      exact boxesLooks_empty _ f ht

theorem round_checks (brands : BrandRule) (f : Findings) (t : Tape) :
    ((walk brands).turn f).checksOn t =
      if (t.haul headLength).bytes.length < headLength then 0
      else (box brands (enclosed 0 (level brands maxDepth)) (Findings.ofBrands brands).errorFormat
        (t.haul headLength).bytes f).checksOn (t.drop headLength) := by
  change (turn brands f).checksOn t = _
  rw [turn, Script.checksOn]
  split
  · rfl
  · rfl

theorem short_checks (most : Nat) (f : Findings) {t : Tape}
    (ht : (t.haul headLength).bytes.length < headLength) :
    (boxes brands children format most f).checksOn t = 0 := by
  cases most with
  | zero => rfl
  | succ most =>
    rw [boxes, Script.checksOn, if_pos ht]
    rfl

theorem runFrom_checks (brands : BrandRule) {most : Nat} (f : Findings) {s : Session ρ}
    (hmost : (tape s.reader).bytes.length < headLength * (most + 1)) :
    ((walk brands).runFrom .never f s).2.checks = s.checks +
      (boxes brands (enclosed 0 (level brands maxDepth)) (Findings.ofBrands brands).errorFormat most
        f).checksOn (tape s.reader) := by
  induction most generalizing f s with
  | zero =>
    have hshort : ((tape s.reader).haul headLength).bytes.length < headLength := by
      rw [Tape.haul, List.length_take]
      omega
    rw [Walk.runFrom_done (congrArg Prod.fst (eval_round_short brands f hshort)),
      Script.run_never_checks, round_checks, if_pos hshort,
      short_checks 0 f hshort]
  | succ most ih =>
    by_cases hshort : ((tape s.reader).haul headLength).bytes.length < headLength
    · rw [Walk.runFrom_done (congrArg Prod.fst (eval_round_short brands f hshort)),
      Script.run_never_checks, round_checks, if_pos hshort,
        short_checks _ f hshort]
    · rw [boxes, Script.checksOn, if_neg hshort, Script.checksOn_bind, ← eval_round brands f hshort]
      rcases hround : ((walk brands).turn f).eval (tape s.reader) with ⟨f' | o, rest⟩
      · have hrest := round_length hround hshort hmost
        obtain ⟨rfl, hrun⟩ := Walk.runFrom_more hround
        rw [hrun, ih f' hrest, Script.run_never_checks, round_checks, if_neg hshort]
        exact Nat.add_assoc _ _ _
      · rw [Walk.runFrom_done (congrArg Prod.fst hround), Script.run_never_checks, round_checks,
          if_neg hshort]
        rfl

/-- A walk makes one check for each box that it looks into. -/
theorem run_checks (brands : BrandRule) (s : Session ρ) :
    ((walk brands).run .never s).2.checks = s.checks + (looks brands (tape s.reader)).length := by
  rw [looks, ← (level_counts (maxDepth + 1)).checks]
  refine runFrom_checks brands (.ofBrands brands) ?_
  rw [headLength]
  omega

theorem decode_checks (brands : BrandRule) (s : Session ρ) :
    ((decoder brands).decode .never s).2.checks =
      s.checks + (looks brands (tape s.reader)).length := by
  obtain ⟨log, hconclude⟩ := conclude_run ((walk brands).run .never s).1 .never
    ((walk brands).run .never s).2
  rw [Decoder.decode, decoder, Walk.run_andThen, hconclude, ← run_checks]

end Heif

end ImageProbe
