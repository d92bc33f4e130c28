import ImageProbe.Proofs.Box.Opened
import ImageProbe.Proofs.Heif.Clues
import ImageProbe.Proofs.Heif.Outline

namespace ImageProbe

open Box ByteReader

namespace Heif

variable {brands : BrandRule} {stop : Stop} {f : Findings} {h h' : Header}

theorem enclosed_on (spare depth : Nat) {room : Nat} {bytes : Bytes} (hroom : bytes.length ≤ room)
    (k : Nat) :
    (enclosed depth (level brands (spare + 1)) room f).outcome stop ⟨bytes, none⟩ k =
      (enclosed depth (level brands (spare + 1)) bytes.length f).outcome stop ⟨bytes, none⟩ k := by
  unfold enclosed
  rw [Script.outcome_bind, Script.outcome_bind, level_on spare room f hroom,
    level_on spare bytes.length f (Nat.le_refl _)]

theorem metadata_inside (spare depth : Nat) {rest : Bytes} (hroom : 4 + rest.length ≤ h.payload)
    (k : Nat) :
    (if h.payload = 4 then pure (.ok (), f)
      else enclosed depth (level brands (spare + 1)) (h.payload - 4) f).outcome stop
        ⟨rest, none⟩ k =
      (enclosed depth (level brands (spare + 1)) rest.length f).outcome stop ⟨rest, none⟩ k := by
  by_cases hfour : h.payload = 4
  · obtain rfl : rest = [] := List.eq_nil_of_length_eq_zero (by omega)
    rw [if_pos hfour, enclosed, level, show ([] : Bytes).length / headLength = 0 from rfl, boxes,
      Script.outcome_bind, Script.outcome_fetch]
    rfl
  · rw [if_neg hfour]
    exact enclosed_on spare depth (Nat.le_sub_of_add_le' hroom) k

theorem metadata_short (stop : Stop) (children : Children) (h : Header) (f : Findings) {t : Tape}
    (hshort : t.bytes.length < 4) (k : Nat) :
    ∃ e t', (metadata children h f).outcome stop t k = ((.error e, f), t', k) := by
  have hquiet := Script.outcome_of_checksOn stop (version_quiet f h t) k
  rw [metadata, Script.outcome_bind, hquiet]
  rcases hr : (needs f h 4 .metaTooShort >>= fun _ => Reading.skip 4).run.eval t with ⟨e | u, t'⟩
  · exact ⟨e, t', rfl⟩
  · obtain ⟨_, t₁, hneeds, hversion⟩ := Reading.Gives.of_bind hr
    obtain ⟨-, rfl⟩ := Reading.Gives.of_require hneeds
    exact absurd (Reading.Gives.of_skip hversion).1 (by omega)

theorem metadata_findings (spare depth : Nat) {payload : Bytes} (hroom : payload.length ≤ h.payload)
    (hroom' : payload.length ≤ h'.payload) (k : Nat) :
    let children := enclosed depth (level brands (spare + 1))
    AgreeBy Prod.snd ((metadata children h f).outcome stop ⟨payload, none⟩ k)
      ((metadata children h' f).outcome stop ⟨payload, none⟩ k) := by
  intro children
  by_cases hlong : 4 ≤ payload.length
  · have hversion : (payload.take 4).length = 4 := List.length_take_of_le hlong
    have hrest : 4 + (payload.drop 4).length = payload.length := by
      rw [List.length_drop]
      omega
    rw [← List.take_append_drop 4 payload]
    apply AgreeBy.weaken
    apply metadata_agree (by omega) (by omega) hversion hversion
    rw [metadata_inside spare depth (by omega), metadata_inside spare depth (by omega)]
    exact .of_eq rfl
  · have hshort : (Tape.mk payload none).bytes.length < 4 := Nat.lt_of_not_le hlong
    obtain ⟨e, t', hout⟩ := metadata_short stop children h f hshort k
    obtain ⟨e', t'', hout'⟩ := metadata_short stop children h' f hshort k
    rw [hout, hout']
    exact ⟨rfl, rfl⟩

theorem clues_congr (hname : h.name = h'.name) (hftyp : h.name ≠ ascii "ftyp") (payload : Bytes) :
    Look.clues brands ⟨h, payload⟩ = Look.clues brands ⟨h', payload⟩ := by
  have hftyp' : h'.name ≠ ascii "ftyp" := hname ▸ hftyp
  simp only [Look.clues, hname, if_neg hftyp']

theorem lookInto_findings (brands : BrandRule) (stop : Stop) (f : Findings)
    (hname : h.name = h'.name) (hftyp : h.name ≠ ascii "ftyp") (spare depth : Nat)
    {payload : Bytes} (hroom : payload.length ≤ h.payload)
    (hroom' : payload.length ≤ h'.payload) (k : Nat) :
    let children := enclosed depth (level brands (spare + 1))
    AgreeBy findings ((lookInto brands children h f).outcome stop ⟨payload, none⟩ k)
      ((lookInto brands children h' f).outcome stop ⟨payload, none⟩ k) := by
  intro children
  rcases name_cases h.name with
    hftyp' | hmeta | hhdlr | hgroup | hispe | hirot | hmdat | hother
  · exact absurd hftyp' hftyp
  · rw [lookInto_metadata hmeta, lookInto_metadata (hname ▸ hmeta)]
    refine AgreeBy.check (fun _ _ => ⟨rfl, rfl⟩) fun k => ?_
    exact AgreeBy.map (fun o => rfl) (metadata_findings spare depth hroom hroom' k)
  · rw [lookInto_handler hhdlr, lookInto_handler (hname ▸ hhdlr)]
    refine AgreeBy.check (fun _ _ => ⟨rfl, rfl⟩) fun k => ?_
    refine AgreeBy.of_constant f (handler_quiet h) (handler_quiet h') (heed_quiet f) ?_
      ⟨payload, none⟩ k
    rintro (e | u) t
    · rfl
    · rfl
  · rw [lookInto_properties hgroup, lookInto_properties (hname ▸ hgroup)]
    refine AgreeBy.check (fun _ _ => ⟨rfl, rfl⟩) fun k => ?_
    apply AgreeBy.of_eq
    rw [Script.outcome_bind, Script.outcome_bind, enclosed_on spare depth hroom,
      enclosed_on spare depth hroom']
  · rw [lookInto_extent hispe, lookInto_extent (hname ▸ hispe)]
    refine AgreeBy.check (fun _ _ => ⟨rfl, rfl⟩) fun k => ?_
    apply AgreeBy.of_quiet (reading_quiet (extent_quiet h)) (reading_quiet (extent_quiet h'))
    rw [findings_tells (extent_tells brands hispe hroom),
      findings_tells (extent_tells brands (hname ▸ hispe) hroom'), clues_congr hname hftyp]
  · rw [lookInto_rotation hirot, lookInto_rotation (hname ▸ hirot)]
    refine AgreeBy.check (fun _ _ => ⟨rfl, rfl⟩) fun k => ?_
    apply AgreeBy.of_quiet (reading_quiet (rotation_quiet h)) (reading_quiet (rotation_quiet h'))
    rw [findings_tells (rotation_tells brands hirot hroom),
      findings_tells (rotation_tells brands (hname ▸ hirot) hroom'), clues_congr hname hftyp]
  · rw [lookInto_media hmdat, lookInto_media (hname ▸ hmdat)]
    exact .of_eq rfl
  · rw [lookInto_other hother, lookInto_other (hname ▸ hother)]
    exact .of_eq rfl

theorem topOn_nil (brands : BrandRule) (stop : Stop) (f : Findings) (k : Nat) :
    topOn brands stop f ⟨[], none⟩ k = ((.ok (), f), ⟨[], none⟩, k) := by
  have hturn : ((walk brands).turn f).outcome stop ⟨[], none⟩ k =
      (.done (.ok (), f), ⟨[], none⟩, k) := by
    change (turn brands f).outcome stop _ k = _
    rw [turn, Script.outcome_fetch]
    rfl
  rw [topOn, (walk brands).outcomeFrom_eq f, hturn]
  rfl

theorem last_agree {x y : Showing (Step Findings Outcome)} (h : AgreeBy findings x y) :
    AgreeBy Prod.snd (Walk.follow (topOn brands stop) (passed ⟨[], none⟩ x))
      (Walk.follow (topOn brands stop) (passed ⟨[], none⟩ y)) := by
  have hlast (x : Showing (Step Findings Outcome)) :
      let out := Walk.follow (topOn brands stop) (passed ⟨[], none⟩ x)
      out.1.2 = findings x.1 ∧ out.2.2 = x.2.2 := by
    rcases x with ⟨f | o, left, k⟩
    · rw [passed, Walk.follow, topOn_nil]
      exact ⟨rfl, rfl⟩
    · exact ⟨rfl, rfl⟩
  constructor
  · exact (hlast x).1.trans (h.1.trans (hlast y).1.symm)
  · exact (hlast x).2.trans (h.2.trans (hlast y).2.symm)

variable {p : Parcel}

theorem turn_opened (hp : p.Fits) (f : Findings) (k : Nat) :
    ((walk brands).turn f).outcome stop ⟨p.opened, none⟩ k =
      passed ⟨[], none⟩ ((lookInto brands (enclosed 0 (level brands maxDepth)) p.openHeader
        f).outcome stop ⟨p.payload, none⟩ k) := by
  obtain ⟨hhaul, hdrop, hlong⟩ := Parcel.haul_opened hp
  have hheader := outcome_of_gives stop (Header.quiet_header _ _) (Parcel.openHeader_gives p
    (Findings.ofBrands brands).errorFormat ⟨p.payload, none⟩) k
  change (turn brands f).outcome stop _ k = _
  rw [turn, Script.outcome_fetch, hhaul, hdrop, if_neg hlong, box, Script.outcome_bind, hheader]
  exact outcome_visit_open rfl (Parcel.payload_le_open hp) _ _ k

theorem opened_findings (brands : BrandRule) (stop : Stop) (hp : p.Fits)
    (hftyp : p.name ≠ ascii "ftyp") (f : Findings) (k : Nat) :
    AgreeBy Prod.snd (topOn brands stop f ⟨p.bytes, none⟩ k)
      (topOn brands stop f ⟨p.opened, none⟩ k) := by
  have hclosed : topOn brands stop f ⟨p.bytes ++ [], none⟩ k = _ := topOn_box hp f ⟨[], none⟩ k
  rw [List.append_nil] at hclosed
  have hname : p.header.name = p.openHeader.name := Parcel.header_name p
  have hroom : p.payload.length ≤ p.header.payload := Nat.le_of_eq (Parcel.header_payload p).symm
  rw [hclosed, topOn, (walk brands).outcomeFrom_eq f, turn_opened hp]
  apply last_agree
  exact lookInto_findings brands stop f hname (by rwa [Parcel.header_name]) (maxDepth - 1) 0 hroom
    (Parcel.payload_le_open hp) k

theorem topOn_behind {β : Type} {view : Outcome → β} {ps : List Parcel}
    (hps : ∀ p ∈ ps, p.Fits) {t t' : Tape}
    (hlast : ∀ f k, AgreeBy view (topOn brands stop f t k) (topOn brands stop f t' k))
    (f : Findings) (k : Nat) :
    AgreeBy view (topOn brands stop f ⟨ps.flatMap Parcel.bytes ++ t.bytes, t.ending⟩ k)
      (topOn brands stop f ⟨ps.flatMap Parcel.bytes ++ t'.bytes, t'.ending⟩ k) := by
  induction ps generalizing f k with
  | nil => exact hlast f k
  | cons p ps ih =>
    obtain ⟨hp, hps⟩ := List.forall_mem_cons.1 hps
    rw [List.flatMap_cons, List.append_assoc, List.append_assoc, topOn_box hp f ⟨_, t.ending⟩ k,
      topOn_box hp f ⟨_, t'.ending⟩ k]
    exact AgreeBy.follow (.of_eq rfl) fun f k => ih hps f k

variable {ρ σ : Type} [ByteReader ρ] [ByteReader σ]

theorem decode_on (brands : BrandRule) (stop : Stop) (r : ρ) (log : List Note) :
    let top := topOn brands stop (.ofBrands brands) (tape r) 0
    ((decoder brands).decode stop ⟨r, 0, log⟩).1 = verdict top.1 ∧
      ((decoder brands).decode stop ⟨r, 0, log⟩).2.checks = top.2.2 := by
  intro top
  obtain ⟨hres, -, hchecks⟩ := answer_of_outcome log (outcome_decoder brands stop (tape r) 0)
  exact ⟨hres, hchecks⟩

theorem decode_of_findings {r : ρ} {r' : σ}
    (h : AgreeBy Prod.snd (topOn brands .never (.ofBrands brands) (tape r) 0)
      (topOn brands .never (.ofBrands brands) (tape r') 0)) (stop : Stop) (log log' : List Note) :
    (∀ info, ((decoder brands).decode stop ⟨r, 0, log⟩).1 = .ok info ↔
        ((decoder brands).decode stop ⟨r', 0, log'⟩).1 = .ok info) ∧
      ((decoder brands).decode stop ⟨r, 0, log⟩).2.checks =
        ((decoder brands).decode stop ⟨r', 0, log'⟩).2.checks := by
  obtain ⟨-, hchecks⟩ := decode_on brands .never r log
  obtain ⟨-, hchecks'⟩ := decode_on brands .never r' log'
  have hsame : ((decoder brands).decode .never ⟨r, 0, log⟩).2.checks =
      ((decoder brands).decode .never ⟨r', 0, log'⟩).2.checks :=
    hchecks.trans (h.2.trans hchecks'.symm)
  have hcut := (decoder_heeds brands).run stop ⟨r, 0, log⟩
  have hcut' := (decoder_heeds brands).run stop ⟨r', 0, log'⟩
  refine ⟨fun info => ?_, hcut.checks_congr hcut' hsame⟩
  have hok {τ : Type} [ByteReader τ] (x : τ) (log : List Note) {f : Findings}
      (hf : (topOn brands .never (.ofBrands brands) (tape x) 0).1.2 = f) :
      ((decoder brands).decode .never ⟨x, 0, log⟩).1 = .ok info ↔
        f.isKnown = true ∧ info = ⟨f.errorFormat, (best f.extents).1, (best f.extents).2⟩ := by
    have huntold := (walk_heeds brands).untold (⟨tape x, 0, []⟩ : Session Tape)
    rw [(decode_on brands .never x log).1, ← hf]
    exact verdict_ok_iff huntold info
  have hreported : ((decoder brands).decode .never ⟨r, 0, log⟩).1 = .ok info ↔
      ((decoder brands).decode .never ⟨r', 0, log'⟩).1 = .ok info :=
    (hok r log h.1).trans (hok r' log' rfl).symm
  rw [Decoder.decode, Decoder.decode, hcut.ok_iff info, hcut'.ok_iff info]
  exact and_congr hreported (Iff.of_eq (congrArg _ hsame))

/-- However the sizes of the boxes in it are written, with four bytes or with eight, an outline
decodes to the same result after the same checks. Its last box may as well run to the end of the
data, if it is not the file type: the same images are reported then, after the same checks. -/
theorem decode_written {o : Outline} {ps ps' : List Parcel} (h : o.Written ps) (h' : o.Written ps')
    (brands : BrandRule) (stop : Stop) (r : ρ) (r' : σ) (log log' : List Note) :
    let out := (decoder brands).decode stop ⟨r, 0, log⟩
    let out' := (decoder brands).decode stop ⟨r', 0, log'⟩
    (∀ e, tape r = ⟨ps.flatMap Parcel.bytes, e⟩ → tape r' = ⟨ps'.flatMap Parcel.bytes, e⟩ →
        out.1 = out'.1 ∧ out.2.checks = out'.2.checks) ∧
      ∀ qs p, ps' = qs ++ [p] → p.name ≠ ascii "ftyp" → tape r = ⟨ps.flatMap Parcel.bytes, none⟩ →
        tape r' = ⟨qs.flatMap Parcel.bytes ++ p.opened, none⟩ →
        (∀ info, out.1 = .ok info ↔ out'.1 = .ok info) ∧ out.2.checks = out'.2.checks := by
  intro out out'
  have hforms (stop : Stop) (e : Option Fault) : AgreeBy id
      (topOn brands stop (.ofBrands brands) ⟨ps.flatMap Parcel.bytes, e⟩ 0)
      (topOn brands stop (.ofBrands brands) ⟨ps'.flatMap Parcel.bytes, e⟩ 0) := by
    have hsame := h.interchangeable h' maxDepth 0 _ (boxwise_topOn brands stop)
      (.ofBrands brands) ⟨[], e⟩ 0
    rwa [List.append_nil, List.append_nil] at hsame
  constructor
  · intro e hr hr'
    obtain ⟨hout, hchecks⟩ := decode_on brands stop r log
    obtain ⟨hout', hchecks'⟩ := decode_on brands stop r' log'
    have hagree := hforms stop e
    rw [← hr, ← hr'] at hagree
    constructor
    · exact hout.trans ((congrArg verdict hagree.1).trans hout'.symm)
    · exact hchecks.trans (hagree.2.trans hchecks'.symm)
  · rintro qs p rfl hftyp hr hr'
    have hp : p.Fits := h'.fits p (List.mem_append_right _ (List.mem_singleton.2 rfl))
    have hqs : ∀ q ∈ qs, q.Fits := fun q hq => h'.fits q (List.mem_append_left _ hq)
    have hclosed := hforms .never none
    rw [List.flatMap_append, List.flatMap_singleton] at hclosed
    have hagree := hclosed.weaken.trans
      (topOn_behind hqs (opened_findings brands .never hp hftyp) (.ofBrands brands) 0)
    rw [← hr, ← hr'] at hagree
    exact decode_of_findings hagree stop log log'

theorem decode_written_nested :
    let size := (sizeParcel 20 30).payload
    let o : Outline := .leaf (ascii "ftyp") heicParcel.payload <|
      .group (ascii "meta") [0, 0, 0, 0]
        (.group (ascii "iprp") [] (.group (ascii "ipco") [] (.leaf (ascii "ispe") size .nil) .nil)
          .nil) .nil
    let first (wide : Bool) : Parcel := ⟨wide, ascii "ftyp", heicParcel.payload⟩
    let last (wide : Bool) : Parcel := around wide (ascii "meta") [0, 0, 0, 0]
      [around (!wide) (ascii "iprp") [] [around wide (ascii "ipco") [] [⟨!wide, ascii "ispe", size⟩]]]
    let shown (bs : Bytes) :=
      ((decoder heifBrands).decode .never (⟨⟨bs, none⟩, 0, []⟩ : Session Tape)).1
    (∀ wide, o.Written [first wide, last wide]) ∧
      shown ([first false, last false].flatMap Parcel.bytes) = .ok ⟨.heic, 20, 30⟩ ∧
      shown ([first true, last true].flatMap Parcel.bytes) = .ok ⟨.heic, 20, 30⟩ ∧
      shown ([first true].flatMap Parcel.bytes ++ (last true).opened) = .ok ⟨.heic, 20, 30⟩ := by
  intro size o first last shown
  have hwritten (wide : Bool) : o.Written [first wide, last wide] := by
    cases wide <;>
      exact .leaf _ (by decide +kernel) <| .group _ (.metadata rfl)
        (.group _ (.properties (.inl rfl))
          (.group _ (.properties (.inr rfl)) (.leaf _ (by decide +kernel) .nil)
            (by decide +kernel) .nil)
          (by decide +kernel) .nil)
        (by decide +kernel) .nil
  have hnarrow : shown ([first false, last false].flatMap Parcel.bytes) = .ok ⟨.heic, 20, 30⟩ := by
    decide +kernel
  have hname : (last true).name ≠ ascii "ftyp" := by decide
  refine ⟨hwritten, hnarrow, ?_, ?_⟩
  · have hforms := (decode_written (hwritten false) (hwritten true) heifBrands .never
      (Tape.mk ([first false, last false].flatMap Parcel.bytes) none)
      (Tape.mk ([first true, last true].flatMap Parcel.bytes) none) [] []).1 none rfl rfl
    exact hforms.1.symm.trans hnarrow
  · have hopened := (decode_written (hwritten false) (hwritten true) heifBrands .never
      (Tape.mk ([first false, last false].flatMap Parcel.bytes) none)
      (Tape.mk ([first true].flatMap Parcel.bytes ++ (last true).opened) none) [] []).2
      [first true] (last true) rfl hname rfl rfl
    exact (hopened.1 ⟨.heic, 20, 30⟩).1 hnarrow

end Heif

end ImageProbe
