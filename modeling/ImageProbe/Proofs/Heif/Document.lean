import ImageProbe.Proofs.Heif.Forest

namespace ImageProbe

open Box ByteReader

namespace Heif

def quads : Nat → Bytes → List Bytes
  | 0, _ => []
  | n + 1, bs => bs.take 4 :: quads n (bs.drop 4)

/-- The brands that a file type names: the major one, and after its version the compatible ones. -/
def brandsOf (payload : Bytes) : List Bytes :=
  payload.take 4 :: quads ((payload.length - 8) / 4) (payload.drop 8)

/-- A file with all its boxes closed: the file type, boxes of no interest, and the metadata, which
is a version and a forest. -/
structure Document where
  fileType : Parcel
  between : List Parcel
  wide : Bool
  version : Bytes
  forest : Forest

namespace Document

def metadata (d : Document) : Parcel := ⟨d.wide, ascii "meta", d.version ++ d.forest.bytes⟩

def bytes (d : Document) : Bytes :=
  d.fileType.bytes ++ (d.between.flatMap Parcel.bytes ++ d.metadata.bytes)

def format? (d : Document) (brands : BrandRule) : Option ImageFormat :=
  (brandsOf d.fileType.payload).findSome? brands.format?

structure Sound (d : Document) : Prop where
  fileType : d.fileType.Fits
  name : d.fileType.name = ascii "ftyp"
  room : 8 ≤ d.fileType.payload.length
  between : ∀ p ∈ d.between, p.Fits ∧ p.name ∉ heeded
  metadata : d.metadata.Fits
  version : d.version.length = 4
  forest : d.forest.Sound
  levels : d.forest.levels ≤ maxDepth

def outcome (d : Document) (format : ImageFormat) : Outcome :=
  let f := Findings.after ⟨some format, []⟩ d.forest.marks
  (if f.isKnown then .ok () else refusal f .metaWithoutDimensions, f)

def meaning (d : Document) (format : ImageFormat) : Except ProbeError ImageInfo :=
  let found := scan (d.forest.marks.foldl Mark.collect [])
  if Positive found then .ok ⟨format, found.1, found.2⟩
  else .error (.malformed format .metaWithoutDimensions)

end Document

open Reading

variable {brands : BrandRule} {children : Children} {p : Parcel} {f : Findings}

theorem compatibleFormat_gives (brands : BrandRule) {n : Nat} {bs : Bytes} (h : 4 * n ≤ bs.length) :
    ∃ t, (compatibleFormat brands n).Gives ⟨bs, none⟩ ((quads n bs).findSome? brands.format?) t := by
  induction n generalizing bs with
  | zero => exact ⟨_, .pure none _⟩
  | succ n ih =>
    have hbrand := Gives.first (show 4 ≤ bs.length by omega) none
    rw [quads, List.findSome?_cons]
    cases hb : brands.format? (bs.take 4) with
    | some format =>
      refine ⟨⟨bs.drop 4, none⟩, Gives.bind hbrand ?_⟩
      simp only [hb]
      exact .pure _ _
    | none =>
      have hrest : 4 * n ≤ (bs.drop 4).length := by
        rw [List.length_drop]
        omega
      obtain ⟨t, ht⟩ := ih hrest
      refine ⟨t, Gives.bind hbrand ?_⟩
      simp only [hb]
      exact ht

theorem fileType_gives {header : Header} {format : ImageFormat}
    (hp : header.payload = p.payload.length) (room : 8 ≤ p.payload.length)
    (hformat : (brandsOf p.payload).findSome? brands.format? = some format) :
    ∃ t, (fileType brands header f).Gives ⟨p.payload, none⟩ { f with format := some format } t := by
  have hneeds : (needs f header 8 .fileTypeTooShort).Gives ⟨p.payload, none⟩ () ⟨p.payload, none⟩ :=
    Gives.require _ (decide_eq_true (hp ▸ room)) _ _
  have hmajor := Gives.first (show 4 ≤ p.payload.length by omega) none
  rw [brandsOf, List.findSome?_cons] at hformat
  cases hb : brands.format? (p.payload.take 4) with
  | some major =>
    rw [hb] at hformat
    cases hformat
    refine ⟨⟨p.payload.drop 4, none⟩, Gives.bind hneeds (Gives.bind hmajor ?_)⟩
    simp only [hb]
    exact .pure _ _
  | none =>
    simp only [hb] at hformat
    have hversion := Gives.skip_at p.payload 4 4 (by omega) none
    have hquads : 4 * ((p.payload.length - 8) / 4) ≤ (p.payload.drop 8).length := by
      rw [List.length_drop]
      omega
    obtain ⟨t, ht⟩ := compatibleFormat_gives brands hquads
    rw [hformat, ← hp] at ht
    refine ⟨t, Gives.bind hneeds (Gives.bind hmajor ?_)⟩
    simp only [hb]
    exact Gives.bind hversion (Gives.bind ht (.pure _ _))

theorem look_fileType {format : ImageFormat} (hname : p.name = ascii "ftyp")
    (room : 8 ≤ p.payload.length)
    (hformat : (brandsOf p.payload).findSome? brands.format? = some format) :
    ((lookInto brands children p.header f).eval ⟨p.payload, none⟩).1 =
      .more { f with format := some format } := by
  obtain ⟨t, ht⟩ := fileType_gives (f := f) p.header_payload room hformat
  rw [lookInto_fileType (p.header_name.trans hname)]
  exact eval_reading ht

theorem look_metadata {d : Document} (hd : d.Sound) (format : ImageFormat) :
    ((lookInto brands (enclosed 0 (level brands maxDepth)) d.metadata.header ⟨some format, []⟩).eval
      ⟨d.metadata.payload, none⟩).1 = .done (d.outcome format) := by
  generalize hf : (⟨some format, []⟩ : Findings) = f
  have hlen : d.metadata.header.payload = 4 + d.forest.bytes.length := by
    rw [Parcel.header_payload, Document.metadata, List.length_append, hd.version]
  have hversion : (do needs f d.metadata.header 4 .metaTooShort; skip 4 : Reading Unit).Gives
      ⟨d.metadata.payload, none⟩ () ⟨d.forest.bytes, none⟩ := by
    apply Gives.bind (Gives.require _ (decide_eq_true (hlen ▸ Nat.le_add_right _ _)) _ _)
    exact Gives.skip hd.version none
  have hinside : ((if d.metadata.header.payload = 4 then pure (.ok (), f)
      else enclosed 0 (level brands maxDepth) (d.metadata.header.payload - 4) f).eval
        ⟨d.forest.bytes, none⟩).1 = (.ok (), f.after d.forest.marks) := by
    by_cases hempty : d.forest.bytes.length = 0
    · rw [hlen, hempty, if_pos rfl]
      rw [Forest.eq_nil hd.forest hempty]
      rfl
    · rw [hlen, if_neg (by omega), Nat.add_sub_cancel_left]
      exact eval_enclosed (level_forest hd.forest hd.levels f)
  have hname : d.metadata.header.name = ascii "meta" := Parcel.header_name _
  rw [lookInto_metadata hname, Script.eval, Script.eval_map, metadata, Script.eval_bind]
  rw [Gives] at hversion
  rw [hversion]
  simp only [Script.eval_bind, hinside]
  rw [Document.outcome, hf]
  rfl

variable {ρ : Type} [ByteReader ρ]

def turn (brands : BrandRule) (f : Findings) : Script (Step Findings Outcome) :=
  .fetch headLength fun haul =>
    if haul.bytes.length < headLength then .done (.done (levelEnd haul.shortage, f))
    else box brands (enclosed 0 (level brands maxDepth)) (Findings.ofBrands brands).errorFormat
      haul.bytes f

theorem eval_turn (hp : p.Fits) (f : Findings) (t : Tape) :
    (turn brands f).eval ⟨p.bytes ++ t.bytes, t.ending⟩ =
      (box brands (enclosed 0 (level brands maxDepth)) (Findings.ofBrands brands).errorFormat p.head
        f).eval ⟨p.tail ++ t.bytes, t.ending⟩ := by
  obtain ⟨hhaul, hdrop⟩ := haul_bytes hp t
  have hlen : ¬ p.head.length < headLength := by
    rw [Parcel.length_head hp]
    exact Nat.lt_irrefl _
  rw [turn, Script.eval, hhaul, hdrop, if_neg hlen]

theorem turn_more (hp : p.Fits) {f f' : Findings}
    (hlook : ((lookInto brands (enclosed 0 (level brands maxDepth)) p.header f).eval
      ⟨p.payload, none⟩).1 = .more f') {s : Session ρ} {t : Tape}
    (hs : tape s.reader = ⟨p.bytes ++ t.bytes, t.ending⟩) :
    ∃ s' : Session ρ, tape s'.reader = t ∧
      (walk brands).runFrom .never f s = (walk brands).runFrom .never f' s' := by
  have hturn : (turn brands f).eval (tape s.reader) = (.more f', t) := by
    rw [hs, eval_turn hp, box_more hp hlook]
  exact ⟨_, Walk.runFrom_more hturn⟩

theorem turn_done (hp : p.Fits) {f : Findings} {o : Outcome}
    (hlook : ((lookInto brands (enclosed 0 (level brands maxDepth)) p.header f).eval
      ⟨p.payload, none⟩).1 = .done o) {s : Session ρ} {t : Tape}
    (hs : tape s.reader = ⟨p.bytes ++ t.bytes, t.ending⟩) :
    ((walk brands).runFrom .never f s).1 = o := by
  have hturn : ((turn brands f).eval (tape s.reader)).1 = .done o := by
    rw [hs, eval_turn hp, box_done hp hlook]
  exact congrArg Prod.fst (Walk.runFrom_done (w := walk brands) hturn)

/-- How far the walk comes in boxes that are all there: through all of them, or to one that ends
it. -/
def through (brands : BrandRule) : List Parcel → Findings → Step Findings Outcome
  | [], f => .more f
  | p :: ps, f =>
    match ((lookInto brands (enclosed 0 (level brands maxDepth)) p.header f).eval
      ⟨p.payload, none⟩).1 with
    | .more f' => through brands ps f'
    | .done o => .done o

theorem runFrom_through (brands : BrandRule) {ps : List Parcel} (hps : ∀ p ∈ ps, p.Fits)
    (f : Findings) {s : Session ρ} {t : Tape}
    (hs : tape s.reader = ⟨ps.flatMap Parcel.bytes ++ t.bytes, t.ending⟩) :
    match through brands ps f with
    | .more f' => ∃ s' : Session ρ,
      tape s'.reader = t ∧ (walk brands).runFrom .never f s = (walk brands).runFrom .never f' s'
    | .done o => ((walk brands).runFrom .never f s).1 = o := by
  induction ps generalizing f s with
  | nil => exact ⟨s, hs, rfl⟩
  | cons p ps ih =>
    have hp := hps p List.mem_cons_self
    rw [List.flatMap_cons, List.append_assoc] at hs
    rw [through]
    rcases hlook : ((lookInto brands (enclosed 0 (level brands maxDepth)) p.header f).eval
      ⟨p.payload, none⟩).1 with f' | o
    · obtain ⟨s', hs', hrun⟩ :=
        turn_more (t := ⟨ps.flatMap Parcel.bytes ++ t.bytes, t.ending⟩) hp hlook hs
      rw [hrun]
      exact ih (fun q hq => hps q (List.mem_cons_of_mem p hq)) f' hs'
    · exact turn_done (t := ⟨ps.flatMap Parcel.bytes ++ t.bytes, t.ending⟩) hp hlook hs

theorem through_between {ps : List Parcel} (hps : ∀ p ∈ ps, p.name ∉ heeded) (f : Findings) :
    through brands ps f = .more f := by
  induction ps with
  | nil => rfl
  | cons p ps ih =>
    have hname := hps p List.mem_cons_self
    have hlook : ((lookInto brands (enclosed 0 (level brands maxDepth)) p.header f).eval
        ⟨p.payload, none⟩).1 = .more (f.after []) := by
      rw [← marks_other hname]
      exact look_plain (.other hname)
    rw [through, hlook]
    exact ih fun q hq => hps q (List.mem_cons_of_mem p hq)

theorem walk_between {ps : List Parcel} (hps : ∀ p ∈ ps, p.Fits ∧ p.name ∉ heeded) (f : Findings)
    {s : Session ρ} {t : Tape}
    (hs : tape s.reader = ⟨ps.flatMap Parcel.bytes ++ t.bytes, t.ending⟩) :
    ∃ s' : Session ρ, tape s'.reader = t ∧
      (walk brands).runFrom .never f s = (walk brands).runFrom .never f s' := by
  have hrun := runFrom_through brands (fun p hp => (hps p hp).1) f hs
  rwa [through_between (fun p hp => (hps p hp).2) f] at hrun

theorem walk_document {d : Document} (hd : d.Sound) {format : ImageFormat}
    (hformat : d.format? brands = some format) {s : Session ρ} {t : Tape}
    (hs : tape s.reader = ⟨d.bytes ++ t.bytes, t.ending⟩) :
    ((walk brands).run .never s).1 = d.outcome format := by
  change ((walk brands).runFrom .never (.ofBrands brands) s).1 = _
  have hfileType : ((lookInto brands (enclosed 0 (level brands maxDepth)) d.fileType.header
      (.ofBrands brands)).eval ⟨d.fileType.payload, none⟩).1 = .more ⟨some format, []⟩ :=
    look_fileType hd.name hd.room hformat
  rw [Document.bytes, List.append_assoc, List.append_assoc] at hs
  obtain ⟨s₁, hs₁, hrun₁⟩ := turn_more (t := ⟨_, t.ending⟩) hd.fileType hfileType hs
  obtain ⟨s₂, hs₂, hrun₂⟩ := walk_between (t := ⟨_, t.ending⟩) hd.between ⟨some format, []⟩ hs₁
  rw [hrun₁, hrun₂]
  exact turn_done hd.metadata (look_metadata hd format) hs₂

theorem verdict_outcome (d : Document) (format : ImageFormat) :
    verdict (d.outcome format) = d.meaning format := by
  let f := Findings.after ⟨some format, []⟩ d.forest.marks
  change verdict (if f.isKnown then .ok () else refusal f .metaWithoutDimensions, f) = _
  have hformat : f.format = some format := Findings.after_format _ _
  have herror : f.errorFormat = format := by rw [Findings.errorFormat, hformat]; rfl
  have hbest : best f.extents = scan (d.forest.marks.foldl Mark.collect []) := by
    rw [← scan_reverse, Findings.after_extents]
    rfl
  have hknown : f.isKnown = true ↔ Positive (best f.extents) := by
    rw [Findings.isKnown_iff_positive, hformat]
    exact and_iff_right rfl
  rw [Document.meaning, ← hbest]
  by_cases hpos : Positive (best f.extents)
  · rw [if_pos (hknown.2 hpos), if_pos hpos, ← herror]
    exact answer_of_known (hknown.2 hpos)
  · rw [if_neg (mt hknown.1 hpos), if_neg hpos, ← herror]
    exact if_neg (not_or.2 ⟨mt hknown.1 hpos, nofun⟩)

theorem decode_outcome {d : Document} (hd : d.Sound) {format : ImageFormat}
    (hformat : d.format? brands = some format) (s : Session ρ) (further : Bytes)
    (hs : (tape s.reader).bytes = d.bytes ++ further) :
    ((decoder brands).decode .never s).1 = verdict (d.outcome format) := by
  have htape : tape s.reader = ⟨d.bytes ++ further, (tape s.reader).ending⟩ := by rw [← hs]
  rw [decode_eq, walk_document (t := ⟨further, (tape s.reader).ending⟩) hd hformat htape]

/-- A document is decoded to what its marks come to, whatever follows it, unless a check stops the
run. -/
theorem decode_document {d : Document} (hd : d.Sound) {format : ImageFormat}
    (hformat : d.format? brands = some format) (stop : Stop) (s : Session ρ) (further : Bytes)
    (hs : (tape s.reader).bytes = d.bytes ++ further) :
    ((decoder brands).decode stop s).1 = d.meaning format ∨
      ∃ i why, stop i = some why ∧ ((decoder brands).decode stop s).1 = .error (.stopped why) := by
  rw [← verdict_outcome]
  exact ((decoder_heeds brands).run_result stop (decode_outcome hd hformat s further hs)).symm

def picture : Document where
  fileType := ⟨false, ascii "ftyp", ascii "mif1" ++ [0, 0, 0, 0] ++ ascii "avif"⟩
  between := [⟨true, ascii "free", [1, 2, 3]⟩]
  wide := true
  version := [0, 0, 0, 0]
  forest :=
    .leaf ⟨false, ascii "hdlr", [0, 0, 0, 0, 0, 0, 0, 0] ++ ascii "pict"⟩ <|
    .group false (ascii "iprp")
      (.group true (ascii "ipco")
        (.leaf ⟨false, ascii "ispe", [0, 0, 0, 0, 0, 0, 1, 2, 0, 0, 0, 3]⟩ .nil) <|
      .leaf ⟨false, ascii "irot", [5, 9]⟩ .nil) <|
    .leaf ⟨false, ascii "ispe", [0, 0, 0, 0, 0, 0, 0, 2, 0, 0, 0, 2, 7]⟩ .nil

theorem picture_sound : picture.Sound where
  fileType := by decide
  name := rfl
  room := by decide
  between := by decide
  metadata := by decide +kernel
  version := rfl
  forest := by decide +kernel
  levels := by decide

theorem decode_picture :
    let s : Session Source :=
      ⟨⟨⟨picture.bytes ++ [0, 0, 0], none⟩, fun _ => 1, fun _ => some 1, 0, 0, 0⟩, 0, []⟩
    picture.Sound ∧ picture.format? heifBrands = some .avif ∧
      ((decoder heifBrands).decode .never s).1 = .ok ⟨.avif, 3, 258⟩ := by
  intro s
  have hformat : picture.format? heifBrands = some .avif := by decide +kernel
  refine ⟨picture_sound, hformat, ?_⟩
  rcases decode_document picture_sound hformat .never s [0, 0, 0] rfl with h | ⟨i, why, hi, -⟩
  · exact h.trans (by decide +kernel)
  · exact nomatch hi

end Heif

end ImageProbe
