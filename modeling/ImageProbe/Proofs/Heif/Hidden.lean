import ImageProbe.Proofs.Heif.Places

namespace ImageProbe

open Box ByteReader Reading

namespace Heif

/-- A handler that is not one of pictures, or too short to tell. -/
structure BadHandler (q : Parcel) : Prop where
  fits : q.Fits
  name : q.name = ascii "hdlr"
  bad : q.payload.length < 12 ∨ slice q.payload 8 4 ≠ ascii "pict"

/-- A box that holds boxes, with a bad handler among them. -/
structure Veil where
  wide : Bool
  name : Bytes
  version : Bytes
  before : Bytes
  handler : Parcel
  holds : Holds name version
  bad : BadHandler handler

def Veil.over (v : Veil) (hidden : Bytes) : Parcel :=
  ⟨v.wide, v.name, v.version ++ (v.before ++ (v.handler.bytes ++ hidden))⟩

variable {brands : BrandRule} {children : Children} {stop : Stop} {format : ImageFormat}
  {f f' : Findings} {q : Parcel}

theorem BadHandler.not_gives (hq : BadHandler q) (f : Findings) (t : Tape) :
    ¬ (handler q.header f).Gives ⟨q.payload, none⟩ () t := by
  intro h
  obtain ⟨_, t₁, hroom, h⟩ := Gives.of_bind h
  obtain ⟨hlong, rfl⟩ := Gives.of_require hroom
  rw [decide_eq_true_eq, Parcel.header_payload] at hlong
  obtain ⟨bs, t₂, hbs, h⟩ := Gives.of_bind h
  obtain ⟨-, rfl, -⟩ := Gives.of_exactly hbs
  rw [slice_take q.payload (by decide)] at h
  rcases hq.bad with hshort | hkind
  · omega
  · dsimp only at h
    rw [if_pos hkind] at h
    obtain ⟨_, t₃, -, h⟩ := Gives.of_bind h
    exact not_gives_refuse _ _ _ _ _ h

theorem BadHandler.heed (hq : BadHandler q) (f : Findings) (stop : Stop) (k : Nat) :
    ∃ left, ((handler q.header f).run >>= heed f).outcome stop ⟨q.payload, none⟩ k =
      (.done (.ok (), f), left, k) := by
  have hquiet : ((handler q.header f).run >>= Heif.heed f).Quiet :=
    Script.Quiet.bind (handler_quiet q.header) (heed_quiet f)
  rw [Script.outcome_of_checksOn stop (hquiet _), Script.eval_bind]
  rcases hout : (handler q.header f).run.eval ⟨q.payload, none⟩ with ⟨e | u, left⟩
  · exact ⟨left, rfl⟩
  · exact absurd hout (hq.not_gives f left)

theorem BadHandler.ends (hq : BadHandler q) (spare : Nat) (t : Tape) (k : Nat) :
    ∃ left, (levelWalk brands spare format).outcomeFrom stop f ⟨q.bytes ++ t.bytes, t.ending⟩ k =
      (((stop k).elim (.ok ()) fun why => .error (.stopped why), f), left, k + 1) := by
  have hname : q.header.name = ascii "hdlr" := (Parcel.header_name q).trans hq.name
  obtain ⟨left, hheed⟩ := hq.heed f stop (k + 1)
  rw [← boxesOn_walk, boxesOn_box hq.fits, lookInto_handler hname, Script.outcome_check]
  cases stop k with
  | none => exact ⟨_, congrArg (fun out => Walk.follow _ (passed t out)) hheed⟩
  | some why => exact ⟨_, rfl⟩

theorem BadHandler.agree (hq : BadHandler q) {spare : Nat} {before rest : Bytes} {e e' : Option Fault}
    (h : (levelWalk brands spare format).Reaches f ⟨before ++ (q.bytes ++ rest), e⟩ f'
      ⟨q.bytes ++ rest, e'⟩) (t t' : Tape) (k : Nat) :
    AgreeBy id
      ((levelWalk brands spare format).outcomeFrom stop f
        ⟨before ++ (q.bytes ++ t.bytes), t.ending⟩ k)
      ((levelWalk brands spare format).outcomeFrom stop f
        ⟨before ++ (q.bytes ++ t'.bytes), t'.ending⟩ k) := by
  have hthere (k : Nat) : AgreeBy id
      ((levelWalk brands spare format).outcomeFrom stop f' ⟨q.bytes ++ t.bytes, t.ending⟩ k)
      ((levelWalk brands spare format).outcomeFrom stop f' ⟨q.bytes ++ t'.bytes, t'.ending⟩ k) := by
    obtain ⟨left, hends⟩ := hq.ends spare t k
    obtain ⟨left', hends'⟩ := hq.ends spare t' k
    rw [hends, hends']
    exact ⟨rfl, rfl⟩
  exact AgreeBy.reaches (levelWalk_heeds brands spare format) h
    (Parcel.bytes_append_ne_nil hq.fits rest) hthere k

namespace Veil

variable {v : Veil} {hidden hidden' : Bytes} {spare : Nat}

theorem over_payload (v : Veil) (hidden : Bytes) : (v.over hidden).header.payload =
    v.version.length + (v.before ++ (v.handler.bytes ++ hidden)).length := by
  rw [Parcel.header_payload]
  exact List.length_append

theorem over_payload_ne (v : Veil) (hidden : Bytes) :
    (v.over hidden).header.payload ≠ v.version.length := by
  have hlen := Parcel.length_bytes v.bad.fits
  rw [headLength] at hlen
  rw [over_payload]
  simp only [List.length_append]
  omega

theorem over_fits (hfits : (v.over hidden).Fits) (h : hidden'.length ≤ hidden.length) :
    (v.over hidden').Fits := by
  refine hfits.of_shorter ?_
  simp only [List.length_append]
  omega

theorem over_length (v : Veil) (h : hidden'.length = hidden.length) :
    (v.over hidden').bytes.length = (v.over hidden).bytes.length := by
  refine Parcel.length_bytes_congr v.wide v.name ?_
  simp only [List.length_append, h]

theorem over_agree
    (h : (levelWalk brands spare f.errorFormat).Reaches f ⟨v.before ++ (v.handler.bytes ++ hidden), none⟩
      f' ⟨v.handler.bytes ++ hidden, none⟩)
    (hfits : (v.over hidden).Fits) (hfits' : (v.over hidden').Fits) (t : Tape) (k : Nat) :
    AgreeBy id
      ((levelWalk brands (spare + 1) format).outcomeFrom stop f
        ⟨(v.over hidden).bytes ++ t.bytes, t.ending⟩ k)
      ((levelWalk brands (spare + 1) format).outcomeFrom stop f
        ⟨(v.over hidden').bytes ++ t.bytes, t.ending⟩ k) := by
  have hpayload := v.over_payload
  have hempty := v.over_payload_ne
  rw [← boxesOn_walk, boxesOn_box hfits, boxesOn_box hfits']
  refine AgreeBy.follow ?_ fun f k => .of_eq rfl
  apply holder_agree v.holds (Parcel.header_name _) (Parcel.header_name _)
  · exact Nat.le_of_eq (hpayload hidden).symm
  · exact Nat.le_of_eq (hpayload hidden').symm
  · intro hversion
    rw [← hversion]
    exact iff_of_false (hempty hidden) (hempty hidden')
  · exact v.bad.agree h ⟨hidden, none⟩ ⟨hidden', none⟩

end Veil

variable {ρ σ : Type} [ByteReader ρ] [ByteReader σ]

theorem decode_agree {s : Session ρ} {s' : Session σ}
    (h : AgreeBy id ((Place.top brands (tape s.reader)).showing brands stop s.checks)
      ((Place.top brands (tape s'.reader)).showing brands stop s'.checks)) :
    ((decoder brands).decode stop s).1 = ((decoder brands).decode stop s').1 ∧
      ((decoder brands).decode stop s).2.checks = ((decoder brands).decode stop s').2.checks := by
  rw [Place.showing_top, Place.showing_top] at h
  apply AgreeBy.decode
  rw [outcome_decoder, outcome_decoder]
  exact ⟨congrArg verdict h.1, h.2⟩

/-- Bytes behind a bad handler, up to the end of the box around it, wherever that box is: as many
others in their place do not show, and the level around the box goes on as if it had ended with the
handler. -/
theorem hidden_replaced (v : Veil) {hidden : Bytes} (hfits : (v.over hidden).Fits) {spare : Nat}
    (meets : (levelWalk brands spare f.errorFormat).Reaches f
      ⟨v.before ++ (v.handler.bytes ++ hidden), none⟩ f' ⟨v.handler.bytes ++ hidden, none⟩)
    {s : Session ρ} {front tail behind : Bytes} {e e' : Option Fault}
    (hs : tape s.reader = ⟨front ++ ((v.over hidden).bytes ++ tail), e⟩)
    (leads : Place.Leads brands (.top brands (tape s.reader)) front
      ⟨spare + 1, format, f, ⟨(v.over hidden).bytes ++ behind, e'⟩⟩) :
    (∀ (stop : Stop) (s' : Session σ) (hidden' : Bytes), hidden'.length = hidden.length →
        tape s'.reader = ⟨front ++ ((v.over hidden').bytes ++ tail), e⟩ → s'.checks = s.checks →
        ((decoder brands).decode stop s).1 = ((decoder brands).decode stop s').1 ∧
          ((decoder brands).decode stop s).2.checks = ((decoder brands).decode stop s').2.checks) ∧
      ∀ (stop : Stop) (t : Tape) (k : Nat), AgreeBy id
        ((levelWalk brands (spare + 1) format).outcomeFrom stop f
          ⟨(v.over hidden).bytes ++ t.bytes, t.ending⟩ k)
        ((levelWalk brands (spare + 1) format).outcomeFrom stop f
          ⟨(v.over []).bytes ++ t.bytes, t.ending⟩ k) := by
  constructor
  · intro stop s' hidden' hlength hs' hchecks
    obtain ⟨rest, hbytes, hsame⟩ := leads.surrounds
    have htail : tail = behind ++ rest := by
      change (tape s.reader).bytes = _ at hbytes
      rw [hs, List.append_assoc] at hbytes
      exact List.append_cancel_left (List.append_cancel_left hbytes)
    have hnumber : ((v.over hidden').bytes ++ behind).length =
        ((v.over hidden).bytes ++ behind).length := by
      rw [List.length_append, List.length_append, v.over_length hlength]
    have hfits' := Veil.over_fits hfits (Nat.le_of_eq hlength)
    have hagree := hsame stop _ hnumber (Veil.over_agree meets hfits hfits' ⟨behind, e'⟩) s.checks
    apply decode_agree
    rw [hs', hchecks, htail, ← List.append_assoc _ behind rest]
    rw [hs] at hagree ⊢
    exact hagree
  · intro stop t k
    exact Veil.over_agree meets hfits (Veil.over_fits hfits (Nat.zero_le _)) t k

def shortHandler : Parcel := ⟨true, ascii "hdlr", [0, 0, 0]⟩

theorem shortHandler_bad : BadHandler shortHandler := ⟨by decide, rfl, .inl (by decide)⟩

def shortProperties : Veil where
  wide := false
  name := ascii "iprp"
  version := []
  before := (sizeParcel 10 30).bytes
  handler := shortHandler
  holds := .properties (.inl rfl)
  bad := shortHandler_bad

def turned (hidden : Bytes) : Tape where
  bytes := heicParcel.bytes ++ (toBigEndian 4 0 ++ ascii "meta" ++ [0, 0, 0, 0]) ++
    ((shortProperties.over hidden).bytes ++ ([0, 0, 0, 9] ++ ascii "irot" ++ [1]))
  ending := none

theorem turned_leads {hidden : Bytes} (hroom : (turned hidden).bytes.length ≤ range32) :
    Place.Leads heifBrands (.top heifBrands (turned hidden))
      (heicParcel.bytes ++ (toBigEndian 4 0 ++ ascii "meta" ++ [0, 0, 0, 0]))
      ⟨15, .heic, ⟨some .heic, []⟩,
        ⟨(shortProperties.over hidden).bytes ++ ([0, 0, 0, 9] ++ ascii "irot" ++ [1]), none⟩⟩ := by
  have hformat : (brandsOf heicParcel.payload).findSome? heifBrands.format? = some .heic := by decide
  have hmeta : Holds (ascii "meta") [0, 0, 0, 0] := .metadata rfl
  have hopen : range32 ≤ openSize - headLength := by decide
  rw [turned] at hroom ⊢
  generalize (shortProperties.over hidden).bytes ++ ([0, 0, 0, 9] ++ ascii "irot" ++ [1]) = bs
    at hroom ⊢
  let rest : Tape := ⟨toBigEndian 4 0 ++ ascii "meta" ++ ([0, 0, 0, 0] ++ bs), none⟩
  have hfirst : (levelWalk heifBrands maxDepth .heic).Reaches (.ofBrands heifBrands)
      ⟨heicParcel.bytes ++ rest.bytes, none⟩ ⟨some .heic, []⟩ rest :=
    levelWalk_passes (by decide) (look_fileType rfl (by decide) hformat) rest
  have hinside : ([0, 0, 0, 0] ++ bs).length ≤ openSize - headLength := by
    simp only [List.length_append] at hroom ⊢
    omega
  exact .along hfirst (.into_open heifBrands hmeta 15 .heic ⟨some .heic, []⟩ hinside)

theorem hidden_replaced_turned :
    let size := (sizeParcel 20 40).bytes
    let junk : Bytes := List.replicate 20 255
    (shortProperties.over size).Fits ∧
      ((decoder heifBrands).decode .never ⟨turned size, 0, []⟩).1 = .ok ⟨.heic, 30, 10⟩ ∧
      ((decoder heifBrands).decode .never ⟨turned junk, 0, []⟩).1 = .ok ⟨.heic, 30, 10⟩ := by
  intro size junk
  have hfits : (shortProperties.over size).Fits := by decide +kernel
  have hmeets : (levelWalk heifBrands 14 .heic).Reaches ⟨some .heic, []⟩
      ⟨(sizeParcel 10 30).bytes ++ (shortHandler.bytes ++ size), none⟩
      ⟨some .heic, [(10, 30)]⟩ ⟨shortHandler.bytes ++ size, none⟩ :=
    levelWalk_passes (by decide) (look_plain (.size rfl (by decide)))
      ⟨shortHandler.bytes ++ size, none⟩
  have hroom : (turned size).bytes.length ≤ range32 := by decide +kernel
  have hturned : ((decoder heifBrands).decode .never ⟨turned size, 0, []⟩).1 =
      .ok ⟨.heic, 30, 10⟩ := by decide +kernel
  obtain ⟨hreplaced, -⟩ := hidden_replaced (ρ := Tape) (σ := Tape) shortProperties hfits hmeets
    (s := ⟨turned size, 0, []⟩) rfl (turned_leads hroom)
  obtain ⟨hsame, -⟩ := hreplaced .never ⟨turned junk, 0, []⟩ junk rfl rfl rfl
  exact ⟨hfits, hturned, hsame.symm.trans hturned⟩

end Heif

end ImageProbe
