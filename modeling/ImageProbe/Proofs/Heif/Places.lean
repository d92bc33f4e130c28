import ImageProbe.Proofs.Box.Opened
import ImageProbe.Proofs.Box.Replaced
import ImageProbe.Proofs.Heif.Outline

namespace ImageProbe

open Box

namespace Heif

/-- The boxes of a level that has so many levels to spare, one round each; the top level is
`walk`. -/
def levelWalk (brands : BrandRule) (spare : Nat) (format : ImageFormat) : Walk Outcome where
  State := Findings
  start := pure (.more (.ofBrands brands))
  reach _ := headLength - 1
  round f head := box brands (enclosed (maxDepth - spare) (level brands spare)) format head f
  close f e := pure (levelEnd e, f)

theorem levelWalk_heeds (brands : BrandRule) (spare : Nat) (format : ImageFormat) :
    (levelWalk brands spare format).Heeds Reported where
  start _ := id
  round f head := box_heeds (fun room f => enclosed_heeds (level_heeds brands _ room f) _) _ head f
  close f ending := levelEnd_untold ending f

variable {brands : BrandRule} {children : Children} {stop : Stop} {format : ImageFormat}
  {f f' : Findings}

theorem boxesOn_short {t : Tape} (h : t.bytes.length < headLength) (k : Nat) :
    boxesOn brands children format stop f t k =
      ((levelEnd (t.haul headLength).shortage, f), t.drop headLength, k) := by
  rw [boxesOn, Nat.div_eq_of_lt h, boxes, Script.outcome_fetch]
  rfl

theorem boxesOn_turn (spare : Nat) (f : Findings) (t : Tape) (k : Nat) :
    boxesOn brands (enclosed (maxDepth - spare) (level brands spare)) format stop f t k =
      Walk.follow (boxesOn brands (enclosed (maxDepth - spare) (level brands spare)) format stop)
        (((levelWalk brands spare format).turn f).outcome stop t k) := by
  rcases Nat.lt_or_ge t.bytes.length headLength with hshort | hlong
  · have hclose : ((levelWalk brands spare format).turn f).outcome stop t k = _ :=
      Walk.outcome_turn_short hshort k
    exact (boxesOn_short hshort k).trans (congrArg (Walk.follow _) hclose.symm)
  · obtain ⟨head, rest, hhead, rfl⟩ : ∃ (head : Bytes) (rest : Tape),
        head.length = headLength ∧ t = ⟨head ++ rest.bytes, rest.ending⟩ := by
      refine ⟨t.bytes.take headLength, t.drop headLength, List.length_take_of_le hlong, ?_⟩
      rw [Tape.drop, List.take_append_drop]
    have hround : ((levelWalk brands spare format).turn f).outcome stop _ k = _ :=
      Walk.outcome_turn hhead rest k
    exact (boxesOn_head hhead rest k).trans (congrArg (Walk.follow _) hround.symm)

theorem boxesOn_walk (brands : BrandRule) (stop : Stop) (spare : Nat) (format : ImageFormat) :
    boxesOn brands (enclosed (maxDepth - spare) (level brands spare)) format stop =
      (levelWalk brands spare format).outcomeFrom stop := by
  funext f t k
  exact (levelWalk brands spare format).outcomeFrom_unique (boxesOn_turn spare) f t k

theorem level_walk (stop : Stop) (spare room : Nat) (f : Findings) {t : Tape}
    (hroom : t.bytes.length ≤ room) (k : Nat) :
    (level brands (spare + 1) room f).outcome stop t k =
      (levelWalk brands spare f.errorFormat).outcomeFrom stop f t k := by
  rw [level_on spare room f hroom, boxesOn_walk]

theorem levelWalk_box {spare : Nat} {head : Bytes} {t t' : Tape} {h : Header}
    (hhead : head.length = headLength) (hgives : (Box.header format head).Gives t h t') (k : Nat) :
    (levelWalk brands spare format).outcomeFrom stop f ⟨head ++ t.bytes, t.ending⟩ k =
      Walk.follow ((levelWalk brands spare format).outcomeFrom stop)
        ((h.visit (fun f e => (.error e, f)) (lookInto brands
          (enclosed (maxDepth - spare) (level brands spare)) h f)).outcome stop t' k) := by
  rw [← boxesOn_walk, boxesOn_head hhead, box, Script.outcome_bind,
    outcome_of_gives stop (Header.quiet_header format head) hgives]
  rfl

theorem levelWalk_passes {p : Parcel} (hp : p.Fits) {spare : Nat}
    (hlook : ((lookInto brands (enclosed (maxDepth - spare) (level brands spare)) p.header f).eval
      ⟨p.payload, none⟩).1 = .more f') (t : Tape) :
    (levelWalk brands spare format).Reaches f ⟨p.bytes ++ t.bytes, t.ending⟩ f' t := by
  have hround : ((levelWalk brands spare format).turn f).eval ⟨p.bytes ++ t.bytes, t.ending⟩ =
      (.more f', t) := by
    rw [Parcel.bytes, List.append_assoc]
    exact (Walk.eval_turn (Parcel.length_head hp) ⟨p.tail ++ t.bytes, t.ending⟩).trans
      (box_more hp hlook t)
  exact .turn hround (.here _ _)

theorem levelWalk_replaced {spare : Nat} {head wide : Bytes} {inside inside' : Tape} {h : Header}
    (hhead : head.length = headLength) (hinside : inside.bytes ≠ [])
    (hgives : (Box.header format head).Gives ⟨wide ++ inside.bytes, inside.ending⟩ h inside)
    (hlength : inside.bytes.length = inside'.bytes.length)
    (hdrop : inside.drop h.payload = inside'.drop h.payload) {k : Nat}
    (hlook : AgreeBy id
      ((lookInto brands (enclosed (maxDepth - spare) (level brands spare)) h f).outcome stop
        (inside.clip h.payload) k)
      ((lookInto brands (enclosed (maxDepth - spare) (level brands spare)) h f).outcome stop
        (inside'.clip h.payload) k)) :
    AgreeBy id
      ((levelWalk brands spare format).outcomeFrom stop f
        ⟨head ++ (wide ++ inside.bytes), inside.ending⟩ k)
      ((levelWalk brands spare format).outcomeFrom stop f
        ⟨head ++ (wide ++ inside'.bytes), inside'.ending⟩ k) := by
  rw [levelWalk_box hhead hgives, levelWalk_box hhead (hgives.unread hinside inside')]
  exact AgreeBy.visit hlength hdrop hlook

theorem holder_agree {name version : Bytes} (holds : Holds name version) {h h' : Header}
    (hname : h.name = name) (hname' : h'.name = name) {bs bs' : Bytes} {e e' : Option Fault}
    (hroom : version.length + bs.length ≤ h.payload)
    (hroom' : version.length + bs'.length ≤ h'.payload)
    (hempty : version.length = 4 → (h.payload = 4 ↔ h'.payload = 4)) {spare : Nat}
    (hinner : ∀ k, AgreeBy id
      ((levelWalk brands spare f.errorFormat).outcomeFrom stop f ⟨bs, e⟩ k)
      ((levelWalk brands spare f.errorFormat).outcomeFrom stop f ⟨bs', e'⟩ k)) (depth k : Nat) :
    AgreeBy id
      ((lookInto brands (enclosed depth (level brands (spare + 1))) h f).outcome stop
        ⟨version ++ bs, e⟩ k)
      ((lookInto brands (enclosed depth (level brands (spare + 1))) h' f).outcome stop
        ⟨version ++ bs', e'⟩ k) := by
  have hbs : bs.length ≤ h.payload - version.length := by omega
  have hbs' : bs'.length ≤ h'.payload - version.length := by omega
  refine holds_agree holds hname hname' (by omega) (by omega) hempty (fun k => ?_) k
  refine enclosed_agree ?_ depth
  rw [level_walk stop spare _ f hbs, level_walk stop spare _ f hbs']
  exact hinner k

/-- Where the walk stands in a file: before these bytes of a level, with what it has found. -/
structure Place where
  spare : Nat
  format : ImageFormat
  found : Findings
  tape : Tape

namespace Place

def top (brands : BrandRule) (t : Tape) : Place :=
  ⟨maxDepth, (Findings.ofBrands brands).errorFormat, .ofBrands brands, t⟩

def holding (P : Place) (bytes : Bytes) : Place := { P with tape := ⟨bytes, P.tape.ending⟩ }

def showing (brands : BrandRule) (stop : Stop) (P : Place) (k : Nat) : Showing Outcome :=
  (levelWalk brands P.spare P.format).outcomeFrom stop P.found P.tape k

theorem showing_top (brands : BrandRule) (stop : Stop) (t : Tape) (k : Nat) :
    (top brands t).showing brands stop k = topOn brands stop (.ofBrands brands) t k := rfl

/-- The way of the walk from one place to another behind these bytes, along the boxes of a level
and into boxes that hold boxes; a box need not be all there. -/
inductive Leads (brands : BrandRule) : Place → Bytes → Place → Prop
  | here (P : Place) : Leads brands P [] P
  | along {spare : Nat} {format : ImageFormat} {f f' : Findings} {front front' : Bytes} {t : Tape}
    {Q : Place} (boxes : (levelWalk brands spare format).Reaches f ⟨front ++ t.bytes, t.ending⟩ f' t)
    (onward : Leads brands ⟨spare, format, f', t⟩ front' Q) :
    Leads brands ⟨spare, format, f, ⟨front ++ t.bytes, t.ending⟩⟩ (front ++ front') Q
  | into {spare : Nat} {format : ImageFormat} {f : Findings} {head wide version front : Bytes}
    {h : Header} {inside t : Tape} {Q : Place} (length : head.length = headLength)
    (begins : (Box.header format head).Gives ⟨wide ++ inside.bytes, inside.ending⟩ h inside)
    (holds : Holds h.name version)
    (payload : inside.clip h.payload = ⟨version ++ t.bytes, t.ending⟩)
    (onward : Leads brands ⟨spare, f.errorFormat, f, t⟩ front Q) :
    Leads brands ⟨spare + 1, format, f, ⟨head ++ (wide ++ inside.bytes), inside.ending⟩⟩
      (head ++ (wide ++ version) ++ front) Q

def Surrounds (brands : BrandRule) (P : Place) (front : Bytes) (Q : Place) : Prop :=
  ∃ tail, P.tape.bytes = front ++ (Q.tape.bytes ++ tail) ∧
    ∀ (stop : Stop) (bytes : Bytes), bytes.length = Q.tape.bytes.length →
      (∀ k, AgreeBy id (Q.showing brands stop k) ((Q.holding bytes).showing brands stop k)) →
      ∀ k, AgreeBy id (P.showing brands stop k)
        ((P.holding (front ++ (bytes ++ tail))).showing brands stop k)

variable {P Q R : Place} {front front' : Bytes}

theorem Surrounds.here (P : Place) : Surrounds brands P [] P := by
  refine ⟨[], (List.append_nil _).symm, fun stop bytes _ hinner k => ?_⟩
  rw [List.nil_append, List.append_nil]
  exact hinner k

theorem Surrounds.trans (h : Surrounds brands P front Q) (h' : Surrounds brands Q front' R) :
    Surrounds brands P (front ++ front') R := by
  obtain ⟨tail, hP, hout⟩ := h
  obtain ⟨tail', hQ, hin⟩ := h'
  refine ⟨tail' ++ tail, ?_, fun stop bytes hlength hR k => ?_⟩
  · rw [hP, hQ]
    simp only [List.append_assoc]
  · have hmiddle := hout stop (front' ++ (bytes ++ tail')) ?_ (hin stop bytes hlength hR) k
    · simpa only [List.append_assoc] using hmiddle
    · rw [hQ]
      simp only [List.length_append, hlength]

theorem Surrounds.of_end (hQ : Q.tape.bytes = []) {tail : Bytes}
    (hP : P.tape.bytes = front ++ tail) : Surrounds brands P front Q := by
  refine ⟨tail, ?_, fun stop bytes hlength _ k => .of_eq ?_⟩
  · rw [hQ, hP, List.nil_append]
  · rw [hQ, List.length_nil, List.length_eq_zero_iff] at hlength
    rw [hlength, List.nil_append, ← hP]
    rfl

theorem Surrounds.along {spare : Nat} {t : Tape}
    (h : (levelWalk brands spare format).Reaches f ⟨front ++ t.bytes, t.ending⟩ f' t) :
    Surrounds brands ⟨spare, format, f, ⟨front ++ t.bytes, t.ending⟩⟩ front
      ⟨spare, format, f', t⟩ := by
  by_cases ht : t.bytes = []
  · exact of_end ht rfl
  refine ⟨[], ?_, fun stop bytes _ hinner k => ?_⟩
  · rw [List.append_nil]
  · rw [List.append_nil]
    exact AgreeBy.reaches (levelWalk_heeds brands spare format) h ht hinner k

theorem Surrounds.into {spare : Nat} {head wide version : Bytes} {h : Header} {inside t : Tape}
    (hhead : head.length = headLength)
    (hgives : (Box.header format head).Gives ⟨wide ++ inside.bytes, inside.ending⟩ h inside)
    (holds : Holds h.name version) (hclip : inside.clip h.payload = ⟨version ++ t.bytes, t.ending⟩) :
    Surrounds brands ⟨spare + 1, format, f, ⟨head ++ (wide ++ inside.bytes), inside.ending⟩⟩
      (head ++ (wide ++ version)) ⟨spare, f.errorFormat, f, t⟩ := by
  obtain ⟨hinside, -⟩ := Tape.clip_replaced hclip rfl
  have hP : head ++ (wide ++ inside.bytes) =
      head ++ (wide ++ version) ++ (t.bytes ++ inside.bytes.drop h.payload) := by
    conv_lhs => rw [hinside]
    simp only [List.append_assoc]
  -- At the end there is nothing to be replaced, and elsewhere the header does not rest on the bytes
  -- behind it.
  by_cases ht : t.bytes = []
  · rw [ht] at hP
    exact of_end ht hP
  refine ⟨inside.bytes.drop h.payload, hP, fun stop bytes hlength hinner k => ?_⟩
  have hversion : (version ++ bytes).length = (version ++ t.bytes).length := by
    simp only [List.length_append, hlength]
  obtain ⟨-, hsame, hclip', hdrop⟩ := Tape.clip_replaced hclip hversion
  generalize hinside' : Tape.mk (version ++ bytes ++ inside.bytes.drop h.payload) inside.ending =
    inside' at hsame hclip' hdrop
  have hsome : inside.bytes ≠ [] := by
    rw [hinside]
    exact fun hnil => ht (List.append_eq_nil_iff.1 (List.append_eq_nil_iff.1 hnil).1).2
  have hroom := inside.length_clip_le h.payload
  rw [hclip, List.length_append] at hroom
  have hlook := holder_agree holds rfl rfl hroom (hlength ▸ hroom) (fun _ => Iff.rfl) hinner
    (maxDepth - (spare + 1)) k
  rw [← hclip, ← hclip'] at hlook
  have hshow := levelWalk_replaced hhead hsome hgives hsame.symm hdrop.symm hlook
  subst hinside'
  simp only [List.append_assoc] at hshow ⊢
  exact hshow

theorem Leads.surrounds (h : Leads brands P front Q) : Surrounds brands P front Q := by
  induction h with
  | here P => exact .here P
  | along boxes _ ih => exact (Surrounds.along boxes).trans ih
  | into length begins holds payload _ ih =>
    exact (Surrounds.into length begins holds payload).trans ih

theorem Leads.into_open (brands : BrandRule) {name version : Bytes} (holds : Holds name version)
    (spare : Nat) (format : ImageFormat) (f : Findings) {bs : Bytes}
    (hroom : (version ++ bs).length ≤ openSize - headLength) :
    Leads brands ⟨spare + 1, format, f, ⟨toBigEndian 4 0 ++ name ++ (version ++ bs), none⟩⟩
      (toBigEndian 4 0 ++ name ++ version) ⟨spare, f.errorFormat, f, ⟨bs, none⟩⟩ := by
  let inside : Tape := ⟨version ++ bs, none⟩
  let p : Parcel := ⟨false, name, version ++ bs⟩
  have hhead : (toBigEndian 4 0 ++ name).length = headLength := by
    cases holds with
    | metadata length => rfl
    | properties either => rcases either with rfl | rfl <;> rfl
  have hbegins : (Box.header format (toBigEndian 4 0 ++ name)).Gives
      ⟨[] ++ inside.bytes, inside.ending⟩ p.openHeader inside := p.openHeader_gives format inside
  have hclip : inside.clip p.openHeader.payload = ⟨version ++ bs, none⟩ := Tape.clip_all hroom
  rw [← List.append_nil (toBigEndian 4 0 ++ name ++ version)]
  exact .into hhead hbegins holds hclip (.here _)

end Place

end Heif

end ImageProbe
