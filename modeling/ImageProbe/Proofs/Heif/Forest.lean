import ImageProbe.Proofs.Box.Parcel
import ImageProbe.Proofs.Heif.LookInto
import ImageProbe.Proofs.Heif.Marks

namespace ImageProbe

open Box

namespace Heif

inductive Plain (p : Parcel) : Prop
  | handler (name : p.name = ascii "hdlr") (room : 12 ≤ p.payload.length)
    (kind : slice p.payload 8 4 = ascii "pict")
  | size (name : p.name = ascii "ispe") (room : 12 ≤ p.payload.length)
  | turn (name : p.name = ascii "irot") (room : 1 ≤ p.payload.length)
  | other (name : p.name ∉ heeded)

theorem plain_iff (p : Parcel) : Plain p ↔
    (p.name = ascii "hdlr" ∧ 12 ≤ p.payload.length ∧ slice p.payload 8 4 = ascii "pict") ∨
      (p.name = ascii "ispe" ∧ 12 ≤ p.payload.length) ∨
      (p.name = ascii "irot" ∧ 1 ≤ p.payload.length) ∨ p.name ∉ heeded := by
  constructor
  · intro h
    cases h with
    | handler name room kind => exact .inl ⟨name, room, kind⟩
    | size name room => exact .inr (.inl ⟨name, room⟩)
    | turn name room => exact .inr (.inr (.inl ⟨name, room⟩))
    | other name => exact .inr (.inr (.inr name))
  · rintro (⟨name, room, kind⟩ | ⟨name, room⟩ | ⟨name, room⟩ | name)
    · exact .handler name room kind
    · exact .size name room
    · exact .turn name room
    · exact .other name

instance (p : Parcel) : Decidable (Plain p) := decidable_of_iff _ (plain_iff p).symm

def marks (p : Parcel) : List Mark :=
  if p.name = ascii "ispe" then
    [.size (bigEndian (slice p.payload 4 4)) (bigEndian (slice p.payload 8 4))]
  else if p.name = ascii "irot" then [.turn ((p.payload.headD 0).toNat % 4)]
  else []

/-- Boxes one after another, some of which hold boxes in turn. -/
inductive Forest
  | nil
  | leaf (parcel : Parcel) (rest : Forest)
  | group (wide : Bool) (name : Bytes) (inner rest : Forest)

namespace Forest

def bytes : Forest → Bytes
  | nil => []
  | leaf p rest => p.bytes ++ rest.bytes
  | group wide name inner rest => (Parcel.mk wide name inner.bytes).bytes ++ rest.bytes

def marks : Forest → List Mark
  | nil => []
  | leaf p rest => Heif.marks p ++ rest.marks
  | group _ _ inner rest => inner.marks ++ rest.marks

def levels : Forest → Nat
  | nil => 1
  | leaf _ rest => rest.levels
  | group _ _ inner rest => max (inner.levels + 1) rest.levels

def Sound : Forest → Prop
  | nil => True
  | leaf p rest => p.Fits ∧ Plain p ∧ rest.Sound
  | group wide name inner rest => (Parcel.mk wide name inner.bytes).Fits ∧
      (name = ascii "iprp" ∨ name = ascii "ipco") ∧ inner.Sound ∧ rest.Sound

instance decidableSound : (F : Forest) → Decidable F.Sound
  | nil => .isTrue trivial
  | leaf _ rest =>
    have := decidableSound rest
    inferInstanceAs (Decidable (_ ∧ _))
  | group _ _ inner rest =>
    have := decidableSound inner
    have := decidableSound rest
    inferInstanceAs (Decidable (_ ∧ _))

theorem levels_pos (F : Forest) : 0 < F.levels := by
  induction F with
  | nil => exact Nat.one_pos
  | leaf p rest ih => exact ih
  | group wide name inner rest _ ih => exact Nat.lt_of_lt_of_le ih (Nat.le_max_right _ _)

theorem eq_nil {F : Forest} (hF : F.Sound) (h : F.bytes.length = 0) : F = nil := by
  cases F with
  | nil => rfl
  | leaf p rest =>
    have hlen := Parcel.length_bytes hF.1
    rw [bytes, List.length_append] at h
    rw [headLength] at hlen
    omega
  | group wide name inner rest =>
    have hlen := Parcel.length_bytes hF.1
    rw [bytes, List.length_append] at h
    rw [headLength] at hlen
    omega

end Forest

open Reading

variable {brands : BrandRule} {children : Children} {format : ImageFormat} {p : Parcel}
  {f f' : Findings}

theorem eval_reading {r : Reading Findings} {t t' : Tape} (h : r.Gives t f' t') :
    ((reading f r).eval t).1 = .more f' := by
  rw [reading, Script.eval_bind, h]
  rfl

theorem handler_gives (header : Header) (hp : header.payload = p.payload.length)
    (room : 12 ≤ p.payload.length) (kind : slice p.payload 8 4 = ascii "pict") :
    (handler header f).Gives ⟨p.payload, none⟩ () ⟨p.payload.drop 12, none⟩ := by
  have hkind : slice (slice p.payload 0 12) 8 4 = ascii "pict" := by
    rw [← kind, slice, slice, slice, List.drop_zero, List.drop_take, List.take_take]
    rfl
  refine Gives.bind (Gives.require _ (decide_eq_true (hp ▸ room)) _ _) ?_
  refine Gives.bind (Gives.exactly_at p.payload 0 12 room none) ?_
  rw [hkind]
  exact .pure () _

theorem extent_gives {header : Header} {bs : Bytes} (hp : 12 ≤ header.payload) (room : 12 ≤ bs.length)
    (e : Option Fault) :
    (extent header f).Gives ⟨bs, e⟩
      (f.addExtent (bigEndian (slice bs 4 4)) (bigEndian (slice bs 8 4))) ⟨bs.drop 12, e⟩ := by
  refine Gives.bind (Gives.require _ (decide_eq_true hp) _ _) ?_
  refine Gives.bind (Gives.skip_at bs 0 4 (by omega) e) ?_
  refine Gives.bind (Gives.number_at bigEndian bs 4 4 (by omega) e) ?_
  exact Gives.bind (Gives.number_at bigEndian bs 8 4 (by omega) e) (.note _ (.pure _ _))

theorem rotation_gives {header : Header} {bs : Bytes} (hp : 1 ≤ header.payload) (room : 1 ≤ bs.length)
    (e : Option Fault) :
    (rotation header f).Gives ⟨bs, e⟩ (f.rotate ((bs.headD 0).toNat % 4)) ⟨bs.drop 1, e⟩ := by
  have hfirst : bigEndian (slice bs 0 1) = (bs.headD 0).toNat := by
    cases bs with
    | nil => exact absurd room (by decide)
    | cons b bs => exact Nat.zero_add b.toNat
  refine Gives.bind (Gives.require _ (decide_eq_true hp) _ _) ?_
  refine Gives.bind (Gives.number_at bigEndian bs 0 1 (by omega) e) ?_
  rw [hfirst]
  exact .note _ (.pure _ _)

theorem marks_other (hname : p.name ∉ heeded) : marks p = [] := by
  simp only [heeded, List.mem_cons, List.not_mem_nil, or_false, not_or] at hname
  simp only [marks, hname, if_false]

theorem look_plain (hp : Plain p) : ((lookInto brands children p.header f).eval
    ⟨p.payload, none⟩).1 = .more (f.after (marks p)) := by
  have hroom := p.header_payload
  have hheader := p.header_name
  cases hp with
  | handler name room kind =>
    have hmarks : marks p = [] := by
      rw [marks, name]
      rfl
    rw [lookInto_handler (hheader.trans name), hmarks, Script.eval, Script.eval_bind,
      show (handler p.header f).run.eval _ = _ from handler_gives p.header hroom room kind]
    rfl
  | size name room =>
    rw [lookInto_extent (hheader.trans name), marks, name, if_pos rfl]
    exact eval_reading (extent_gives (hroom ▸ room) room none)
  | turn name room =>
    rw [lookInto_rotation (hheader.trans name), marks, name, if_neg (by decide), if_pos rfl]
    exact eval_reading (rotation_gives (hroom ▸ room) room none)
  | other name =>
    rw [lookInto_other (hheader ▸ name), marks_other name]
    rfl

theorem box_header {head : Bytes} {t t' : Tape} {header : Header}
    (h : (Box.header format head).Gives t header t') :
    (box brands children format head f).eval t =
      (header.visit (fun f e => (.error e, f)) (lookInto brands children header f)).eval t' := by
  rw [Gives] at h
  rw [box, Script.eval_bind, h]

theorem eval_box (hp : p.Fits) (t : Tape) : (box brands children format p.head f).eval
    ⟨p.tail ++ t.bytes, t.ending⟩ =
      (p.header.visit (fun f e => (.error e, f)) (lookInto brands children p.header f)).eval
        ⟨p.payload ++ t.bytes, t.ending⟩ :=
  box_header (Parcel.header_gives hp format t.bytes t.ending)

theorem box_more (hp : p.Fits)
    (hlook : ((lookInto brands children p.header f).eval ⟨p.payload, none⟩).1 = .more f') (t : Tape) :
    (box brands children format p.head f).eval ⟨p.tail ++ t.bytes, t.ending⟩ = (.more f', t) := by
  rw [eval_box hp]
  exact visit_more p.header_payload hlook t.bytes t.ending

theorem box_done (hp : p.Fits) {o : Outcome}
    (hlook : ((lookInto brands children p.header f).eval ⟨p.payload, none⟩).1 = .done o) (t : Tape) :
    ((box brands children format p.head f).eval ⟨p.tail ++ t.bytes, t.ending⟩).1 = .done o := by
  rw [eval_box hp]
  exact visit_done p.header_payload hlook t.bytes t.ending

theorem boxes_more (hp : p.Fits)
    (hlook : ((lookInto brands children p.header f).eval ⟨p.payload, none⟩).1 = .more f')
    (most : Nat) (t : Tape) :
    (boxes brands children format (most + 1) f).eval ⟨p.bytes ++ t.bytes, t.ending⟩ =
      (boxes brands children format most f').eval t := by
  obtain ⟨hhaul, hdrop⟩ := haul_bytes hp t
  have hlen : ¬ p.head.length < headLength := by
    rw [Parcel.length_head hp]
    exact Nat.lt_irrefl _
  rw [boxes, Script.eval, hhaul, hdrop, if_neg hlen, Script.eval_bind, box_more hp hlook]

theorem eval_enclosed {room depth : Nat} {t : Tape} (h : ((children room f).eval t).1 = (.ok (), f')) :
    ((enclosed depth children room f).eval t).1 = (.ok (), f') := by
  rw [enclosed, Script.eval_bind, h]
  rfl

theorem look_group (hname : p.name = ascii "iprp" ∨ p.name = ascii "ipco")
    (h : ((children p.payload.length f).eval ⟨p.payload, none⟩).1 = (.ok (), f')) :
    ((lookInto brands children p.header f).eval ⟨p.payload, none⟩).1 = .more f' := by
  rw [lookInto_properties (p.header_name ▸ hname), Parcel.header_payload, Script.eval,
    Script.eval_bind, h]
  rfl

theorem boxes_forest {F : Forest} (hF : F.Sound) {spare : Nat} (hlevels : F.levels ≤ spare + 1)
    (depth : Nat) (format : ImageFormat) {most : Nat} (hmost : F.bytes.length < 8 * (most + 1))
    (f : Findings) :
    ((boxes brands (enclosed depth (level brands spare)) format most f).eval ⟨F.bytes, none⟩).1 =
      (.ok (), f.after F.marks) := by
  induction F generalizing spare depth format most f with
  | nil =>
    cases most with
    | zero => rfl
    | succ most => rfl
  | leaf p rest ih =>
    obtain ⟨hp, hplain, hrest⟩ := hF
    have hlen := Parcel.length_bytes hp
    rw [Forest.bytes, List.length_append] at hmost
    rw [headLength] at hlen
    obtain ⟨most, rfl⟩ : ∃ m, most = m + 1 := ⟨most - 1, by omega⟩
    refine (congrArg Prod.fst (boxes_more hp (look_plain hplain) most ⟨rest.bytes, none⟩)).trans ?_
    rw [ih hrest hlevels depth format (by omega), Forest.marks, Findings.after_append]
  | group wide name inner rest ihinner ihrest =>
    obtain ⟨hp, hname, hinner, hrest⟩ := hF
    have hlen := Parcel.length_bytes hp
    have hpos := inner.levels_pos
    rw [Forest.levels, Nat.max_le] at hlevels
    rw [Forest.bytes, List.length_append] at hmost
    rw [headLength] at hlen
    obtain ⟨most, rfl⟩ : ∃ m, most = m + 1 := ⟨most - 1, by omega⟩
    obtain ⟨spare, rfl⟩ : ∃ m, spare = m + 1 := ⟨spare - 1, by omega⟩
    -- The inner boxes have one level less to spare, and what they find goes on into the rest.
    have hlevel : ((level brands (spare + 1) inner.bytes.length f).eval ⟨inner.bytes, none⟩).1 =
        (.ok (), f.after inner.marks) := by
      refine ihinner hinner (by omega) (maxDepth - spare) f.errorFormat ?_ f
      rw [headLength]
      omega
    have hinside : ((enclosed depth (level brands (spare + 1)) inner.bytes.length f).eval
        ⟨inner.bytes, none⟩).1 = (.ok (), f.after inner.marks) := eval_enclosed hlevel
    refine (congrArg Prod.fst (boxes_more hp (look_group hname hinside) most ⟨rest.bytes, none⟩)).trans ?_
    rw [ihrest hrest hlevels.2 depth format (by omega), Forest.marks, Findings.after_append]

theorem level_forest {F : Forest} (hF : F.Sound) {spare : Nat} (hlevels : F.levels ≤ spare)
    (f : Findings) :
    ((level brands spare F.bytes.length f).eval ⟨F.bytes, none⟩).1 = (.ok (), f.after F.marks) := by
  have hpos := F.levels_pos
  obtain ⟨spare, rfl⟩ : ∃ m, spare = m + 1 := ⟨spare - 1, by omega⟩
  have hmost : F.bytes.length < 8 * (F.bytes.length / headLength + 1) := by
    rw [headLength]
    omega
  exact boxes_forest hF hlevels (maxDepth - spare) f.errorFormat hmost f

end Heif

end ImageProbe
