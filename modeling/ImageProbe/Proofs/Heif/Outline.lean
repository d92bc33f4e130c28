import ImageProbe.Proofs.Agree
import ImageProbe.Proofs.Heif.Checks
import ImageProbe.Proofs.Heif.Contained

namespace ImageProbe

open Box

namespace Heif

/-- Boxes one after another, some of which hold boxes in turn; how their sizes are written is left
open. -/
inductive Outline
  | nil
  | leaf (name payload : Bytes) (rest : Outline)
  | group (name version : Bytes) (inner rest : Outline)

def around (wide : Bool) (name version : Bytes) (ps : List Parcel) : Parcel :=
  ⟨wide, name, version ++ ps.flatMap Parcel.bytes⟩

inductive Holds : Bytes → Bytes → Prop
  | metadata {version : Bytes} (length : version.length = 4) : Holds (ascii "meta") version
  | properties {name : Bytes} (either : name = ascii "iprp" ∨ name = ascii "ipco") : Holds name []

/-- The outline as it is written, each box in a form of its own that has room for its size. -/
inductive Outline.Written : Outline → List Parcel → Prop
  | nil : Written nil []
  | leaf {name payload : Bytes} {rest : Outline} {ps : List Parcel} (wide : Bool)
    (fits : (Parcel.mk wide name payload).Fits) (behind : rest.Written ps) :
    Written (leaf name payload rest) (⟨wide, name, payload⟩ :: ps)
  | group {name version : Bytes} {inner rest : Outline} {qs ps : List Parcel} (wide : Bool)
    (holds : Holds name version) (inside : inner.Written qs)
    (fits : (around wide name version qs).Fits) (behind : rest.Written ps) :
    Written (group name version inner rest) (around wide name version qs :: ps)

variable {brands : BrandRule} {children : Children} {stop : Stop} {o : Outline}
  {ps ps' : List Parcel} {f : Findings}

theorem Outline.Written.fits (h : o.Written ps) : ∀ p ∈ ps, p.Fits := by
  induction h with
  | nil => exact nofun
  | leaf wide fits behind ih => exact List.forall_mem_cons.2 ⟨fits, ih⟩
  | group wide holds inside fits behind ihinside ih => exact List.forall_mem_cons.2 ⟨fits, ih⟩

theorem Outline.Written.bytes_eq_nil (h : o.Written ps) (h' : o.Written ps')
    (hnil : ps.flatMap Parcel.bytes = []) : ps'.flatMap Parcel.bytes = [] := by
  cases h with
  | nil =>
    cases h'
    rfl
  | leaf wide fits behind => exact absurd hnil (Parcel.bytes_append_ne_nil fits _)
  | group wide holds inside fits behind => exact absurd hnil (Parcel.bytes_append_ne_nil fits _)

theorem lookInto_form (wide wide' : Bool) (name payload : Bytes) :
    lookInto brands children (Parcel.mk wide name payload).header f =
      lookInto brands children (Parcel.mk wide' name payload).header f := by
  simp only [lookInto_eq, content, metadata, fileType, handler, extent, rotation, needs,
    Parcel.header_name, Parcel.header_payload]

def Boxwise (brands : BrandRule) (stop : Stop) (children : Children)
    (level : Findings → Tape → Nat → Showing Outcome) : Prop :=
  ∀ p : Parcel, p.Fits → ∀ (f : Findings) (t : Tape) (k : Nat),
    level f ⟨p.bytes ++ t.bytes, t.ending⟩ k = Walk.follow level
      (passed t ((lookInto brands children p.header f).outcome stop ⟨p.payload, none⟩ k))

theorem boxwise_topOn (brands : BrandRule) (stop : Stop) :
    Boxwise brands stop (enclosed 0 (level brands maxDepth)) (topOn brands stop) :=
  fun _ hp f t k => topOn_box hp f t k

theorem boxwise_boxesOn (brands : BrandRule) (stop : Stop) (children : Children)
    (format : ImageFormat) :
    Boxwise brands stop children (boxesOn brands children format stop) :=
  fun _ hp _ t k => boxesOn_box hp t k

def Interchangeable (brands : BrandRule) (stop : Stop) (ps ps' : List Parcel) : Prop :=
  ∀ (spare depth : Nat) (level : Findings → Tape → Nat → Showing Outcome),
    Boxwise brands stop (enclosed depth (Heif.level brands spare)) level →
    ∀ (f : Findings) (t : Tape) (k : Nat),
      AgreeBy id (level f ⟨ps.flatMap Parcel.bytes ++ t.bytes, t.ending⟩ k)
        (level f ⟨ps'.flatMap Parcel.bytes ++ t.bytes, t.ending⟩ k)

theorem enclosed_agree {room room' : Nat} {t t' : Tape} {k : Nat}
    (h : AgreeBy id ((children room f).outcome stop t k) ((children room' f).outcome stop t' k))
    (depth : Nat) :
    AgreeBy id ((enclosed depth children room f).outcome stop t k)
      ((enclosed depth children room' f).outcome stop t' k) := by
  refine h.bind ?_
  rintro ⟨e | u, f'⟩ t t' k
  · cases e <;> exact ⟨rfl, rfl⟩
  · exact ⟨rfl, rfl⟩

theorem level_agree (h : Interchangeable brands stop ps ps') (spare : Nat) {room room' : Nat}
    (hroom : (ps.flatMap Parcel.bytes).length ≤ room)
    (hroom' : (ps'.flatMap Parcel.bytes).length ≤ room') (f : Findings) (k : Nat) :
    AgreeBy id ((level brands spare room f).outcome stop ⟨ps.flatMap Parcel.bytes, none⟩ k)
      ((level brands spare room' f).outcome stop ⟨ps'.flatMap Parcel.bytes, none⟩ k) := by
  cases spare with
  | zero => exact ⟨rfl, rfl⟩
  | succ spare =>
    rw [level_on spare room f hroom, level_on spare room' f hroom']
    have hboxes := h spare (maxDepth - spare) _ (boxwise_boxesOn brands stop _ f.errorFormat) f
      ⟨[], none⟩ k
    rwa [List.append_nil, List.append_nil] at hboxes

theorem version_quiet (f : Findings) (h : Header) :
    Reading.Quiet (needs f h 4 .metaTooShort >>= fun _ => Reading.skip 4) :=
  (needs_quiet h 4 _).bind fun _ => .skip 4

theorem version_outcome (stop : Stop) (f : Findings) {h : Header} (hroom : 4 ≤ h.payload)
    {version : Bytes} (hversion : version.length = 4) (rest : Bytes) (e : Option Fault) (k : Nat) :
    (needs f h 4 .metaTooShort >>= fun _ => Reading.skip 4).run.outcome stop
      ⟨version ++ rest, e⟩ k = (.ok (), ⟨rest, e⟩, k) := by
  apply outcome_of_gives stop (version_quiet f h)
  exact .bind (.require _ (decide_eq_true hroom) _ _) (.skip hversion e)

theorem metadata_agree {h h' : Header} (hroom : 4 ≤ h.payload) (hroom' : 4 ≤ h'.payload)
    {version version' rest rest' : Bytes} {e e' : Option Fault} (hversion : version.length = 4)
    (hversion' : version'.length = 4) {k : Nat}
    (hinside : AgreeBy id
      ((if h.payload = 4 then pure (.ok (), f) else children (h.payload - 4) f).outcome stop
        ⟨rest, e⟩ k)
      ((if h'.payload = 4 then pure (.ok (), f) else children (h'.payload - 4) f).outcome stop
        ⟨rest', e'⟩ k)) :
    AgreeBy id ((metadata children h f).outcome stop ⟨version ++ rest, e⟩ k)
      ((metadata children h' f).outcome stop ⟨version' ++ rest', e'⟩ k) := by
  rw [metadata, metadata, Script.outcome_bind, Script.outcome_bind,
    version_outcome stop f hroom hversion, version_outcome stop f hroom' hversion']
  refine hinside.bind ?_
  rintro ⟨e | u, f'⟩ t t' k
  · exact ⟨rfl, rfl⟩
  · exact ⟨rfl, rfl⟩

theorem holds_agree {name version : Bytes} (holds : Holds name version) {h h' : Header}
    (hname : h.name = name) (hname' : h'.name = name) (hroom : version.length ≤ h.payload)
    (hroom' : version.length ≤ h'.payload)
    (hempty : version.length = 4 → (h.payload = 4 ↔ h'.payload = 4)) {rest rest' : Bytes}
    {e e' : Option Fault}
    (hinside : ∀ k, AgreeBy id
      ((children (h.payload - version.length) f).outcome stop ⟨rest, e⟩ k)
      ((children (h'.payload - version.length) f).outcome stop ⟨rest', e'⟩ k)) (k : Nat) :
    AgreeBy id ((lookInto brands children h f).outcome stop ⟨version ++ rest, e⟩ k)
      ((lookInto brands children h' f).outcome stop ⟨version ++ rest', e'⟩ k) := by
  cases holds with
  | metadata length =>
    rw [length] at hroom hroom' hinside
    rw [lookInto_metadata hname, lookInto_metadata hname']
    refine AgreeBy.check (fun _ _ => ⟨rfl, rfl⟩) fun k => AgreeBy.bind ?_ fun o t t' k => ⟨rfl, rfl⟩
    refine metadata_agree hroom hroom' length length ?_
    by_cases hfour : h.payload = 4
    · rw [if_pos hfour, if_pos ((hempty length).1 hfour)]
      exact ⟨rfl, rfl⟩
    · rw [if_neg hfour, if_neg (mt (hempty length).2 hfour)]
      exact hinside k
  | properties either =>
    rw [lookInto_properties (hname ▸ either), lookInto_properties (hname' ▸ either)]
    refine AgreeBy.check (fun _ _ => ⟨rfl, rfl⟩) fun k => ?_
    exact AgreeBy.bind (hinside k) fun o t t' k => ⟨rfl, rfl⟩

theorem around_payload (wide : Bool) (name version : Bytes) (ps : List Parcel) :
    (around wide name version ps).header.payload =
      version.length + (ps.flatMap Parcel.bytes).length := by
  rw [Parcel.header_payload]
  exact List.length_append

theorem group_agree {name version : Bytes} (holds : Holds name version)
    (hsame : Interchangeable brands stop ps ps')
    (hnil : ps.flatMap Parcel.bytes = [] ↔ ps'.flatMap Parcel.bytes = [])
    (wide wide' : Bool) (spare depth : Nat) (f : Findings) (k : Nat) :
    let p := around wide name version ps
    let p' := around wide' name version ps'
    AgreeBy id
      ((lookInto brands (enclosed depth (level brands spare)) p.header f).outcome stop
        ⟨p.payload, none⟩ k)
      ((lookInto brands (enclosed depth (level brands spare)) p'.header f).outcome stop
        ⟨p'.payload, none⟩ k) := by
  intro p p'
  have hp : p.header.payload = _ := around_payload wide name version ps
  have hp' : p'.header.payload = _ := around_payload wide' name version ps'
  apply holds_agree holds (Parcel.header_name p) (Parcel.header_name p')
  · omega
  · omega
  · intro length
    rw [hp, hp', length, Nat.add_eq_left, Nat.add_eq_left, List.length_eq_zero_iff,
      List.length_eq_zero_iff]
    exact hnil
  · intro k
    exact enclosed_agree (level_agree hsame spare (by omega) (by omega) f k) depth

/-- The forms in which the sizes are written do not count, at any level. -/
theorem Outline.Written.interchangeable (h : o.Written ps) (h' : o.Written ps') :
    Interchangeable brands stop ps ps' := by
  induction h generalizing ps' with
  | nil =>
    cases h'
    exact fun _ _ _ _ f t k => ⟨rfl, rfl⟩
  | leaf wide fits behind ih =>
    cases h' with
    | leaf wide' fits' behind' =>
      intro spare depth L hL f t k
      rw [List.flatMap_cons, List.flatMap_cons, List.append_assoc, List.append_assoc,
        hL _ fits f ⟨_, t.ending⟩ k, hL _ fits' f ⟨_, t.ending⟩ k]
      refine AgreeBy.follow (.of_eq ?_) fun f k => ih behind' spare depth L hL f t k
      rw [lookInto_form wide wide']
  | group wide holds inside fits behind ihinside ih =>
    cases h' with
    | group wide' holds' inside' fits' behind' =>
      intro spare depth L hL f t k
      have hnil := Iff.intro (inside.bytes_eq_nil inside') (inside'.bytes_eq_nil inside)
      rw [List.flatMap_cons, List.flatMap_cons, List.append_assoc, List.append_assoc,
        hL _ fits f ⟨_, t.ending⟩ k, hL _ fits' f ⟨_, t.ending⟩ k]
      refine AgreeBy.follow ?_ fun f k => ih behind' spare depth L hL f t k
      exact group_agree holds (ihinside inside') hnil wide wide' spare depth f k

end Heif

end ImageProbe
