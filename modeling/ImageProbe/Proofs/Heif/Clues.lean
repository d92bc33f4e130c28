import ImageProbe.Proofs.Heif.Looks

namespace ImageProbe

open Box ByteReader

namespace Heif

open Reading

def Look.brands (l : Look) : List Bytes :=
  if l.header.name = ascii "ftyp" ∧ 8 ≤ l.header.payload then
    (brandsOf l.payload).filter (·.length = 4)
  else []

/-- What a box tells of the image: its format, or a mark on the extents. -/
inductive Clue
  | format (format : ImageFormat)
  | mark (mark : Mark)
  deriving DecidableEq

namespace Findings

def note (f : Findings) : Clue → Findings
  | .format format => { f with format := some format }
  | .mark m => f.mark m

def learn (f : Findings) (clues : List Clue) : Findings := clues.foldl note f

theorem learn_append (f : Findings) (cs ds : List Clue) :
    f.learn (cs ++ ds) = (f.learn cs).learn ds := List.foldl_append

end Findings

def Look.clues (brands : BrandRule) (l : Look) : List Clue :=
  if l.header.name = ascii "ftyp" then
    ((l.brands.findSome? brands.format?).map Clue.format).toList
  else if l.header.name = ascii "ispe" ∧ 12 ≤ l.payload.length then
    [.mark (.size (bigEndian (slice l.payload 4 4)) (bigEndian (slice l.payload 8 4)))]
  else if l.header.name = ascii "irot" ∧ 1 ≤ l.payload.length then
    [.mark (.turn ((l.payload.headD 0).toNat % 4))]
  else []

def cluesOf (brands : BrandRule) (ls : List Look) : List Clue := ls.flatMap (Look.clues brands)

/-- The clues that a walk over the tape comes by, in the order in which it does. -/
def clues (brands : BrandRule) (t : Tape) : List Clue := cluesOf brands (looks brands t)

variable {brands : BrandRule} {children : Children} {journal : Journal} {f f' : Findings}
  {h : Header} {t : Tape} {cs : List Clue}

theorem cluesOf_append (ls ms : List Look) :
    cluesOf brands (ls ++ ms) = cluesOf brands ls ++ cluesOf brands ms := List.flatMap_append

theorem cluesOf_cons (l : Look) (ls : List Look) :
    cluesOf brands (l :: ls) = l.clues brands ++ cluesOf brands ls := List.flatMap_cons

def tellers : List Bytes := [ascii "ftyp", ascii "ispe", ascii "irot"]

theorem tellers_heeded {name : Bytes} (h : name ∉ heeded) : name ∉ tellers := by
  have hsub : tellers ⊆ heeded := by decide
  exact fun hmem => h (hsub hmem)

theorem clues_other {payload : Bytes} (hname : h.name ∉ tellers) :
    Look.clues brands ⟨h, payload⟩ = [] := by
  simp only [tellers, List.mem_cons, List.not_mem_nil, or_false, not_or] at hname
  simp [Look.clues, hname]

def Tells (p : Reading Findings) (f : Findings) (t : Tape) (cs : List Clue) : Prop :=
  (∃ c t', cs = [c] ∧ p.Gives t (f.note c) t') ∨ cs = [] ∧ ∀ f' t', ¬ p.Gives t f' t'

theorem findings_tells {p : Reading Findings} (hp : Tells p f t cs) :
    findings ((reading f p).eval t).1 = f.learn cs := by
  rcases hp with ⟨c, t', rfl, hgives⟩ | ⟨rfl, hfails⟩
  · rw [eval_reading hgives]
    rfl
  · rw [reading, Script.eval_bind]
    rcases hr : p.run.eval t with ⟨e | f', t'⟩
    · rfl
    · exact absurd hr (hfails f' t')

theorem compatibleFormat_step {n : Nat} (hlen : 4 ≤ t.bytes.length) (told : Option ImageFormat)
    (t' : Tape) :
    (compatibleFormat brands (n + 1)).Gives t told t' ↔
      (match brands.format? (t.bytes.take 4) with
        | some format => pure (some format)
        | none => compatibleFormat brands n : Reading _).Gives (t.drop 4) told t' := by
  have hfirst : (exactly 4).Gives t (t.bytes.take 4) (t.drop 4) := Gives.first hlen t.ending
  constructor
  · intro hgives
    obtain ⟨bs, t₁, hbs, hgives⟩ := Gives.of_bind hgives
    obtain ⟨-, rfl, rfl⟩ := Gives.of_exactly hbs
    exact hgives
  · exact fun hgives => Gives.bind hfirst hgives

theorem compatibleFormat_gives_iff {n : Nat} (hn : t.bytes.length / 4 ≤ n) (format : ImageFormat) :
    (∃ t', (compatibleFormat brands n).Gives t (some format) t') ↔
      (quads (t.bytes.length / 4) t.bytes).findSome? brands.format? = some format := by
  induction n generalizing t with
  | zero =>
    rw [Nat.le_zero.1 hn]
    constructor
    · rintro ⟨t', hgives⟩
      exact nomatch (Gives.of_pure hgives).1
    · intro hfind
      exact nomatch hfind
  | succ n ih =>
    by_cases hlen : 4 ≤ t.bytes.length
    · obtain ⟨k, hk⟩ : ∃ k, t.bytes.length / 4 = k + 1 := ⟨t.bytes.length / 4 - 1, by omega⟩
      have hk' : (t.drop 4).bytes.length / 4 = k := by
        rw [Tape.drop_length]
        omega
      have hrest := ih (t := t.drop 4) (by omega)
      rw [hk, quads, List.findSome?_cons]
      rw [hk'] at hrest
      simp only [compatibleFormat_step hlen]
      cases hb : brands.format? (t.bytes.take 4) with
      | none => exact hrest
      | some first =>
        constructor
        · rintro ⟨t', hgives⟩
          exact (Gives.of_pure hgives).1
        · rintro ⟨⟩
          exact ⟨t.drop 4, .pure _ _⟩
    · have hzero : t.bytes.length / 4 = 0 := by omega
      rw [hzero]
      constructor
      · rintro ⟨t', hgives⟩
        obtain ⟨bs, t₁, hbs, -⟩ := Gives.of_bind hgives
        exact absurd (Gives.of_exactly hbs).1 hlen
      · intro hfind
        exact nomatch hfind

theorem length_of_mem_quads {n : Nat} {bs q : Bytes} (hn : 4 * n ≤ bs.length) (hq : q ∈ quads n bs) :
    q.length = 4 := by
  induction n generalizing bs with
  | zero => simp [quads] at hq
  | succ n ih =>
    rcases List.mem_cons.1 hq with rfl | hq
    · simp only [List.length_take]
      omega
    · apply ih _ hq
      simp only [List.length_drop]
      omega

theorem brands_whole {bs : Bytes} (hlen : 4 ≤ bs.length) :
    (brandsOf bs).filter (·.length = 4) = brandsOf bs := by
  apply List.filter_eq_self.2
  intro q hq
  apply decide_eq_true
  rcases List.mem_cons.1 hq with rfl | hq
  · simp only [List.length_take]
    omega
  · apply length_of_mem_quads _ hq
    simp only [List.length_drop]
    omega

theorem brands_short {bs : Bytes} (hlen : ¬ 4 ≤ bs.length) :
    (brandsOf bs).filter (·.length = 4) = [] := by
  have hzero : (bs.length - 8) / 4 = 0 := by omega
  have hmajor : ¬ (bs.take 4).length = 4 := by
    simp only [List.length_take]
    omega
  simp [brandsOf, hzero, quads, -List.length_take, hmajor]

theorem gives_of_fileType {t' : Tape} (hname : h.name = ascii "ftyp")
    (ht : t.bytes.length ≤ h.payload) (hgives : (fileType brands h f).Gives t f' t') :
    ∃ format, (Look.brands ⟨h, t.bytes⟩).findSome? brands.format? = some format ∧
      f' = { f with format := some format } := by
  obtain ⟨_, t₁, hneeds, hgives⟩ := Gives.of_bind hgives
  obtain ⟨hroom, rfl⟩ := Gives.of_require hneeds
  obtain ⟨major, t₁, hmajor, hgives⟩ := Gives.of_bind hgives
  obtain ⟨hlen, rfl, rfl⟩ := Gives.of_exactly hmajor
  rw [Look.brands, if_pos ⟨hname, of_decide_eq_true hroom⟩, brands_whole hlen, brandsOf,
    List.findSome?_cons]
  cases hb : brands.format? (t.bytes.take 4) with
  | some format =>
    simp only [hb] at hgives
    exact ⟨format, rfl, (Gives.of_pure hgives).1.symm⟩
  | none =>
    simp only [hb] at hgives
    obtain ⟨_, t₁, hversion, hgives⟩ := Gives.of_bind hgives
    obtain ⟨-, rfl⟩ := Gives.of_skip hversion
    obtain ⟨told, t₁, htold, hgives⟩ := Gives.of_bind hgives
    cases told with
    | none =>
      obtain ⟨_, t₂, -, hrefuse⟩ := Gives.of_bind hgives
      exact absurd hrefuse (not_gives_refuse _ _ _ _ _)
    | some format =>
      have hrest : ((t.drop 4).drop 4).bytes = t.bytes.drop 8 := List.drop_drop
      have hfew : ((t.drop 4).drop 4).bytes.length / 4 ≤ (h.payload - 8) / 4 := by
        rw [hrest, List.length_drop]
        omega
      have hfind := (compatibleFormat_gives_iff hfew format).1 ⟨t₁, htold⟩
      rw [hrest, List.length_drop] at hfind
      exact ⟨format, hfind, (Gives.of_pure hgives).1.symm⟩

theorem fileType_gives_of_find {format : ImageFormat} (ht : t.bytes.length ≤ h.payload)
    (hfind : (Look.brands ⟨h, t.bytes⟩).findSome? brands.format? = some format) :
    ∃ t', (fileType brands h f).Gives t { f with format := some format } t' := by
  rw [Look.brands] at hfind
  split at hfind
  case isFalse => exact absurd hfind.symm (Option.some_ne_none _)
  rename_i hroom
  by_cases hlen : 4 ≤ t.bytes.length
  case neg =>
    rw [brands_short hlen] at hfind
    exact absurd hfind.symm (Option.some_ne_none _)
  have hneeds : (needs f h 8 .fileTypeTooShort).Gives t () t :=
    Gives.require _ (decide_eq_true hroom.2) _ _
  have hmajor : (exactly 4).Gives t (t.bytes.take 4) (t.drop 4) := Gives.first hlen t.ending
  rw [brands_whole hlen, brandsOf, List.findSome?_cons] at hfind
  cases hb : brands.format? (t.bytes.take 4) with
  | some major =>
    rw [hb] at hfind
    cases hfind
    refine ⟨t.drop 4, Gives.bind hneeds (Gives.bind hmajor ?_)⟩
    simp only [hb]
    exact .pure _ _
  | none =>
    simp only [hb] at hfind
    have hrest : ((t.drop 4).drop 4).bytes = t.bytes.drop 8 := List.drop_drop
    have hversion : (skip 4).Gives (t.drop 4) () ((t.drop 4).drop 4) := by
      have height : 4 + 4 ≤ t.bytes.length := by
        by_contra hshort
        have hzero : (t.bytes.length - 8) / 4 = 0 := by omega
        rw [hzero] at hfind
        exact absurd hfind.symm (Option.some_ne_none _)
      simpa [Tape.drop] using Gives.skip_at t.bytes 4 4 height t.ending
    have hfew : ((t.drop 4).drop 4).bytes.length / 4 ≤ (h.payload - 8) / 4 := by
      rw [hrest, List.length_drop]
      omega
    obtain ⟨t', hcompatible⟩ := (compatibleFormat_gives_iff hfew format).2
      (by rwa [hrest, List.length_drop])
    refine ⟨t', Gives.bind hneeds (Gives.bind hmajor ?_)⟩
    simp only [hb]
    exact Gives.bind hversion (Gives.bind hcompatible (.pure _ _))

theorem fileType_tells (hname : h.name = ascii "ftyp") (ht : t.bytes.length ≤ h.payload) :
    Tells (fileType brands h f) f t (Look.clues brands ⟨h, t.bytes⟩) := by
  rw [Look.clues, if_pos hname]
  cases hfind : (Look.brands ⟨h, t.bytes⟩).findSome? brands.format? with
  | some format =>
    obtain ⟨t', hgives⟩ := fileType_gives_of_find ht hfind
    exact .inl ⟨.format format, t', rfl, hgives⟩
  | none =>
    refine .inr ⟨rfl, fun f' t' hgives => ?_⟩
    obtain ⟨format, hsome, -⟩ := gives_of_fileType hname ht hgives
    rw [hfind] at hsome
    exact nomatch hsome

theorem extent_tells (brands : BrandRule) (hname : h.name = ascii "ispe")
    (ht : t.bytes.length ≤ h.payload) :
    Tells (extent h f) f t (Look.clues brands ⟨h, t.bytes⟩) := by
  have hftyp : h.name ≠ ascii "ftyp" := by
    rw [hname]
    decide
  rw [Look.clues, if_neg hftyp]
  by_cases room : 12 ≤ t.bytes.length
  · rw [if_pos ⟨hname, room⟩]
    exact .inl ⟨_, _, rfl, extent_gives (Nat.le_trans room ht) room t.ending⟩
  · have hirot : h.name ≠ ascii "irot" := by
      rw [hname]
      decide
    simp only [room, hirot, and_false, false_and, if_false]
    refine .inr ⟨rfl, fun f' t' hgives => room ?_⟩
    obtain ⟨_, t₁, hneeds, hgives⟩ := Gives.of_bind hgives
    obtain ⟨-, rfl⟩ := Gives.of_require hneeds
    obtain ⟨_, t₁, hversion, hgives⟩ := Gives.of_bind hgives
    obtain ⟨hfour, rfl⟩ := Gives.of_skip hversion
    obtain ⟨_, t₁, hwidth, hgives⟩ := Gives.of_bind hgives
    obtain ⟨hwidth, -, rfl⟩ := Gives.of_number hwidth
    obtain ⟨_, t₁, hheight, -⟩ := Gives.of_bind hgives
    obtain ⟨hheight, -⟩ := Gives.of_number hheight
    rw [Tape.drop_length, Tape.drop_length] at hheight
    omega

theorem rotation_tells (brands : BrandRule) (hname : h.name = ascii "irot")
    (ht : t.bytes.length ≤ h.payload) :
    Tells (rotation h f) f t (Look.clues brands ⟨h, t.bytes⟩) := by
  have hother : h.name ≠ ascii "ftyp" ∧ h.name ≠ ascii "ispe" := by
    rw [hname]
    decide
  rw [Look.clues, if_neg hother.1, if_neg fun hispe => hother.2 hispe.1]
  by_cases room : 1 ≤ t.bytes.length
  · rw [if_pos ⟨hname, room⟩]
    exact .inl ⟨_, _, rfl, rotation_gives (Nat.le_trans room ht) room t.ending⟩
  · rw [if_neg fun hboth => room hboth.2]
    refine .inr ⟨rfl, fun f' t' hgives => room ?_⟩
    obtain ⟨_, t₁, hneeds, hgives⟩ := Gives.of_bind hgives
    obtain ⟨-, rfl⟩ := Gives.of_require hneeds
    obtain ⟨_, t₁, hquarters, -⟩ := Gives.of_bind hgives
    exact (Gives.of_number hquarters).1

structure Journal.Learns (brands : BrandRule) (journal : Journal) (children : Children) : Prop where
  learns (room : Nat) (f : Findings) (t : Tape) :
    ((children room f).eval t).1.2 = f.learn (cluesOf brands (journal room f t))
  empty (room : Nat) (f : Findings) (t : Tape) : t.bytes = [] → journal room f t = []

theorem enclosed_learns (hc : journal.Learns brands children) (depth : Nat) :
    journal.Learns brands (enclosed depth children) := by
  refine ⟨fun room f t => ?_, hc.empty⟩
  have hinside := hc.learns room f t
  rw [enclosed, Script.eval_bind]
  rcases hout : (children room f).eval t with ⟨⟨e | u, f'⟩, t'⟩ <;> rw [hout] at hinside
  · cases e <;> exact hinside
  · exact hinside

theorem metadata_learns (hc : journal.Learns brands children) (ht : t.bytes.length ≤ h.payload) :
    ((metadata children h f).eval t).1.2 =
      f.learn (cluesOf brands (journal (h.payload - 4) f (t.drop 4))) := by
  have hnone (hlen : t.bytes.length ≤ 4) : journal (h.payload - 4) f (t.drop 4) = [] :=
    hc.empty _ _ _ (List.drop_eq_nil_of_le hlen)
  rw [metadata, Script.eval_bind]
  rcases hr : (needs f h 4 .metaTooShort >>= fun _ => skip 4).run.eval t with ⟨e | u, t'⟩
  · -- What is too short for a version has no boxes either.
    rw [hnone]
    · rfl
    · by_contra hlen
      have hneeds : (needs f h 4 .metaTooShort).Gives t () t :=
        Gives.require _ (decide_eq_true (by omega)) _ _
      have hversion : (skip 4).Gives t () (t.drop 4) := by
        simpa [Tape.drop] using Gives.skip_at t.bytes 0 4 (by omega) t.ending
      have hboth := hr.symm.trans (Gives.bind hneeds hversion)
      cases hboth
  · obtain ⟨_, t₁, hneeds, hversion⟩ := Gives.of_bind hr
    obtain ⟨-, rfl⟩ := Gives.of_require hneeds
    obtain ⟨-, rfl⟩ := Gives.of_skip hversion
    simp only [Script.eval_bind]
    by_cases hfour : h.payload = 4
    · rw [if_pos hfour, hnone (hfour ▸ ht)]
      rfl
    · rw [if_neg hfour]
      have hinside := hc.learns (h.payload - 4) f (t.drop 4)
      rcases hout : (children (h.payload - 4) f).eval (t.drop 4) with ⟨⟨e | u, f'⟩, t'⟩ <;>
        rw [hout] at hinside
      · exact hinside
      · exact hinside

theorem lookInto_learns (hc : journal.Learns brands children) (ht : t.bytes.length ≤ h.payload) :
    findings ((lookInto brands children h f).eval t).1 =
      f.learn (cluesOf brands (looksInto journal h f t)) := by
  have hleaf (hname : h.name ∉ holders) :
      cluesOf brands (looksInto journal h f t) = Look.clues brands ⟨h, t.bytes⟩ := by
    rw [looksInto_leaf hname, cluesOf_cons]
    exact List.append_nil _
  rcases name_cases h.name with
    hftyp | hmeta | hhdlr | hgroup | hispe | hirot | hmdat | hother
  · rw [lookInto_fileType hftyp, hleaf (by rw [hftyp]; decide)]
    exact findings_tells (fileType_tells hftyp ht)
  · rw [lookInto_metadata hmeta, looksInto_metadata hmeta, cluesOf_cons,
      clues_other (by rw [hmeta]; decide), Script.eval, Script.eval_map]
    exact metadata_learns hc ht
  · rw [lookInto_handler hhdlr, hleaf (by rw [hhdlr]; decide),
      clues_other (by rw [hhdlr]; decide), Script.eval, Script.eval_bind]
    rcases (handler h f).run.eval t with ⟨e | u, t'⟩
    · rfl
    · rfl
  · have hname : h.name ∉ tellers := by
      rcases hgroup with hname | hname <;> rw [hname] <;> decide
    have hinside := hc.learns h.payload f t
    rw [lookInto_properties hgroup, looksInto_properties hgroup, cluesOf_cons, clues_other hname,
      Script.eval, Script.eval_bind]
    rcases hout : (children h.payload f).eval t with ⟨⟨e | u, f'⟩, t'⟩ <;> rw [hout] at hinside
    · exact hinside
    · exact hinside
  · rw [lookInto_extent hispe, hleaf (by rw [hispe]; decide)]
    exact findings_tells (extent_tells brands hispe ht)
  · rw [lookInto_rotation hirot, hleaf (by rw [hirot]; decide)]
    exact findings_tells (rotation_tells brands hirot ht)
  · rw [lookInto_media hmdat, hleaf (by rw [hmdat]; decide), clues_other (by rw [hmdat]; decide)]
    rfl
  · rw [lookInto_other hother, hleaf (holders_heeded hother), clues_other (tellers_heeded hother)]
    rfl

theorem box_learns (hc : journal.Learns brands children) {format : ImageFormat} {head : Bytes}
    {inside : Tape} (hh : (Box.header format head).Gives t h inside) (f : Findings) :
    findings ((box brands children format head f).eval t).1 =
      f.learn (cluesOf brands (looksInto journal h f (inside.clip h.payload))) := by
  rw [box_header hh, findings_visit]
  apply lookInto_learns hc
  exact List.length_take_le _ _

theorem boxes_learns (hc : journal.Learns brands children) (format : ImageFormat) (most : Nat)
    (f : Findings) (t : Tape) :
    ((boxes brands children format most f).eval t).1.2 =
      f.learn (cluesOf brands (boxesLooks brands children journal format most f t)) := by
  induction most generalizing f t with
  | zero => rfl
  | succ most ih =>
    rw [boxesLooks]
    by_cases hshort : (t.haul headLength).bytes.length < headLength
    · rw [boxes_short _ f hshort]
      simp only [if_pos hshort]
      rfl
    · rw [boxes_box most f hshort]
      simp only [if_neg hshort]
      rcases hh : (Box.header format (t.haul headLength).bytes).run.eval (t.drop headLength) with
        ⟨e | h, inside⟩
      · rw [box, Script.eval_bind, hh]
        rfl
      · have hbox := box_learns hc hh f
        rw [cluesOf_append, Findings.learn_append, ← hbox]
        rcases (box brands children format (t.haul headLength).bytes f).eval (t.drop headLength) with
          ⟨f' | o, rest⟩
        · exact ih f' rest
        · rfl

theorem level_learns (spare : Nat) :
    Journal.Learns brands (levelLooks brands spare) (level brands spare) := by
  induction spare with
  | zero => exact ⟨fun _ _ _ => rfl, fun _ _ _ _ => rfl⟩
  | succ spare ih =>
    constructor
    · intro room f t
      exact boxes_learns (enclosed_learns ih _) f.errorFormat _ f t
    · exact fun room f t => levelLooks_empty (spare + 1) room f

variable {ρ : Type} [ByteReader ρ]

theorem run_learns (brands : BrandRule) (s : Session ρ) :
    ((walk brands).run .never s).1.2 =
      (Findings.ofBrands brands).learn (clues brands (tape s.reader)) := by
  rw [run_level]
  exact (level_learns (maxDepth + 1)).learns _ _ _

end Heif

end ImageProbe
