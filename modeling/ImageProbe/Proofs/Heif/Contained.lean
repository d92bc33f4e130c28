import ImageProbe.Proofs.Contained
import ImageProbe.Proofs.Ensures
import ImageProbe.Proofs.Heif.Media
import ImageProbe.Proofs.Portions

namespace ImageProbe

open Box ByteReader Script

theorem Script.Ensures.outcome {α : Type} {stop : Stop} {Q : α → Prop} {p : Script α}
    (hp : p.Ensures Q) (t : Tape) (k : Nat) : Q (p.outcome stop t k).1 :=
  hp.run stop (⟨t, k, []⟩ : Session Tape)

namespace Heif

variable {stop : Stop} {brands : BrandRule} {children : Children} {format : ImageFormat}
  {p : Parcel} {f : Findings}

def topOn (brands : BrandRule) (stop : Stop) (f : Findings) (t : Tape) (k : Nat) : Showing Outcome :=
  (walk brands).outcomeFrom stop f t k

theorem outcome_decoder (brands : BrandRule) (stop : Stop) (t : Tape) (k : Nat) :
    Walk.outcome (decoder brands) stop t k =
      (topOn brands stop (.ofBrands brands) t k).map verdict id := by
  have hrun := (walk brands).run_andThen conclude stop (⟨t, k, []⟩ : Session Tape)
  have hfrom : topOn brands stop (.ofBrands brands) t k =
      ((walk brands).run stop (⟨t, k, []⟩ : Session Tape)).map id Session.core := rfl
  rw [Walk.outcome, decoder, hrun, hfrom]
  obtain ⟨log, hconclude⟩ := conclude_run ((walk brands).run stop (⟨t, k, []⟩ : Session Tape)).1 stop
    ((walk brands).run stop (⟨t, k, []⟩ : Session Tape)).2
  rw [hconclude]
  rfl

theorem box_outcome (hp : p.Fits) (t : Tape) (k : Nat) :
    (box brands children format p.head f).outcome stop ⟨p.tail ++ t.bytes, t.ending⟩ k =
      passed t ((lookInto brands children p.header f).outcome stop ⟨p.payload, none⟩ k) := by
  have hheader := outcome_of_checksOn stop
    (Header.quiet_header format p.head ⟨p.tail ++ t.bytes, t.ending⟩) k
  have hgives := Parcel.header_gives hp format t.bytes t.ending
  rw [Reading.Gives] at hgives
  rw [hgives] at hheader
  rw [box, outcome_bind, hheader]
  exact outcome_visit p.header_payload _ _ t k

theorem turn_outcome (hp : p.Fits) (t : Tape) (k : Nat) :
    ((walk brands).turn f).outcome stop ⟨p.bytes ++ t.bytes, t.ending⟩ k =
      passed t ((lookInto brands (enclosed 0 (level brands maxDepth)) p.header f).outcome stop
        ⟨p.payload, none⟩ k) := by
  obtain ⟨hhaul, hdrop⟩ := haul_bytes hp t
  have hlong : ¬ p.head.length < headLength := by
    rw [Parcel.length_head hp]
    exact Nat.lt_irrefl _
  change (turn brands f).outcome stop _ k = _
  rw [turn, outcome_fetch, hhaul, hdrop, if_neg hlong]
  exact box_outcome hp t k

theorem metadata_last (hname : p.name = ascii "meta") (t : Tape) (k : Nat) :
    ∃ o, ((lookInto brands children p.header f).outcome stop t k).1 = .done o := by
  have hlast : (lookInto brands children p.header f).Ensures fun x => ∃ o, x = .done o := by
    rw [lookInto_metadata (p.header_name ▸ hname)]
    exact ⟨fun _ => ⟨_, rfl⟩, Ensures.map (Ensures.of_forall (fun o => ⟨o, rfl⟩) _)⟩
  exact hlast.outcome t k

theorem group_outcome (hname : p.name = ascii "iprp" ∨ p.name = ascii "ipco") (t : Tape) (k : Nat)
    {o : Outcome} (h : ((lookInto brands children p.header f).outcome stop t k).1 = .done o) :
    ∃ e f', o = (.error e, f') := by
  have hfails : (lookInto brands children p.header f).Ensures
      fun x => ∀ o, x = .done o → ∃ e f', o = (.error e, f') := by
    rw [lookInto_properties (p.header_name ▸ hname)]
    constructor
    · rintro why o ⟨⟩
      exact ⟨_, f, rfl⟩
    · apply Ensures.bind_forall
      rintro ⟨e | u, f'⟩
      · rintro o ⟨⟩
        exact ⟨e, f', rfl⟩
      · rintro o ⟨⟩
  exact hfails.outcome t k o h

/-- A level that begins with these bytes goes on right behind them, or ends with an error, which may
be that of a stop. -/
def GoesOn (level : Findings → Tape → Nat → Showing Outcome) (first : Bytes) (f : Findings)
    (k : Nat) : Prop :=
  (∃ f' k', ∀ t : Tape, level f ⟨first ++ t.bytes, t.ending⟩ k = level f' t k') ∨
    ∃ e f' left k', Contained (level f) first k (.error e, f') left k'

/-- A level whose tape holds its boxes, and so as many of them at most as there is room for. -/
def boxesOn (brands : BrandRule) (children : Children) (format : ImageFormat) (stop : Stop)
    (f : Findings) (t : Tape) (k : Nat) : Showing Outcome :=
  (boxes brands children format (t.bytes.length / headLength) f).outcome stop t k

theorem boxes_next (most : Nat) (f : Findings) {t : Tape}
    (hmost : t.bytes.length < headLength * (most + 1)) (k : Nat) :
    (boxes brands children format (most + 1) f).outcome stop t k =
      (boxes brands children format most f).outcome stop t k := by
  induction most generalizing f t k with
  | zero =>
    have hshort : (t.haul headLength).bytes.length < headLength := by
      simp only [Tape.haul, List.length_take]
      omega
    rw [boxes, boxes, outcome_fetch, outcome_fetch, if_pos hshort]
  | succ most ih =>
    rw [boxes, outcome_fetch]
    conv_rhs => rw [boxes, outcome_fetch]
    split
    · rfl
    · rename_i hlong
      rw [outcome_bind, outcome_bind]
      have hrest := outcome_length_le stop (box brands children format (t.haul headLength).bytes f)
        (t.drop headLength) k
      generalize (box brands children format (t.haul headLength).bytes f).outcome stop
        (t.drop headLength) k = out at hrest ⊢
      rcases out with ⟨f' | o, rest, k'⟩
      · apply ih
        rw [Tape.drop_length] at hrest
        simp only [Tape.haul, List.length_take] at hlong
        rw [headLength] at *
        dsimp only at hrest ⊢
        omega
      · rfl

theorem boxes_enough {most : Nat} (f : Findings) {t : Tape}
    (hmost : t.bytes.length / headLength ≤ most) (k : Nat) :
    (boxes brands children format most f).outcome stop t k =
      boxesOn brands children format stop f t k := by
  induction most with
  | zero => rw [boxesOn, Nat.le_zero.1 hmost]
  | succ most ih =>
    rcases Nat.lt_or_ge most (t.bytes.length / headLength) with hlt | hle
    · rw [boxesOn, show t.bytes.length / headLength = most + 1 by omega]
    · rw [← ih hle]
      apply boxes_next
      rw [headLength] at *
      omega

theorem level_on (spare room : Nat) (f : Findings) {t : Tape} (hroom : t.bytes.length ≤ room)
    (k : Nat) :
    (level brands (spare + 1) room f).outcome stop t k =
      boxesOn brands (enclosed (maxDepth - spare) (level brands spare)) f.errorFormat stop f t k :=
  boxes_enough f (Nat.div_le_div_right hroom) k

theorem boxesOn_head {head : Bytes} (hhead : head.length = headLength) (t : Tape) (k : Nat) :
    boxesOn brands children format stop f ⟨head ++ t.bytes, t.ending⟩ k =
      Walk.follow (boxesOn brands children format stop)
        ((box brands children format head f).outcome stop t k) := by
  have hcount : (head ++ t.bytes).length / headLength = t.bytes.length / headLength + 1 := by
    rw [List.length_append, hhead, Nat.add_div_left _ (by decide)]
  have hlong : ¬ (head ++ t.bytes).length < headLength := by
    rw [List.length_append, hhead]
    omega
  have hrest := outcome_length_le stop (box brands children format head f) t k
  rw [boxesOn, hcount, boxes, outcome_fetch, Tape.haul, Tape.drop, List.take_left' hhead,
    List.drop_left' hhead, if_neg hlong, if_neg (Nat.not_lt.2 (Nat.le_of_eq hhead.symm)),
    outcome_bind]
  generalize (box brands children format head f).outcome stop t k = out at hrest ⊢
  rcases out with ⟨f' | o, rest, k'⟩
  · exact boxes_enough f' (Nat.div_le_div_right hrest) k'
  · rfl

theorem boxesOn_box (hp : p.Fits) (t : Tape) (k : Nat) :
    boxesOn brands children format stop f ⟨p.bytes ++ t.bytes, t.ending⟩ k =
      Walk.follow (boxesOn brands children format stop)
        (passed t ((lookInto brands children p.header f).outcome stop ⟨p.payload, none⟩ k)) := by
  rw [← box_outcome hp, Parcel.bytes, List.append_assoc]
  exact boxesOn_head (Parcel.length_head hp) ⟨p.tail ++ t.bytes, t.ending⟩ k

theorem topOn_box (hp : p.Fits) (f : Findings) (t : Tape) (k : Nat) :
    topOn brands stop f ⟨p.bytes ++ t.bytes, t.ending⟩ k =
      Walk.follow (topOn brands stop)
        (passed t ((lookInto brands (enclosed 0 (level brands maxDepth)) p.header f).outcome stop
          ⟨p.payload, none⟩ k)) := by
  rw [← turn_outcome hp]
  exact (walk brands).outcomeFrom_eq f _ k

theorem goesOn_group {level : Findings → Tape → Nat → Showing Outcome} {k : Nat}
    (hname : p.name = ascii "iprp" ∨ p.name = ascii "ipco")
    (hlevel : ∀ t : Tape, level f ⟨p.bytes ++ t.bytes, t.ending⟩ k = Walk.follow level
      (passed t ((lookInto brands children p.header f).outcome stop ⟨p.payload, none⟩ k))) :
    GoesOn level p.bytes f k := by
  rcases hout : (lookInto brands children p.header f).outcome stop ⟨p.payload, none⟩ k with
    ⟨f' | o, left, k'⟩
  · refine .inl ⟨f', k', fun t => ?_⟩
    rw [hlevel, hout]
    rfl
  · obtain ⟨e, f', rfl⟩ := group_outcome hname ⟨p.payload, none⟩ k (congrArg Prod.fst hout)
    refine .inr ⟨e, f', left.bytes, k', fun t => ?_⟩
    rw [hlevel, hout]
    rfl

theorem metadata_contained (brands : BrandRule) (stop : Stop) (hp : p.Fits)
    (hname : p.name = ascii "meta") (f : Findings) (k : Nat) :
    ∃ r left k', Contained (topOn brands stop f) p.bytes k r left k' := by
  obtain ⟨o, hlast⟩ := @metadata_last stop brands (enclosed 0 (level brands maxDepth)) p f hname
    ⟨p.payload, none⟩ k
  rcases hout : (lookInto brands (enclosed 0 (level brands maxDepth)) p.header f).outcome stop
    ⟨p.payload, none⟩ k with ⟨r, left, k'⟩
  rw [hout] at hlast
  obtain rfl : r = .done o := hlast
  refine ⟨o, left.bytes, k', fun t => ?_⟩
  rw [topOn_box hp, hout]
  rfl

theorem decoder_contained (stop : Stop) (hp : p.Fits) (hname : p.name = ascii "meta")
    {before behind : Bytes} {e e' : Option Fault} (k : Nat)
    (hreach : (walk brands).Reaches (.ofBrands brands) ⟨before ++ (p.bytes ++ behind), e⟩ f
      ⟨p.bytes ++ behind, e'⟩) :
    ∃ r left k', Contained (Walk.outcome (decoder brands) stop) (before ++ p.bytes) k r left k' := by
  obtain ⟨r, left, k', hwalk⟩ : ∃ r left k', Contained
      (topOn brands stop (.ofBrands brands)) (before ++ p.bytes) k r left k' := by
    rcases hreach.outcomeFrom (walk_heeds brands) stop (Parcel.bytes_append_ne_nil hp behind) k with
      ⟨-, o, left, k', -, hstop⟩ | ⟨k', hon⟩
    · refine ⟨o, left ++ p.bytes, k', fun t => ?_⟩
      rw [List.append_assoc, List.append_assoc]
      exact hstop ⟨p.bytes ++ t.bytes, t.ending⟩
    · obtain ⟨r, left, k'', hmeta⟩ := metadata_contained brands stop hp hname f k'
      refine ⟨r, left, k'', fun t => ?_⟩
      rw [List.append_assoc]
      exact (hon ⟨p.bytes ++ t.bytes, t.ending⟩).trans (hmeta t)
  refine ⟨verdict r, left, k', fun t => ?_⟩
  rw [outcome_decoder, hwalk t]
  rfl

variable {ρ σ : Type} [ByteReader ρ] [ByteReader σ]

theorem shown_of_contained {w : Walk (Except ProbeError ImageInfo)} {first left : Bytes} {k : Nat}
    {res : Except ProbeError ImageInfo}
    (h : Contained (w.outcome stop) first 0 res left k) {r : ρ} {rest : Bytes}
    (hr : (tape r).bytes = first ++ rest) (log : List Note) :
    shown r (w.answer stop r log) = (res, first.length - left.length, k) := by
  have hout := h ⟨rest, (tape r).ending⟩
  rw [← hr] at hout
  obtain ⟨hres, ht, hk⟩ := answer_of_outcome log hout
  have htaken : taken r (w.answer stop r log).2.reader = first.length - left.length := by
    rw [taken, ht, hr]
    simp only [List.length_append]
    omega
  rw [shown, hres, hk, htaken]

/-- Metadata that are all there are the last box: what is in them may be as it likes, what comes
behind them counts for nothing, and none of it is taken. Behind a box of properties that is all there
its level goes on, at the first byte behind it, or it has ended with an error; this is so at the top,
and in the boxes of a tape, which all the levels below are. -/
theorem boxes_contained (brands : BrandRule) (stop : Stop) {p : Parcel} (hp : p.Fits) :
    (p.name = ascii "meta" → ∀ (r : ρ) (r' : σ) (log log' : List Note) (before behind behind' : Bytes)
        (f : Findings), (tape r).bytes = before ++ (p.bytes ++ behind) →
        (tape r').bytes = before ++ (p.bytes ++ behind') →
        (walk brands).Reaches (.ofBrands brands) (tape r) f ⟨p.bytes ++ behind, (tape r).ending⟩ →
        shown r ((decoder brands).decode stop ⟨r, 0, log⟩) =
            shown r' ((decoder brands).decode stop ⟨r', 0, log'⟩) ∧
          taken r ((decoder brands).decode stop ⟨r, 0, log⟩).2.reader ≤
            before.length + p.bytes.length) ∧
    (p.name = ascii "iprp" ∨ p.name = ascii "ipco" → ∀ (f : Findings) (k : Nat),
      GoesOn (topOn brands stop) p.bytes f k ∧
        ∀ children format, GoesOn (boxesOn brands children format stop) p.bytes f k) ∧
    ∀ spare room f (t : Tape) k, t.bytes.length ≤ room →
      (level brands (spare + 1) room f).outcome stop t k =
        boxesOn brands (enclosed (maxDepth - spare) (level brands spare)) f.errorFormat stop f t k := by
  refine ⟨?_, fun hname f k => ⟨?_, fun children format => ?_⟩, ?_⟩
  · intro hname r r' log log' before behind behind' f hr hr' hreach
    have htape : tape r = ⟨before ++ (p.bytes ++ behind), (tape r).ending⟩ := by rw [← hr]
    rw [htape] at hreach
    obtain ⟨res, left, k, hcontained⟩ := decoder_contained stop hp hname 0 hreach
    rw [← List.append_assoc] at hr hr'
    have hshown := shown_of_contained hcontained hr log
    constructor
    · exact hshown.trans (shown_of_contained hcontained hr' log').symm
    · have htaken : taken r ((decoder brands).decode stop ⟨r, 0, log⟩).2.reader = _ :=
        congrArg (·.2.1) hshown
      rw [htaken, ← List.length_append]
      exact Nat.sub_le _ _
  · exact goesOn_group hname fun t => topOn_box hp f t k
  · exact goesOn_group hname fun t => boxesOn_box hp t k
  · exact fun spare room f t k hroom => level_on spare room f hroom k

def oversized : Parcel where
  wide := false
  name := ascii "meta"
  payload := [0, 0, 0, 0] ++ sizeBox 10 10 ++ [0, 0, 1, 0] ++ ascii "ipco" ++ sizeBox 20 20

def brokenGroup : Parcel := ⟨true, ascii "iprp", [0, 0, 0, 3] ++ ascii "ispe"⟩

theorem boxes_contained_oversized :
    let r : Tape := ⟨heicParcel.bytes ++ (oversized.bytes ++ (sizeParcel 30 30).bytes), none⟩
    let r' : Tape := ⟨heicParcel.bytes ++ (oversized.bytes ++ mediaParcel.bytes), none⟩
    oversized.Fits ∧ brokenGroup.Fits ∧
      ((decoder heifBrands).decode .never ⟨r, 0, []⟩).1 = .ok ⟨.heic, 20, 20⟩ ∧
      shown r ((decoder heifBrands).decode .never ⟨r, 0, []⟩) =
        shown r' ((decoder heifBrands).decode .never ⟨r', 0, []⟩) ∧
      GoesOn (topOn heifBrands .never) brokenGroup.bytes (.ofBrands heifBrands) 0 := by
  intro r r'
  have hfits : oversized.Fits := by decide +kernel
  have hgroup : brokenGroup.Fits := by decide +kernel
  have hreach : (walk heifBrands).Reaches (.ofBrands heifBrands) r ⟨some .heic, []⟩
      ⟨oversized.bytes ++ (sizeParcel 30 30).bytes, none⟩ := by
    refine .turn ?_ (.here _ _)
    have hheic : heicParcel.Fits := by decide
    have hformat : (brandsOf heicParcel.payload).findSome? heifBrands.format? = some .heic := by
      decide
    refine (eval_turn hheic _ ⟨oversized.bytes ++ (sizeParcel 30 30).bytes, none⟩).trans ?_
    exact box_more hheic (look_fileType rfl (by decide) hformat) _
  have hr : (tape r).bytes = heicParcel.bytes ++ (oversized.bytes ++ (sizeParcel 30 30).bytes) := rfl
  have hr' : (tape r').bytes = heicParcel.bytes ++ (oversized.bytes ++ mediaParcel.bytes) := rfl
  obtain ⟨hshown, -⟩ := (boxes_contained heifBrands .never hfits).1 rfl r r' [] [] heicParcel.bytes
    (sizeParcel 30 30).bytes mediaParcel.bytes ⟨some .heic, []⟩ hr hr' hreach
  refine ⟨hfits, hgroup, by decide +kernel, hshown, ?_⟩
  exact ((boxes_contained (ρ := Tape) (σ := Tape) heifBrands .never hgroup).2.1 (.inl rfl) _ 0).1

end Heif

end ImageProbe
