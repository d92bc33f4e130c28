import ImageProbe.Proofs.Agree
import ImageProbe.Proofs.Jpeg.Segments

namespace ImageProbe

namespace Jpeg

open ByteReader Reading

variable {stop : Stop} {m : UInt8} {bs : Bytes} {e : Option Fault}

def searchOn (stop : Stop) (state : Scan) (t : Tape) (k : Nat) :
    Showing (Except ProbeError ImageInfo) :=
  Walk.outcomeFrom decoder stop state t k

theorem searchOn_of_turn {state : Scan} {t : Tape} {k : Nat}
    {out : Showing (Step Scan (Except ProbeError ImageInfo))}
    (h : (decoder.turn state).outcome stop t k = out) :
    searchOn stop state t k = Walk.follow (searchOn stop) out :=
  (Walk.outcomeFrom_eq decoder state t k).trans (congrArg (Walk.follow (searchOn stop)) h)

theorem searchOn_short (stop : Stop) (state : Scan) {t : Tape}
    (h : t.bytes.length < reach state + 1) (k : Nat) :
    searchOn stop state t k = (.error (shortageAt t.ending), ⟨[], t.ending⟩, k) := by
  rw [searchOn_of_turn (Walk.outcome_turn_short (w := decoder) h k)]
  change (Except.error (t.haul (reach state + 1)).shortage, t.drop (reach state + 1), k) = _
  rw [shortage_of_short h, (Tape.haul_short h).2]

theorem searchOn_fill (k : Nat) :
    searchOn stop .marker ⟨0xff :: 0xff :: bs, e⟩ k = searchOn stop .filling ⟨bs, e⟩ k := by
  have hround : ([0xff, 0xff] : Bytes).length = decoder.reach Scan.marker + 1 := rfl
  exact searchOn_of_turn (Walk.outcome_turn hround ⟨bs, e⟩ k)

theorem searchOn_filling (k : Nat) :
    searchOn stop .filling ⟨0xff :: bs, e⟩ k = searchOn stop .filling ⟨bs, e⟩ k := by
  have hround : ([0xff] : Bytes).length = decoder.reach Scan.filling + 1 := rfl
  exact searchOn_of_turn (Walk.outcome_turn hround ⟨bs, e⟩ k)

theorem searchOn_upon {state state' : Scan} {front front' : Bytes} (h : Upon state front m)
    (h' : Upon state' front' m) (t : Tape) (k : Nat) :
    searchOn stop state ⟨front ++ t.bytes, t.ending⟩ k =
      searchOn stop state' ⟨front' ++ t.bytes, t.ending⟩ k := by
  rw [searchOn_of_turn (h.outcome_turn t k), searchOn_of_turn (h'.outcome_turn t k)]

theorem searchOn_filled (h : bs.head? ≠ some 0) (k : Nat) :
    searchOn stop .marker ⟨0xff :: bs, e⟩ k = searchOn stop .filling ⟨bs, e⟩ k := by
  cases bs with
  | nil =>
    have hmarker := searchOn_short stop .marker (t := ⟨[0xff], e⟩) (Nat.lt_succ_self 1) k
    have hfilling := searchOn_short stop .filling (t := ⟨[], e⟩) (Nat.lt_succ_self 0) k
    exact hmarker.trans hfilling.symm
  | cons m bs =>
    have hzero : m ≠ 0 := fun hm => h (congrArg some hm)
    by_cases hfill : m = 0xff
    · subst hfill
      rw [searchOn_fill, searchOn_filling]
    · exact searchOn_upon (.marker hzero hfill) (.filling hfill) ⟨bs, e⟩ k

theorem comesFrom_short {state : Scan} {t : Tape} (h : t.bytes.length < reach state + 1) :
    decoder.ComesFrom state t (.error (shortageAt t.ending)) := by
  refine .done ?_
  rw [eval_turn, if_pos h, shortage_of_short h]
  rfl

theorem comesFrom_zero (d : Bytes) (e : Option Fault) {r : Except ProbeError ImageInfo}
    (h : decoder.ComesFrom .marker ⟨d.drop (max 2 (declared d)), e⟩ r) :
    decoder.ComesFrom .filling ⟨0 :: d, e⟩ r := by
  have hturn := (Upon.filling (m := 0) (by decide)).eval_turn ⟨d, e⟩
  have hgoes := segment_goes 0 ⟨d, e⟩
  have hlost {n : Nat} (hn : d.length < n) (hmax : n ≤ max 2 (declared d))
      (hturn : ((decoder.turn Scan.filling).eval ⟨0 :: d, e⟩).1 = .done (.error (shortageAt e))) :
      decoder.ComesFrom .filling ⟨0 :: d, e⟩ r := by
    have hnil : d.drop (max 2 (declared d)) = [] := List.drop_of_length_le (by omega)
    rw [hnil] at h
    obtain rfl := Walk.comesFrom_unique h (comesFrom_short (Nat.succ_pos 1))
    exact .done hturn
  rw [← hturn] at hgoes
  generalize hout : (decoder.turn Scan.filling).eval ⟨[0] ++ d, e⟩ = out at hgoes
  cases hgoes with
  | ended hm => exact absurd hm (by decide)
  | restarted hm => exact absurd hm (by decide)
  | framed hm => exact absurd hm (by decide)
  | scan hm => exact absurd hm (by decide)
  | cut _ short => exact hlost short (Nat.le_max_left _ _) (congrArg Prod.fst hout)
  | lost _ _ _ cut => exact hlost cut (Nat.le_max_right _ _) (congrArg Prod.fst hout)
  | empty _ _ short =>
    rw [Nat.max_eq_left short] at h
    exact .more hout h
  | skipped _ _ long =>
    rw [Nat.max_eq_right (Nat.le_of_succ_le long)] at h
    exact .more hout h

theorem outcome_start (t : Tape) (k : Nat) :
    decoder.start.outcome stop ⟨[0xff, 0xd8] ++ t.bytes, t.ending⟩ k =
      (stop k).elim (.more .marker, t, k + 1)
        fun why => (.done (.error (.stopped why)), t, k + 1) := by
  have hread : (exactly 2).Gives ⟨[0xff, 0xd8] ++ t.bytes, t.ending⟩ [0xff, 0xd8] t :=
    .exactly rfl t.ending
  change (Step.settle <$> start.run).outcome stop _ k = _
  rw [Script.outcome_map, start, outcome_bind_gives stop (.exactly 2) hread,
    outcome_bind_gives stop (.require _ _ _) (.require .jpeg (decide_eq_true rfl) _ t), nextMarker,
    outcome_bind_check]
  cases stop k <;> rfl

theorem outcome_marked (stop : Stop) (t : Tape) (k : Nat) :
    Walk.outcome decoder stop ⟨[0xff, 0xd8] ++ t.bytes, t.ending⟩ k =
      (stop k).elim (searchOn stop .marker t (k + 1))
        fun why => (.error (.stopped why), t, k + 1) := by
  refine (Walk.outcome_eq decoder _ k).trans ?_
  refine (congrArg (Walk.follow (searchOn stop)) (outcome_start t k)).trans ?_
  cases stop k <;> rfl

theorem comes_marked {t : Tape} {r : Except ProbeError ImageInfo}
    (h : decoder.ComesFrom .marker t r) : decoder.Comes ⟨[0xff, 0xd8] ++ t.bytes, t.ending⟩ r :=
  .more rfl h

/-- What the decoder comes to on the mark of an image and these bytes behind it. -/
def image (t : Tape) : Except ProbeError ImageInfo :=
  (decoder.decode .never (⟨⟨[0xff, 0xd8] ++ t.bytes, t.ending⟩, 0, []⟩ : Session Tape)).1

variable {ρ σ : Type} [ByteReader ρ] [ByteReader σ]

theorem decode_of_comesFrom {t : Tape} {r : Except ProbeError ImageInfo}
    (h : decoder.ComesFrom .marker t r) (stop : Stop) {s : Session ρ}
    (hs : tape s.reader = ⟨[0xff, 0xd8] ++ t.bytes, t.ending⟩) :
    Decoder.Halted stop (decoder.decode stop s).1 ∨ (decoder.decode stop s).1 = r := by
  have hcomes := comes_marked h
  rw [← hs] at hcomes
  exact decoder_heeds.run_result stop hcomes.run_never

theorem image_of_comesFrom {t : Tape} {r : Except ProbeError ImageInfo}
    (h : decoder.ComesFrom .marker t r) : image t = r :=
  (decode_of_comesFrom h .never rfl).resolve_left (Decoder.not_halted_never _)

/-- One more `ff` before one that the search begins a round with. If no zero comes next, nothing
changes; if one does, it was no marker before and is one now, and the results agree exactly if the
search comes to the same from right behind the zero and from behind what the two bytes there
measure. -/
theorem fill_inserted_iff {a c : Bytes} {e : Option Fault}
    (hround : decoder.Reaches .marker ⟨a ++ 0xff :: c, e⟩ .marker ⟨0xff :: c, e⟩)
    {s : Session ρ} {s' : Session σ} (hs : tape s.reader = ⟨[0xff, 0xd8] ++ (a ++ 0xff :: c), e⟩)
    (hs' : tape s'.reader = ⟨[0xff, 0xd8] ++ (a ++ 0xff :: 0xff :: c), e⟩)
    (hchecks : s.checks = s'.checks) (stop : Stop) :
    let out := decoder.decode stop s
    let out' := decoder.decode stop s'
    (c.head? ≠ some 0 → out.1 = out'.1 ∧ out.2.checks = out'.2.checks) ∧
      ∀ d, c = 0 :: d → Decoder.Halted stop out.1 ∨ Decoder.Halted stop out'.1 ∨
        (out.1 = out'.1 ↔ image ⟨d, e⟩ = image ⟨d.drop (max 2 (bigEndian (d.take 2))), e⟩) := by
  intro out out'
  have hsome : (0xff :: c : Bytes) ≠ [] := List.cons_ne_nil _ _
  refine ⟨fun hhead => AgreeBy.decode ?_, ?_⟩
  · have hmarked := outcome_marked stop ⟨a ++ 0xff :: c, e⟩ s.checks
    have hmarked' := outcome_marked stop ⟨a ++ 0xff :: 0xff :: c, e⟩ s.checks
    rw [hs, hs', ← hchecks, hmarked, hmarked']
    cases stop s.checks with
    | some why => exact ⟨rfl, rfl⟩
    | none =>
      have hthere (k : Nat) : AgreeBy id (searchOn stop .marker ⟨0xff :: c, e⟩ k)
          (searchOn stop .marker ⟨0xff :: 0xff :: c, e⟩ k) :=
        .of_eq ((searchOn_filled hhead k).trans (searchOn_fill k).symm)
      exact AgreeBy.reaches decoder_heeds hround hsome hthere (s.checks + 1)
  · rintro d rfl
    obtain ⟨r, hr⟩ := decoder.exists_comesFrom Scan.marker ⟨d, e⟩
    obtain ⟨r', hr'⟩ := decoder.exists_comesFrom Scan.marker ⟨d.drop (max 2 (declared d)), e⟩
    have hstuffed : decoder.ComesFrom .marker ⟨0xff :: 0 :: d, e⟩ r := .more rfl hr
    have hfilled : decoder.ComesFrom .marker ⟨0xff :: 0xff :: 0 :: d, e⟩ r' :=
      .more rfl (comesFrom_zero d e hr')
    have hinserted := hround.elsewhere hsome ⟨0xff :: 0xff :: 0 :: d, e⟩
    rw [image_of_comesFrom hr]
    have himage : image ⟨d.drop (max 2 (bigEndian (d.take 2))), e⟩ = r' := image_of_comesFrom hr'
    rw [himage]
    rcases decode_of_comesFrom (hround.comesFrom hstuffed) stop hs with hhalted | hout
    · exact .inl hhalted
    rcases decode_of_comesFrom (hinserted.comesFrom hfilled) stop hs' with hhalted | hout'
    · exact .inr (.inl hhalted)
    · refine .inr (.inr ?_)
      rw [← hout, ← hout']

def threeByTwo : Bytes := [0xc0, 0, 0x0b, 8, 0, 2, 0, 3]

theorem fill_inserted_beforeFrame :
    let tables : Bytes := [0xff, 0xdb, 0, 3, 0xaa]
    let file : Tape := ⟨[0xff, 0xd8] ++ (tables ++ 0xff :: threeByTwo), none⟩
    let filled : Tape := ⟨[0xff, 0xd8] ++ (tables ++ 0xff :: 0xff :: threeByTwo), none⟩
    decoder.Reaches Scan.marker ⟨tables ++ 0xff :: threeByTwo, none⟩ Scan.marker
        ⟨0xff :: threeByTwo, none⟩ ∧
      (decoder.decode .never (⟨file, 0, []⟩ : Session Tape)).1 = .ok ⟨.jpeg, 3, 2⟩ ∧
      (decoder.decode .never (⟨file, 0, []⟩ : Session Tape)).1 =
        (decoder.decode .never (⟨filled, 0, []⟩ : Session Tape)).1 := by
  intro tables file filled
  have hround : decoder.Reaches Scan.marker ⟨tables ++ 0xff :: threeByTwo, none⟩ Scan.marker
      ⟨0xff :: threeByTwo, none⟩ := .turn rfl (.here _ _)
  have hfile : tape (⟨file, 0, []⟩ : Session Tape).reader = file := rfl
  have hfilled : tape (⟨filled, 0, []⟩ : Session Tape).reader = filled := rfl
  have hsame := (fill_inserted_iff hround hfile hfilled rfl .never).1 (by decide)
  exact ⟨hround, by decide +kernel, hsame.1⟩

theorem fill_inserted_beforeStuffed :
    let stuffed : Bytes := 0 :: 0xff :: threeByTwo
    let file : Tape := ⟨[0xff, 0xd8] ++ ([] ++ 0xff :: stuffed), none⟩
    let filled : Tape := ⟨[0xff, 0xd8] ++ ([] ++ 0xff :: 0xff :: stuffed), none⟩
    decoder.Reaches Scan.marker ⟨[] ++ 0xff :: stuffed, none⟩ Scan.marker ⟨0xff :: stuffed, none⟩ ∧
      (decoder.decode .never (⟨file, 0, []⟩ : Session Tape)).1 = .ok ⟨.jpeg, 3, 2⟩ ∧
      (decoder.decode .never (⟨filled, 0, []⟩ : Session Tape)).1 = .error .endOfData := by
  intro stuffed file filled
  refine ⟨.here _ _, ?_, ?_⟩
  · decide +kernel
  · decide +kernel

end Jpeg

end ImageProbe
