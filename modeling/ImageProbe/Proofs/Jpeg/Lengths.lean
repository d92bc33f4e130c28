import ImageProbe.Proofs.Jpeg.Segments

namespace ImageProbe

namespace Jpeg

open ByteReader Reading

/-- A search that begins a round with this tape comes upon this marker, with that tape behind it. -/
def Meets (start : Tape) (m : UInt8) (t : Tape) : Prop :=
  ∃ state front, decoder.Reaches Scan.marker start state ⟨front ++ t.bytes, t.ending⟩ ∧
    Upon state front m

/-- The bytes that the search takes from right behind a marker until its round ends. -/
def spent (m : UInt8) (t : Tape) : Nat :=
  t.bytes.length - (Search.step (segment m) t).2.bytes.length

/-- No more is taken than the length behind the marker tells; its own two bytes are read to know it. -/
def Within (m : UInt8) (t : Tape) : Prop := spent m t ≤ max 2 (declared t.bytes)

variable {m : UInt8} {t : Tape}

theorem length_left_drop (t : Tape) (n : Nat) :
    t.bytes.length - (t.drop n).bytes.length = min n t.bytes.length := by
  rw [Tape.drop_length]
  omega

theorem spent_le (hm : m ∉ frames) : spent m t ≤ max 2 (declared t.bytes) := by
  have hgoes := segment_goes m t
  rw [spent]
  generalize Search.step (segment m) t = out at hgoes
  cases hgoes with
  | framed hframe => exact absurd hframe hm
  | ended => simp only [Nat.sub_self, Nat.zero_le]
  | restarted => simp only [Nat.sub_self, Nat.zero_le]
  | cut =>
    simp only [length_left_drop]
    omega
  | empty =>
    simp only [length_left_drop]
    omega
  | scan =>
    simp only [length_left_drop]
    omega
  | skipped =>
    simp only [length_left_drop]
    omega
  | lost =>
    simp only [length_left_drop]
    omega

theorem spent_frame (hm : m ∈ frames) (t : Tape) :
    spent m t = min (if 3 ≤ declared t.bytes then 7 else 2) t.bytes.length := by
  rw [spent]
  rcases (segment_goes m t).of_frame hm with ⟨short, hleft⟩ | ⟨-, long, r, hstep⟩
  · rw [hleft, length_left_drop]
    split <;> omega
  · rw [hstep, length_left_drop, if_pos long]

theorem within_iff (m : UInt8) (t : Tape) : Within m t ↔
    (m ∈ frames → 3 ≤ declared t.bytes → min 7 t.bytes.length ≤ declared t.bytes) := by
  by_cases hm : m ∈ frames
  · rw [Within, spent_frame hm]
    split
    · rename_i long
      simp only [hm, long, true_implies]
      omega
    · rename_i short
      exact iff_of_true (by omega) fun _ long => absurd long short
  · exact iff_of_true (spent_le hm) fun h => absurd h hm

variable {start t' : Tape} {m' : UInt8}

theorem Meets.last {r r' : Except ProbeError ImageInfo} (h : Meets start m t) (h' : Meets start m' t')
    (hdone : (Search.step (segment m) t).1 = .done r)
    (hdone' : (Search.step (segment m') t').1 = .done r') : m = m' ∧ t = t' := by
  obtain ⟨state, front, hreach, hupon⟩ := h
  obtain ⟨state', front', hreach', hupon'⟩ := h'
  rw [← hupon.eval_turn] at hdone
  rw [← hupon'.eval_turn] at hdone'
  obtain ⟨rfl, htape⟩ := hreach.last hreach' hdone hdone'
  obtain ⟨hbytes, hending⟩ := Tape.mk.inj htape
  obtain ⟨rfl, hrest⟩ := List.append_inj hbytes (hupon.length.trans hupon'.length.symm)
  have hmarker : m = m' := by
    cases hupon <;> cases hupon' <;> rfl
  refine ⟨hmarker, ?_⟩
  cases t
  cases t'
  cases hrest
  cases hending
  rfl

variable {ρ : Type} [ByteReader ρ]

theorem found_of_ok {stop : Stop} {s : Session ρ} {info : ImageInfo}
    (h : (decoder.decode stop s).1 = .ok info) :
    ∃ (start : Tape) (m : UInt8) (body : Bytes) (left : Tape),
      tape s.reader = ⟨[0xff, 0xd8] ++ start.bytes, start.ending⟩ ∧
      tape (decoder.decode stop s).2.reader = left ∧
      Meets start m ⟨body ++ left.bytes, left.ending⟩ ∧
      Search.step (segment m) ⟨body ++ left.bytes, left.ending⟩ = (.done (.ok info), left) ∧
      Head m body (info.width, info.height) ∧ info.format = .jpeg := by
  -- A search that is not stopped is the one that nothing stops.
  have hsame : decoder.decode stop s = decoder.decode .never s := by
    rcases (decoder_heeds.run stop s).result with ⟨i, why, -, htold⟩ | hsame
    · exact absurd (h ▸ htold) (not_told_ok why info)
    · exact hsame
  rw [hsame] at h ⊢
  have hcases := start_cases (tape s.reader)
  have hrun := Walk.run_reaches decoder s
  have hok : (Walk.run decoder .never s).1 = .ok info := h
  rw [hok] at hrun
  rcases hrun with hstart | hrounds
  · rcases hcases with ⟨e, t', hstep, -⟩ | ⟨u, -, hstep⟩
    · exact nomatch (congrArg Prod.fst hstep).symm.trans hstart
    · exact nomatch (congrArg Prod.fst hstep).symm.trans hstart
  obtain ⟨state, start, state', t', hstart, hreach, hdone⟩ := hrounds
  rcases hcases with ⟨e, u, hstep, -⟩ | ⟨u, hmark, hstep⟩
  · exact nomatch (congrArg Prod.fst hstep).symm.trans (congrArg Prod.fst hstart)
  obtain ⟨hstate, rfl⟩ := Prod.mk.inj (hstep.symm.trans hstart)
  cases hstate
  obtain ⟨m, front, v, hupon, rfl⟩ := upon_of_done (congrArg Prod.fst hdone)
  have hsegment := (hupon.eval_turn v).symm.trans hdone
  obtain ⟨body, hhead, hformat, rfl⟩ := segment_ok hsegment
  exact ⟨u, m, body, _, hmark, rfl, ⟨state', front, hreach, hupon⟩, hsegment, hhead, hformat⟩

theorem declared_append {bs : Bytes} (h : 2 ≤ bs.length) (rest : Bytes) :
    declared (bs ++ rest) = declared bs := by
  rw [declared, declared, List.take_append_of_le_length h]

theorem Head.length {body : Bytes} {size : Nat × Nat} (h : Head m body size) : body.length = 7 := by
  obtain ⟨-, hlength, -, hheight, hwidth⟩ := h
  simp only [List.length_append, List.length_cons, hlength, hheight, hwidth]

theorem Head.declared_long {body : Bytes} {size : Nat × Nat} (h : Head m body size) :
    3 ≤ declared body := by
  obtain ⟨-, hlength, long, -, -⟩ := h
  rwa [declared, List.take_left' hlength]

/-- Behind any marker only the head of a frame may be taken from beyond the length that stands there.
A result comes from a frame that the search has met, the last thing that it takes, and all that was
taken is within its lengths exactly if the length of that frame tells the seven bytes of its head. -/
theorem lengths_kept_iff (stop : Stop) (s : Session ρ) :
    (∀ m t, Within m t ↔
      (m ∈ frames → 3 ≤ declared t.bytes → min 7 t.bytes.length ≤ declared t.bytes)) ∧
    ∀ info, (decoder.decode stop s).1 = .ok info →
      ∃ (start : Tape) (m : UInt8) (body : Bytes) (left : Tape),
        tape s.reader = ⟨[0xff, 0xd8] ++ start.bytes, start.ending⟩ ∧
        tape (decoder.decode stop s).2.reader = left ∧
        Meets start m ⟨body ++ left.bytes, left.ending⟩ ∧
        Head m body (info.width, info.height) ∧ info.format = .jpeg ∧
        ((∀ m' t', Meets start m' t' → Within m' t') ↔ 7 ≤ declared body) := by
  refine ⟨within_iff, fun info h => ?_⟩
  obtain ⟨start, m, body, left, htape, hleft, hmeets, hstep, hhead, hformat⟩ := found_of_ok h
  have hlength : body.length = 7 := hhead.length
  have hdeclared : declared (body ++ left.bytes) = declared body :=
    declared_append (by omega) left.bytes
  refine ⟨start, m, body, left, htape, hleft, hmeets, hhead, hformat, ?_⟩
  constructor
  · intro hwithin
    have hframe := (within_iff m _).1 (hwithin m _ hmeets) hhead.marker_mem
    rw [hdeclared, List.length_append, hlength, Nat.min_eq_left (Nat.le_add_right 7 _)] at hframe
    exact hframe hhead.declared_long
  · intro hlong m' t' hmeets'
    refine (within_iff m' t').2 fun hm' long => ?_
    rcases (segment_goes m' t').of_frame hm' with ⟨short, -⟩ | ⟨-, -, r, hstep'⟩
    · omega
    · obtain ⟨rfl, rfl⟩ := hmeets.last hmeets' (congrArg Prod.fst hstep) (congrArg Prod.fst hstep')
      rw [hdeclared]
      exact Nat.le_trans (Nat.min_le_left 7 _) hlong

theorem lengths_kept_tables :
    let start : Tape := ⟨[0xff, 0xdb, 0, 3, 7, 0xff, 0xc2, 0, 8, 8, 0, 5, 0, 4, 1], none⟩
    let file : Tape := ⟨[0xff, 0xd8] ++ start.bytes, none⟩
    let s : Session Tape := ⟨file, 0, []⟩
    (decoder.decode .never s).1 = .ok ⟨.jpeg, 4, 5⟩ ∧ Meets start 0xdb (start.drop 2) ∧
      Within 0xdb (start.drop 2) ∧ Meets start 0xc2 (start.drop 7) ∧ Within 0xc2 (start.drop 7) ∧
      ∃ (m : UInt8) (body : Bytes) (left : Tape), Meets start m ⟨body ++ left.bytes, left.ending⟩ ∧
        Head m body (4, 5) ∧ ((∀ m' t', Meets start m' t' → Within m' t') ↔ 7 ≤ declared body) := by
  intro start file s
  have hdecode : (decoder.decode .never s).1 = .ok ⟨.jpeg, 4, 5⟩ := by decide +kernel
  have htables : Meets start 0xdb (start.drop 2) :=
    ⟨.marker, _, .here _ _, .marker (by decide) (by decide)⟩
  have hframe : Meets start 0xc2 (start.drop 7) :=
    ⟨.marker, _, .turn rfl (.here _ _), .marker (by decide) (by decide)⟩
  obtain ⟨hwithin, hok⟩ := lengths_kept_iff .never s
  obtain ⟨start', m, body, left, htape, hleft, hmeets, hhead, -, hiff⟩ := hok _ hdecode
  have hstart : start' = start := by
    obtain ⟨bytes, ending⟩ := start'
    obtain ⟨hbytes, rfl⟩ := Tape.mk.inj htape
    exact congrArg (Tape.mk · none) (List.append_cancel_left hbytes).symm
  subst hstart
  refine ⟨hdecode, htables, (hwithin _ _).2 ?_, hframe, (hwithin _ _).2 ?_, m, body, left, hmeets, hhead,
    hiff⟩
  · decide
  · decide

theorem lengths_kept_shortFrame :
    let start : Tape := ⟨[0xff, 0xc0, 0, 3, 8, 0, 10, 0, 10], none⟩
    let file : Tape := ⟨[0xff, 0xd8] ++ start.bytes, none⟩
    (decoder.decode .never (⟨file, 0, []⟩ : Session Tape)).1 = .ok ⟨.jpeg, 10, 10⟩ ∧
      Meets start 0xc0 (start.drop 2) ∧ declared (start.drop 2).bytes = 3 ∧
      spent 0xc0 (start.drop 2) = 7 ∧ ¬ Within 0xc0 (start.drop 2) := by
  intro start file
  have hspent : spent 0xc0 (start.drop 2) = 7 := by decide +kernel
  have hdeclared : declared (start.drop 2).bytes = 3 := by decide
  refine ⟨by decide +kernel, ⟨.marker, _, .here _ _, .marker (by decide) (by decide)⟩, hdeclared, hspent,
    ?_⟩
  rw [Within, hspent, hdeclared]
  decide

end Jpeg

end ImageProbe
