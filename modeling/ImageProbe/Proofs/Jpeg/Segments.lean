import ImageProbe.Proofs.Contained
import ImageProbe.Proofs.Jpeg.Search

namespace ImageProbe

namespace Jpeg

open Reading

variable {m : UInt8} {t : Tape}

theorem frame_done (t : Tape) : ∃ r, Search.step frame t = (.done r, t.drop 5) := by
  rcases Nat.lt_or_ge t.bytes.length 5 with hshort | hwhole
  · rw [frame, Search.step_error (eval_bind_error (eval_exactly_short hshort) _)]
    exact ⟨_, rfl⟩
  · rw [frame, Search.step_bind (Gives.first hwhole t.ending)]
    dsimp only
    split
    · exact ⟨_, rfl⟩
    · exact ⟨_, rfl⟩

theorem frame_ok {info : ImageInfo} {left : Tape} (h : Search.step frame t = (.done (.ok info), left)) :
    ∃ height width, height.length = 2 ∧ width.length = 2 ∧
      info = ⟨.jpeg, bigEndian width, bigEndian height⟩ ∧
      t = ⟨8 :: (height ++ (width ++ left.bytes)), left.ending⟩ := by
  obtain ⟨bs, e⟩ := t
  rcases Nat.lt_or_ge bs.length 5 with hshort | hwhole
  · rw [frame, Search.step_error (eval_bind_error (eval_exactly_short (t := ⟨bs, e⟩) hshort) _)] at h
    cases h
  obtain ⟨p, bs, rfl⟩ := List.exists_cons_of_length_pos (by omega : 0 < bs.length)
  rw [List.length_cons] at hwhole
  obtain ⟨height, bs, hheight, rfl⟩ := exists_front (by omega : 2 ≤ bs.length)
  rw [List.length_append] at hwhole
  obtain ⟨width, tail, hwidth, rfl⟩ := exists_front (by omega : 2 ≤ bs.length)
  rw [step_frame hheight hwidth] at h
  obtain ⟨hresult, rfl⟩ := Prod.mk.inj h
  by_cases hp : p = 8
  · rw [if_pos hp] at hresult
    cases hresult
    exact ⟨height, width, hheight, hwidth, rfl, by rw [hp]⟩
  · rw [if_neg hp] at hresult
    cases hresult

theorem segment_ok {info : ImageInfo} {left : Tape}
    (h : Search.step (segment m) t = (.done (.ok info), left)) :
    ∃ body, Head m body (info.width, info.height) ∧ info.format = .jpeg ∧
      t = ⟨body ++ left.bytes, left.ending⟩ := by
  have hgoes := segment_goes m t
  generalize hout : Search.step (segment m) t = out at h hgoes
  cases hgoes with
  | framed hm counted long =>
    obtain ⟨height, width, hheight, hwidth, rfl, hrest⟩ := frame_ok h
    have hbytes : t.bytes = t.bytes.take 2 ++ 8 :: (height ++ (width ++ left.bytes)) := by
      have hdrop : t.bytes.drop 2 = 8 :: (height ++ (width ++ left.bytes)) :=
        congrArg Tape.bytes hrest
      rw [← hdrop, List.take_append_drop]
    have hending : (t.drop 2).ending = left.ending := by rw [hrest]
    have hlength : (t.bytes.take 2).length = 2 := List.length_take_of_le counted
    refine ⟨_, .head hm hlength long hheight hwidth, rfl, ?_⟩
    rw [List.append_assoc, List.cons_append, List.append_assoc, ← hbytes, ← hending]
    rfl
  | _ => exact nomatch h

theorem Goes.of_frame {out : Step Scan (Except ProbeError ImageInfo) × Tape} (h : Goes m t out)
    (hm : m ∈ frames) :
    (t.bytes.length < 2 ∨ declared t.bytes ≤ 2) ∧ out.2 = t.drop 2 ∨
      2 ≤ t.bytes.length ∧ 3 ≤ declared t.bytes ∧ ∃ r, out = (.done r, t.drop 7) := by
  obtain ⟨hend, hrestart, hscan⟩ := plain_of_frame hm
  cases h with
  | ended h => exact absurd h hend
  | restarted h => exact absurd h hrestart
  | scan h => exact absurd h hscan
  | skipped _ other => exact absurd hm other.1
  | lost _ other => exact absurd hm other.1
  | cut _ short => exact .inl ⟨.inl short, rfl⟩
  | empty _ _ short => exact .inl ⟨.inr short, rfl⟩
  | framed _ counted long =>
    obtain ⟨r, hstep⟩ := frame_done (t.drop 2)
    have hdrop : (t.drop 2).drop 5 = t.drop 7 := drop_behind_length (by decide : 2 ≤ 7)
    rw [hdrop] at hstep
    exact .inr ⟨counted, long, r, hstep⟩

/-- A round that begins with these bytes has come upon this marker. -/
inductive Upon : Scan → Bytes → UInt8 → Prop
  | marker {m : UInt8} (hzero : m ≠ 0) (hfill : m ≠ 0xff) : Upon .marker [0xff, m] m
  | sliding {m : UInt8} (hzero : m ≠ 0) (hfill : m ≠ 0xff) : Upon (.sliding 0xff) [m] m
  | filling {m : UInt8} (hfill : m ≠ 0xff) : Upon .filling [m] m

variable {state : Scan} {bs : Bytes}

theorem Upon.length (h : Upon state bs m) : bs.length = reach state + 1 := by
  cases h <;> rfl

theorem Upon.round (h : Upon state bs m) : round state bs = segment m := by
  have hat (hzero : m ≠ 0) (hfill : m ≠ 0xff) : atBytes 0xff m = segment m := by
    rw [atBytes, if_neg (not_not.2 rfl), if_neg hzero, if_neg hfill]
  cases h with
  | marker hzero hfill => exact hat hzero hfill
  | sliding hzero hfill => exact hat hzero hfill
  | filling hfill => exact if_neg hfill

theorem Upon.outcome_turn {stop : Stop} (h : Upon state bs m) (t : Tape) (k : Nat) :
    (decoder.turn state).outcome stop ⟨bs ++ t.bytes, t.ending⟩ k =
      (Step.settle <$> (segment m).run).outcome stop t k := by
  refine (Walk.outcome_turn (w := decoder) h.length t k).trans ?_
  change (Step.settle <$> (Jpeg.round state bs).run).outcome stop t k = _
  rw [h.round]

theorem Upon.eval_turn (h : Upon state bs m) (t : Tape) :
    (decoder.turn state).eval ⟨bs ++ t.bytes, t.ending⟩ = Search.step (segment m) t :=
  Script.eval_of_outcome (h.outcome_turn t 0)

theorem atBytes_cases (a b : UInt8) (u : Tape) :
    (∃ state', Search.step (atBytes a b) u = (.more state', u)) ∨ a = 0xff ∧ b ≠ 0 ∧ b ≠ 0xff := by
  unfold atBytes
  split
  · exact .inl ⟨_, rfl⟩
  split
  · exact .inl ⟨_, rfl⟩
  split
  · exact .inl ⟨_, rfl⟩
  · rename_i hfirst hzero hfill
    exact .inr ⟨not_not.1 hfirst, hzero, hfill⟩

theorem round_cases (state : Scan) {front : Bytes} (h : front.length = reach state + 1) (u : Tape) :
    (∃ state', Search.step (round state front) u = (.more state', u)) ∨ ∃ m, Upon state front m := by
  cases state with
  | marker =>
    obtain ⟨a, b, rfl⟩ := List.length_eq_two.1 h
    refine (atBytes_cases a b u).imp_right ?_
    rintro ⟨rfl, hzero, hfill⟩
    exact ⟨b, .marker hzero hfill⟩
  | sliding last =>
    obtain ⟨b, rfl⟩ := List.length_eq_one_iff.1 h
    refine (atBytes_cases last b u).imp_right ?_
    rintro ⟨rfl, hzero, hfill⟩
    exact ⟨b, .sliding hzero hfill⟩
  | filling =>
    obtain ⟨b, rfl⟩ := List.length_eq_one_iff.1 h
    by_cases hfill : b = 0xff
    · exact .inl ⟨.filling, congrArg (Search.step · u) (if_pos hfill)⟩
    · exact .inr ⟨b, .filling hfill⟩

theorem upon_of_done {state : Scan} {info : ImageInfo}
    (h : ((decoder.turn state).eval t).1 = .done (.ok info)) :
    ∃ m front, ∃ u : Tape, Upon state front m ∧ t = ⟨front ++ u.bytes, u.ending⟩ := by
  rw [eval_turn] at h
  split at h
  · exact nomatch h
  rename_i hlong
  have hfront : (t.bytes.take (reach state + 1)).length = reach state + 1 :=
    List.length_take_of_le (Nat.not_lt.1 hlong)
  rcases round_cases state hfront (t.drop (reach state + 1)) with ⟨state', hmore⟩ | ⟨m, hupon⟩
  · rw [hmore] at h
    exact nomatch h
  · refine ⟨m, _, t.drop (reach state + 1), hupon, ?_⟩
    rw [Tape.drop, List.take_append_drop]

end Jpeg

end ImageProbe
