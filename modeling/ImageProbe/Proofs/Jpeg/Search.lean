import ImageProbe.Proofs.Jpeg.Items
import ImageProbe.Proofs.Prompt.Decoders
import ImageProbe.Proofs.Unstopped

namespace ImageProbe

namespace Jpeg

open ByteReader Reading

variable {α ρ : Type} [ByteReader ρ]

theorem isFrame_iff (m : UInt8) : isFrame m = true ↔ m ∈ frames := by
  have hall : ∀ n : Fin 256, isFrame ⟨⟨n⟩⟩ = true ↔ ⟨⟨n⟩⟩ ∈ frames := by decide +kernel
  exact hall m.toFin

theorem isRestart_iff (m : UInt8) : isRestart m = true ↔ m ∈ restarts := by
  have hall : ∀ n : Fin 256, isRestart ⟨⟨n⟩⟩ = true ↔ ⟨⟨n⟩⟩ ∈ restarts := by decide +kernel
  exact hall m.toFin

inductive Stands : Scan → Bytes → Bytes → Prop
  | marker {bs : Bytes} : Stands .marker bs bs
  | sliding {last : UInt8} {bs : Bytes} : Stands (.sliding last) bs (last :: bs)
  | filling {n : Nat} {bs : Bytes} : Stands .filling bs (fill (n + 1) ++ bs)

def Answers (leads : Nat × Nat → Prop) : Step Scan (Except ProbeError ImageInfo) × Tape → Prop
  | (.more state, t) => ∃ text, Stands state t.bytes text ∧ ∀ size, leads size ↔ Leads text size
  | (.done r, _) =>
    ∀ info, r = .ok info ↔ info.format = .jpeg ∧ leads (info.width, info.height)

theorem Answers.congr {leads leads' : Nat × Nat → Prop}
    {out : Step Scan (Except ProbeError ImageInfo) × Tape} (h : ∀ size, leads size ↔ leads' size)
    (hout : Answers leads' out) : Answers leads out := by
  obtain rfl : leads = leads' := funext fun size => propext (h size)
  exact hout

theorem answers_refused {leads : Nat × Nat → Prop} (h : ∀ size, ¬ leads size) (e : ProbeError)
    (t : Tape) : Answers leads (.done (.error e), t) := by
  intro info
  exact ⟨nofun, fun hinfo => absurd hinfo.2 (h _)⟩

variable {leads : Nat × Nat → Prop}

def Search.step (p : Search) (t : Tape) : Step Scan (Except ProbeError ImageInfo) × Tape :=
  (Step.settle <$> p.run).eval t

theorem Search.step_bind {p : Reading α} {f : α → Search} {t t' : Tape} {a : α} (h : p.Gives t a t') :
    Search.step (p >>= f) t = (f a).step t' := by
  rw [step, step, Script.eval_map, Script.eval_map, h.eval_bind]

theorem Search.step_error {p : Search} {t t' : Tape} {e : ProbeError}
    (h : p.run.eval t = (.error e, t')) : p.step t = (.done (.error e), t') := by
  rw [step, Script.eval_map, h]
  rfl

theorem nextMarker_answers (t : Tape) (h : ∀ size, leads size ↔ Leads t.bytes size) :
    Answers leads (Search.step nextMarker t) :=
  ⟨t.bytes, .marker, h⟩

def declared (bs : Bytes) : Nat := bigEndian (bs.take 2)

inductive Goes (m : UInt8) (t : Tape) : Step Scan (Except ProbeError ImageInfo) × Tape → Prop
  | ended (hm : m = 0xd9) : Goes m t (.done (.error (.malformed .jpeg .frameMissing)), t)
  | restarted (hm : m ∈ restarts) : Goes m t (.more .marker, t)
  | cut (hm : m ≠ 0xd9 ∧ m ∉ restarts) (short : t.bytes.length < 2) :
    Goes m t (.done (.error (shortageAt t.ending)), t.drop 2)
  | empty (hm : m ≠ 0xd9 ∧ m ∉ restarts) (counted : 2 ≤ t.bytes.length)
    (short : declared t.bytes ≤ 2) : Goes m t (.more .marker, t.drop 2)
  | framed (hm : m ∈ frames) (counted : 2 ≤ t.bytes.length) (long : 3 ≤ declared t.bytes) :
    Goes m t (Search.step frame (t.drop 2))
  | scan (hm : m = 0xda) (counted : 2 ≤ t.bytes.length) (long : 3 ≤ declared t.bytes) :
    Goes m t (.done (.error (.malformed .jpeg .frameMissing)), t.drop 2)
  | skipped (hm : m ≠ 0xd9 ∧ m ∉ restarts) (other : m ∉ frames ∧ m ≠ 0xda)
    (long : 3 ≤ declared t.bytes) (whole : declared t.bytes ≤ t.bytes.length) :
    Goes m t (.more .marker, t.drop (declared t.bytes))
  | lost (hm : m ≠ 0xd9 ∧ m ∉ restarts) (other : m ∉ frames ∧ m ≠ 0xda)
    (long : 3 ≤ declared t.bytes) (cut : t.bytes.length < declared t.bytes) :
    Goes m t (.done (.error (shortageAt t.ending)), t.drop (declared t.bytes))

variable {m : UInt8} {t : Tape}

theorem shortage_of_short {n : Nat} (h : t.bytes.length < n) :
    (t.haul n).shortage = shortageAt t.ending := by
  rw [(Tape.haul_short h).1]
  rfl

theorem drop_behind_length {n : Nat} (h : 2 ≤ n) : (t.drop 2).drop (n - 2) = t.drop n := by
  have hsum : 2 + (n - 2) = n := by omega
  rw [Tape.drop, Tape.drop, List.drop_drop, hsum]
  rfl

theorem skipped_goes (hm : m ≠ 0xd9 ∧ m ∉ restarts) (other : m ∉ frames ∧ m ≠ 0xda)
    (counted : 2 ≤ t.bytes.length) (long : 3 ≤ declared t.bytes) :
    Goes m t (Search.step (skip (declared t.bytes - 2) >>= fun _ => nextMarker) (t.drop 2)) := by
  have hlength : (t.drop 2).bytes.length = t.bytes.length - 2 := List.length_drop
  have hdrop : (t.drop 2).drop (declared t.bytes - 2) = t.drop (declared t.bytes) :=
    drop_behind_length (Nat.le_of_succ_le long)
  rcases Nat.lt_or_ge t.bytes.length (declared t.bytes) with hshort | hwhole
  · have hrest : (t.drop 2).bytes.length < declared t.bytes - 2 := by omega
    rw [Search.step_error (eval_bind_error (eval_skip_short hrest) _), shortage_of_short hrest, hdrop]
    exact .lost hm other long hshort
  · have hrest : declared t.bytes - 2 ≤ (t.drop 2).bytes.length := by omega
    have hskip : (skip (declared t.bytes - 2)).Gives (t.drop 2) () (t.drop (declared t.bytes)) := by
      rw [← hdrop]
      exact .bind (.first hrest t.ending) (.pure () _)
    rw [Search.step_bind hskip]
    exact .skipped hm other long hwhole

theorem segment_goes (m : UInt8) (t : Tape) : Goes m t (Search.step (segment m) t) := by
  unfold segment
  split
  · rename_i hend
    exact .ended hend
  rename_i hend
  split
  · rename_i hrestart
    exact .restarted ((isRestart_iff m).1 hrestart)
  rename_i hrestart
  have hm : m ≠ 0xd9 ∧ m ∉ restarts := ⟨hend, fun h => hrestart ((isRestart_iff m).2 h)⟩
  rcases Nat.lt_or_ge t.bytes.length 2 with hshort | hcounted
  · rw [Search.step_error (eval_bind_error (eval_beNumber_short hshort) _), shortage_of_short hshort]
    exact .cut hm hshort
  have hlength : (beNumber 2).Gives t (declared t.bytes) (t.drop 2) :=
    .bind (.first hcounted t.ending) (.pure _ _)
  rw [Search.step_bind hlength]
  dsimp only
  split
  · rename_i hempty
    exact .empty hm hcounted hempty
  rename_i hlong
  have long : 3 ≤ declared t.bytes := Nat.not_le.1 hlong
  split
  · rename_i hframe
    exact .framed ((isFrame_iff m).1 hframe) hcounted long
  rename_i hframe
  split
  · rename_i hscan
    exact .scan hscan hcounted long
  rename_i hscan
  exact skipped_goes hm ⟨fun h => hframe ((isFrame_iff m).2 h), hscan⟩ hcounted long

theorem step_frame {p : UInt8} {height width : Bytes} (hheight : height.length = 2)
    (hwidth : width.length = 2) (tail : Bytes) (e : Option Fault) :
    Search.step frame ⟨p :: (height ++ (width ++ tail)), e⟩ =
      (.done (if p = 8 then .ok ⟨.jpeg, bigEndian width, bigEndian height⟩
        else .error (.malformed .jpeg .unsupportedPrecision)), ⟨tail, e⟩) := by
  have hlength : (p :: (height ++ width)).length = 5 := by
    rw [List.length_cons, List.length_append, hheight, hwidth]
  have hhead : (exactly 5).Gives ⟨p :: (height ++ width) ++ tail, e⟩ (p :: (height ++ width))
      ⟨tail, e⟩ := .exactly hlength e
  rw [List.cons_append, List.append_assoc] at hhead
  have hprecision : bigEndian (slice (p :: (height ++ width)) 0 1) = p.toNat := by
    change 256 * 0 + p.toNat = _
    rw [Nat.mul_zero, Nat.zero_add]
  have hheights : slice (p :: (height ++ width)) 1 2 = height :=
    slice_field (List.length_singleton (a := p)) hheight width
  have hwidths : slice (p :: (height ++ width)) 3 2 = width := by
    have hfront : (p :: height).length = 3 := by rw [List.length_cons, hheight]
    have hlast := slice_field hfront hwidth []
    rwa [List.append_nil] at hlast
  rw [frame, Search.step_bind hhead]
  dsimp only
  rw [hprecision, hwidths, hheights]
  by_cases hp : p = 8
  · subst hp
    rfl
  · have hne : p.toNat ≠ 8 := fun h => hp (UInt8.toNat.inj h)
    rw [if_neg hne, if_neg hp]
    rfl

theorem frame_answers {m : UInt8} {n : Nat} (long : 3 ≤ n) (hm : m ∈ frames) (t : Tape) :
    Answers (Counted m n t.bytes) (Search.step frame t) := by
  obtain ⟨bs, e⟩ := t
  by_cases hshort : bs.length < 5
  · have herror := eval_exactly_short (t := ⟨bs, e⟩) hshort
    rw [frame, Search.step_error (eval_bind_error herror _)]
    refine answers_refused (fun size h => ?_) _ _
    have hlong := h.length_le long
    rw [if_pos hm] at hlong
    exact absurd hshort (Nat.not_lt.2 hlong)
  obtain ⟨p, bs, rfl⟩ := List.exists_cons_of_length_pos (by omega : 0 < bs.length)
  rw [List.length_cons] at hshort
  obtain ⟨height, bs, hheight, rfl⟩ := exists_front (by omega : 2 ≤ bs.length)
  rw [List.length_append] at hshort
  obtain ⟨width, tail, hwidth, rfl⟩ := exists_front (by omega : 2 ≤ bs.length)
  have hcounted (size : Nat × Nat) : Counted m n (p :: (height ++ (width ++ tail))) size ↔ _ :=
    counted_frame long hm hheight hwidth
  rw [step_frame hheight hwidth]
  by_cases hp : p = 8
  · rw [if_pos hp]
    rintro ⟨format, _, _⟩
    constructor
    · rintro ⟨⟩
      exact ⟨rfl, (hcounted _).2 ⟨hp, rfl⟩⟩
    · rintro ⟨rfl, h⟩
      obtain ⟨rfl, rfl⟩ := Prod.mk.inj ((hcounted _).1 h).2
      rfl
  · rw [if_neg hp]
    exact answers_refused (fun size h => hp ((hcounted size).1 h).1) _ _

theorem plain_of_frame (hm : m ∈ frames) : m ≠ 0xd9 ∧ m ∉ restarts ∧ m ≠ 0xda := by
  have hall : ∀ m ∈ frames, m ≠ 0xd9 ∧ m ∉ restarts ∧ m ≠ 0xda := by decide +kernel
  exact hall m hm

theorem behind_declared (hm : m ≠ 0xd9 ∧ m ∉ restarts) (counted : 2 ≤ t.bytes.length)
    (size : Nat × Nat) :
    Behind m t.bytes size ↔ Counted m (declared t.bytes) (t.drop 2).bytes size := by
  have hlength : (t.bytes.take 2).length = 2 := List.length_take_of_le counted
  have hbehind : Behind m (t.bytes.take 2 ++ t.bytes.drop 2) size ↔ _ := behind_counted hm hlength
  rwa [List.take_append_drop] at hbehind

theorem counted_declared (other : m ∉ frames ∧ m ≠ 0xda) (long : 3 ≤ declared t.bytes)
    (whole : declared t.bytes ≤ t.bytes.length) (size : Nat × Nat) :
    Counted m (declared t.bytes) (t.drop 2).bytes size ↔
      Leads (t.drop (declared t.bytes)).bytes size := by
  rw [← drop_behind_length (Nat.le_of_succ_le long)]
  generalize declared t.bytes = n at long whole ⊢
  have hpayload : ((t.drop 2).bytes.take (n - 2)).length = n - 2 := by
    simp only [Tape.drop, List.length_take, List.length_drop]
    omega
  have hcounted : Counted m n ((t.drop 2).bytes.take (n - 2) ++ (t.drop 2).bytes.drop (n - 2)) size ↔ _ :=
    counted_whole long other hpayload
  rwa [List.take_append_drop] at hcounted

theorem segment_answers (t : Tape) : Answers (Behind m t.bytes) (Search.step (segment m) t) := by
  have hgoes := segment_goes m t
  generalize Search.step (segment m) t = out at hgoes ⊢
  cases hgoes with
  | ended hm =>
    subst hm
    exact answers_refused (fun size => not_behind_end) _ _
  | restarted hm => exact ⟨t.bytes, .marker, fun size => behind_restart hm⟩
  | cut hm short =>
    exact answers_refused (fun size h => absurd short (Nat.not_lt.2 (h.length_le hm))) _ _
  | empty hm counted short =>
    refine .congr (behind_declared hm counted) ?_
    exact ⟨_, .marker, fun size => counted_short short⟩
  | framed hm counted long =>
    obtain ⟨hend, hrestart, -⟩ := plain_of_frame hm
    exact .congr (behind_declared ⟨hend, hrestart⟩ counted) (frame_answers long hm (t.drop 2))
  | scan hm counted long =>
    subst hm
    refine .congr (behind_declared (by decide) counted) ?_
    exact answers_refused (fun size => not_counted_scan long) _ _
  | skipped hm other long whole =>
    have counted : 2 ≤ t.bytes.length := by omega
    refine .congr (behind_declared hm counted) ?_
    exact ⟨_, .marker, counted_declared other long whole⟩
  | lost hm other long cut =>
    refine answers_refused (fun size h => ?_) _ _
    have hrest := ((behind_declared hm (h.length_le hm) size).1 h).length_le long
    rw [if_neg other.1, Tape.drop_length] at hrest
    omega

theorem atBytes_answers (a b : UInt8) (t : Tape) :
    Answers (Leads (a :: b :: t.bytes)) (Search.step (atBytes a b) t) := by
  unfold atBytes
  split
  · rename_i hstray
    exact ⟨b :: t.bytes, .sliding, fun size => leads_stray hstray⟩
  rename_i hfirst
  obtain rfl : a = 0xff := not_not.1 hfirst
  split
  · rename_i hzero
    subst hzero
    exact nextMarker_answers t fun size => leads_stuffed
  rename_i hzero
  split
  · rename_i hfill
    subst hfill
    exact ⟨fill 1 ++ t.bytes, .filling, fun size => Iff.rfl⟩
  rename_i hfill
  exact .congr (fun size => leads_marker (n := 0) hfill fun h => absurd h hzero) (segment_answers t)

theorem round_answers {state : Scan} {bs text : Bytes} {t : Tape}
    (h : Stands state (bs ++ t.bytes) text) (hbs : bs.length = reach state + 1) :
    Answers (Leads text) (Search.step (round state bs) t) := by
  cases h with
  | marker =>
    obtain ⟨a, b, rfl⟩ := List.length_eq_two.1 hbs
    exact atBytes_answers a b t
  | @sliding last =>
    obtain ⟨b, rfl⟩ := List.length_eq_one_iff.1 hbs
    exact atBytes_answers last b t
  | @filling n =>
    obtain ⟨b, rfl⟩ := List.length_eq_one_iff.1 hbs
    change Answers _ (Search.step (if b = 0xff then _ else _) t)
    split
    · rename_i hfill
      subst hfill
      -- The fill byte joins those before it.
      have htext : fill (n + 1) ++ ([0xff] ++ t.bytes) = fill (n + 2) ++ t.bytes := by
        rw [← List.append_assoc, fill, fill, ← List.replicate_succ']
      rw [htext]
      exact ⟨fill (n + 2) ++ t.bytes, .filling, fun size => Iff.rfl⟩
    · rename_i hfill
      exact .congr (fun size => leads_marker hfill fun _ => Nat.succ_pos n) (segment_answers t)

theorem eval_turn (state : Scan) (t : Tape) : (decoder.turn state).eval t =
    if t.bytes.length < reach state + 1 then
      (.done (.error (t.haul (reach state + 1)).shortage), t.drop (reach state + 1))
    else Search.step (round state (t.bytes.take (reach state + 1))) (t.drop (reach state + 1)) := by
  have hlen : (t.haul (reach state + 1)).bytes.length < reach state + 1 ↔
      t.bytes.length < reach state + 1 := by
    rw [Tape.haul, List.length_take]
    omega
  change Script.eval (if (t.haul (reach state + 1)).bytes.length < reach state + 1 then _ else _) _ = _
  by_cases hshort : t.bytes.length < reach state + 1
  · rw [if_pos hshort, if_pos (hlen.2 hshort)]
    rfl
  · rw [if_neg hshort, if_neg (mt hlen.1 hshort)]
    rfl

theorem Stands.length_le {state : Scan} {bs text : Bytes} {size : Nat × Nat}
    (h : Stands state bs text) (hleads : Leads text size) : reach state + 1 ≤ bs.length := by
  cases h with
  | marker => exact Nat.le_trans (by decide : 2 ≤ 9) hleads.length_le
  | sliding => exact Nat.le_of_succ_le_succ (Nat.le_trans (by decide : 2 ≤ 9) hleads.length_le)
  | @filling n =>
    apply List.length_pos_of_ne_nil
    rintro rfl
    rw [List.append_nil] at hleads
    exact not_leads_fill _ hleads

theorem turn_answers {state : Scan} {t : Tape} {text : Bytes} (h : Stands state t.bytes text) :
    Answers (Leads text) ((decoder.turn state).eval t) := by
  rw [eval_turn]
  split
  · rename_i hshort
    exact answers_refused (fun size hleads => absurd hshort (Nat.not_lt.2 (h.length_le hleads))) _ _
  · rename_i hlong
    rw [← List.take_append_drop (reach state + 1) t.bytes] at h
    exact round_answers (t := t.drop (reach state + 1)) h
      (List.length_take_of_le (Nat.not_lt.1 hlong))

theorem answer_iff {state : decoder.State} {t : Tape} {text : Bytes} {r : Except ProbeError ImageInfo}
    (hcomes : decoder.ComesFrom state t r) (h : Stands state t.bytes text) (info : ImageInfo) :
    r = .ok info ↔ info.format = .jpeg ∧ Leads text (info.width, info.height) := by
  induction hcomes generalizing text with
  | @done state t r round =>
    have hanswers := turn_answers h
    rcases hout : (decoder.turn state).eval t with ⟨step, t'⟩
    rw [hout] at hanswers round
    subst round
    exact hanswers info
  | more round rest ih =>
    have hanswers := turn_answers h
    rw [round] at hanswers
    obtain ⟨text', hstands, hleads⟩ := hanswers
    exact (ih hstands).trans (and_congr_right' (hleads _).symm)

theorem start_cases (t : Tape) :
    (∃ e t', Search.step start t = (.done (.error e), t') ∧ ∀ text, t.bytes ≠ [0xff, 0xd8] ++ text) ∨
      ∃ u : Tape, t = ⟨[0xff, 0xd8] ++ u.bytes, u.ending⟩ ∧ Search.step start t = (.more .marker, u) := by
  obtain ⟨bs, e⟩ := t
  rw [start]
  by_cases hshort : bs.length < 2
  · rw [Search.step_error (eval_bind_error (eval_exactly_short (t := ⟨bs, e⟩) hshort) _)]
    refine .inl ⟨_, _, rfl, ?_⟩
    rintro text rfl
    rw [List.length_append] at hshort
    exact absurd hshort (Nat.not_lt.2 (Nat.le_add_right 2 _))
  obtain ⟨mark, text, hmark, rfl⟩ := exists_front (Nat.not_lt.1 hshort)
  rw [Search.step_bind (Gives.exactly hmark e)]
  by_cases hsame : mark = [0xff, 0xd8]
  · subst hsame
    exact .inr ⟨⟨text, e⟩, rfl, rfl⟩
  · rw [require, decide_eq_false hsame]
    exact .inl ⟨_, _, rfl, fun text' htext => hsame (List.append_inj_left htext hmark)⟩

theorem start_answers (t : Tape) :
    Answers (fun size => ∃ text, t.bytes = [0xff, 0xd8] ++ text ∧ Leads text size)
      (Search.step start t) := by
  rcases start_cases t with ⟨e, t', hstep, hmark⟩ | ⟨u, rfl, hstep⟩
  · rw [hstep]
    exact answers_refused (fun size ⟨text, htext, _⟩ => hmark text htext) e t'
  · rw [hstep]
    refine ⟨u.bytes, .marker, fun size => ⟨?_, fun h => ⟨u.bytes, rfl, h⟩⟩⟩
    rintro ⟨text, htext, h⟩
    rwa [List.append_cancel_left htext]

theorem comes_iff {t : Tape} {r : Except ProbeError ImageInfo} (hcomes : decoder.Comes t r)
    (info : ImageInfo) :
    r = .ok info ↔ info.format = .jpeg ∧
      ∃ text, t.bytes = [0xff, 0xd8] ++ text ∧ Leads text (info.width, info.height) := by
  have hanswers : Answers _ (decoder.start.eval t) := start_answers t
  cases hcomes with
  | done start =>
    rcases hout : decoder.start.eval t with ⟨step, t'⟩
    rw [hout] at hanswers start
    subst start
    exact hanswers info
  | more start rest =>
    rw [start] at hanswers
    obtain ⟨text, hstands, hleads⟩ := hanswers
    exact (answer_iff rest hstands info).trans (and_congr_right' (hleads _).symm)

/-- The search accepts a stream exactly if it is the mark of an image, items, a frame, and anything
behind it. -/
theorem decode_iff_items (stop : Stop) (s : Session ρ) (info : ImageInfo) :
    Decoder.Halted stop (decoder.decode stop s).1 ∨
      ((decoder.decode stop s).1 = .ok info ↔ info.format = .jpeg ∧
        ∃ (items : List Bytes) (frame tail : Bytes), (∀ item ∈ items, Item item) ∧
          Frame frame (info.width, info.height) ∧
          (tape s.reader).bytes = [0xff, 0xd8] ++ (items.flatten ++ (frame ++ tail))) := by
  obtain ⟨r, hcomes⟩ := decoder.exists_comes (tape s.reader)
  refine (decoder_heeds.run_result stop hcomes.run_never).imp_right fun hrun => ?_
  rw [Decoder.decode, hrun, comes_iff hcomes]
  refine and_congr_right' ⟨?_, ?_⟩
  · rintro ⟨_, hbytes, items, frame, tail, hitems, hframe, rfl⟩
    exact ⟨items, frame, tail, hitems, hframe, hbytes⟩
  · rintro ⟨items, frame, tail, hitems, hframe, hbytes⟩
    exact ⟨_, hbytes, items, frame, tail, hitems, hframe, rfl⟩

end Jpeg

end ImageProbe
