import ImageProbe.Proofs.Jpeg.Fill
import ImageProbe.Proofs.Jpeg.Lengths

namespace ImageProbe

namespace Jpeg

open ByteReader Reading

/-- What may close a pass behind so many fill bytes: the end of the stream, or an `ff` with nothing
behind it, with a zero, or with a marker and what its segment takes. -/
inductive Closing : Nat → Bytes → Prop
  | nothing : Closing 0 []
  | lone {n : Nat} : Closing n [0xff]
  | stuffed : Closing 0 [0xff, 0]
  | segment {n : Nat} {m : UInt8} {body : Bytes} (hm : m ≠ 0xff) (hzero : m = 0 → 0 < n)
    (hbody : body.length ≤ if m ∈ frames then 7 else max 2 (declared body)) :
    Closing n (0xff :: m :: body)

/-- What the search takes from one check to the next. -/
structure Pass where
  strays : Bytes
  fills : Nat
  closing : Bytes
  plain : ∀ b ∈ strays, b ≠ 0xff
  closes : Closing fills closing

namespace Pass

def idle (p : Pass) : Bytes := p.strays ++ List.replicate p.fills 0xff

def bytes (p : Pass) : Bytes := p.idle ++ p.closing

def empty : Pass := ⟨[], 0, [], nofun, .nothing⟩

end Pass

theorem declared_lt (bs : Bytes) : declared bs < span 2 := by
  have hlt := bigEndian_lt (bs.take 2)
  have hlength : (bs.take 2).length ≤ 2 := List.length_take_le 2 bs
  exact Nat.lt_of_lt_of_le hlt (span_le_span hlength)

theorem Closing.length_le {n : Nat} {bs : Bytes} (h : Closing n bs) : bs.length ≤ 65537 := by
  cases h with
  | nothing => decide
  | lone => decide
  | stuffed => decide
  | @segment _ m body _ _ hbody =>
    have hdeclared : declared body < 65536 := declared_lt body
    rw [List.length_cons, List.length_cons]
    split at hbody <;> omega

theorem length_closings_le (passes : List Pass) :
    (passes.flatMap Pass.closing).length ≤ 65537 * passes.length := by
  induction passes with
  | nil => exact Nat.zero_le _
  | cons pass passes ih =>
    have hfirst := pass.closes.length_le
    rw [List.flatMap_cons, List.length_append, List.length_cons]
    omega

theorem length_passes (passes : List Pass) : (passes.flatMap Pass.bytes).length =
    (passes.flatMap Pass.idle).length + (passes.flatMap Pass.closing).length := by
  induction passes with
  | nil => rfl
  | cons pass passes ih =>
    simp only [List.flatMap_cons, List.length_append, Pass.bytes, ih]
    omega

inductive Begun : Scan → Bytes → Prop
  | marker : Begun .marker []
  | sliding {strays : Bytes} (plain : ∀ b ∈ strays, b ≠ 0xff) (last : UInt8) :
    Begun (.sliding last) (strays ++ [last])
  | filling {strays : Bytes} (plain : ∀ b ∈ strays, b ≠ 0xff) (n : Nat) :
    Begun .filling (strays ++ fill (n + 1))

variable {strays o : Bytes}

theorem plain_concat {b : UInt8} (plain : ∀ b ∈ strays, b ≠ 0xff) (hb : b ≠ 0xff) :
    ∀ c ∈ strays ++ [b], c ≠ 0xff := by
  intro c hc
  rcases List.mem_append.1 hc with hc | hc
  · exact plain c hc
  · exact List.mem_singleton.1 hc ▸ hb

theorem exists_pass_last (plain : ∀ b ∈ strays, b ≠ 0xff) (last : UInt8) :
    ∃ pass : Pass, pass.bytes = strays ++ [last] := by
  by_cases hlast : last = 0xff
  · refine ⟨⟨strays, 0, [0xff], plain, .lone⟩, ?_⟩
    simp only [Pass.bytes, Pass.idle, List.replicate_zero, List.append_nil, hlast]
  · refine ⟨⟨strays ++ [last], 0, [], plain_concat plain hlast, .nothing⟩, ?_⟩
    simp only [Pass.bytes, Pass.idle, List.replicate_zero, List.append_nil]

theorem Begun.cut {state : Scan} {rest : Bytes} (h : Begun state o)
    (hshort : rest.length < reach state + 1) : ∃ pass : Pass, pass.bytes = o ++ rest := by
  cases h with
  | marker =>
    cases rest with
    | nil => exact ⟨.empty, rfl⟩
    | cons b rest =>
      have hone : rest.length + 1 < 2 := hshort
      obtain rfl : rest = [] := List.eq_nil_of_length_eq_zero (by omega)
      exact exists_pass_last (List.forall_mem_nil _) b
  | sliding plain last =>
    obtain rfl : rest = [] := List.eq_nil_of_length_eq_zero (Nat.lt_one_iff.1 hshort)
    rw [List.append_nil]
    exact exists_pass_last plain last
  | @filling strays plain n =>
    obtain rfl : rest = [] := List.eq_nil_of_length_eq_zero (Nat.lt_one_iff.1 hshort)
    refine ⟨⟨strays, n + 1, [0xff], plain, .lone⟩, ?_⟩
    simp only [Pass.bytes, Pass.idle, fill, List.replicate_succ', List.append_assoc,
      List.append_nil]

inductive Shows (left : Tape) (k : Nat) : Showing (Step Scan (Except ProbeError ImageInfo)) → Prop
  | done (r : Except ProbeError ImageInfo) : Shows left k (.done r, left, k)
  | more : Shows left k (.more .marker, left, k + 1)
  | stopped (why : StopReason) : Shows left k (.done (.error (.stopped why)), left, k + 1)

namespace Search

def ChecksLast (p : Search) : Prop :=
  ∀ (stop : Stop) (t : Tape) (k : Nat),
    Shows (p.step t).2 k ((Step.settle <$> p.run).outcome stop t k)

variable {α : Type}

theorem ChecksLast.nextMarker : ChecksLast nextMarker := by
  intro stop t k
  rw [Script.outcome_map, Jpeg.nextMarker, outcome_bind_check]
  cases stop k with
  | none => exact .more
  | some why => exact .stopped why

theorem ChecksLast.pure (info : ImageInfo) : ChecksLast (pure (.done info)) :=
  fun _ _ _ => .done (.ok info)

theorem ChecksLast.refuse (format : ImageFormat) (defect : Defect) :
    ChecksLast (refuse format defect) :=
  fun _ _ _ => .done (.error (.malformed format defect))

theorem ChecksLast.note {p : Search} (line : Note) (hp : p.ChecksLast) :
    ChecksLast (writeNote line >>= fun _ => p) := by
  intro stop t k
  have hnote : (Step.settle <$> (writeNote line >>= fun _ => p : Search).run).outcome stop t k =
      (Step.settle <$> p.run).outcome stop t k := Script.outcome_note line _ t k
  rw [hnote]
  exact hp stop t k

theorem ChecksLast.bind {q : Reading α} {f : α → Search} (hquiet : q.Quiet)
    (hf : ∀ a, (f a).ChecksLast) : ChecksLast (q >>= f) := by
  intro stop t k
  rcases heval : q.run.eval t with ⟨e | a, t'⟩
  · rw [step_error (eval_bind_error heval f), Script.outcome_map, ExceptT.run_bind,
      Script.outcome_bind, Script.outcome_of_checksOn stop (hquiet t), heval]
    exact .done (.error e)
  · rw [step_bind heval, Script.outcome_map, outcome_bind_gives stop hquiet heval,
      ← Script.outcome_map]
    exact hf a stop t' k

end Search

theorem frame_checksLast : Search.ChecksLast frame := by
  apply Search.ChecksLast.bind (.exactly 5)
  intro head
  dsimp only
  split
  · exact .pure _
  · exact .note _ (.refuse _ _)

theorem segment_checksLast (m : UInt8) : Search.ChecksLast (segment m) := by
  unfold segment
  split
  · exact .refuse _ _
  split
  · exact .nextMarker
  apply Search.ChecksLast.bind (.beNumber 2)
  intro length
  dsimp only
  split
  · exact .note _ .nextMarker
  split
  · exact frame_checksLast
  split
  · exact .refuse _ _
  · exact .note _ (.bind (.skip _) fun _ => .nextMarker)

structure Search.Closes (p : Search) (o : Bytes) : Prop where
  last : p.ChecksLast
  pass (t : Tape) : ∃ pass : Pass, o ++ t.bytes = pass.bytes ++ (p.step t).2.bytes

theorem segment_closes {m : UInt8} {n : Nat} (plain : ∀ b ∈ strays, b ≠ 0xff) (hm : m ≠ 0xff)
    (hzero : m = 0 → 0 < n) : Search.Closes (segment m) (strays ++ (fill n ++ [m])) := by
  refine ⟨segment_checksLast m, fun t => ?_⟩
  obtain ⟨body, hbody⟩ : (Search.step (segment m) t).2.bytes <:+ t.bytes := Script.eval_suffix _ t
  have hspent : body.length = spent m t := by
    rw [spent, ← hbody, List.length_append, Nat.add_sub_cancel]
  have hlength : body.length ≤ if m ∈ frames then 7 else max 2 (declared body) := by
    rw [hspent]
    split
    · rename_i hframe
      rw [spent_frame hframe]
      split <;> omega
    · rename_i hframe
      have hle := spent_le hframe (t := t)
      rcases Nat.lt_or_ge body.length 2 with hshort | hcounted
      · omega
      · rwa [← hbody, declared_append hcounted] at hle
  refine ⟨⟨strays, n, 0xff :: m :: body, plain, .segment hm hzero hlength⟩, ?_⟩
  simp only [Pass.bytes, Pass.idle, fill, List.replicate_succ', List.append_assoc, List.cons_append,
    List.nil_append, hbody]

theorem atBytes_begun (plain : ∀ b ∈ strays, b ≠ 0xff) (a b : UInt8) :
    Search.Closes (atBytes a b) (strays ++ [a, b]) ∨
      ∃ state, atBytes a b = pure (.more state) ∧ Begun state (strays ++ [a, b]) := by
  unfold atBytes
  split
  · rename_i hstray
    refine .inr ⟨_, rfl, ?_⟩
    rw [List.append_cons]
    exact .sliding (plain_concat plain hstray) b
  rename_i hfirst
  obtain rfl : a = 0xff := not_not.1 hfirst
  split
  · rename_i hzero
    subst hzero
    refine .inl ⟨.nextMarker, fun t => ⟨⟨strays, 0, [0xff, 0], plain, .stuffed⟩, ?_⟩⟩
    simp only [Pass.bytes, Pass.idle, List.replicate_zero, List.append_nil]
    rfl
  rename_i hzero
  split
  · rename_i hfill
    subst hfill
    exact .inr ⟨_, rfl, .filling plain 0⟩
  · rename_i hfill
    exact .inl (segment_closes (n := 0) plain hfill fun h => absurd h hzero)

theorem round_begun {state : Scan} {front : Bytes} (h : Begun state o)
    (hfront : front.length = reach state + 1) :
    Search.Closes (round state front) (o ++ front) ∨
      ∃ state', round state front = pure (.more state') ∧ Begun state' (o ++ front) := by
  cases h with
  | marker =>
    obtain ⟨a, b, rfl⟩ := List.length_eq_two.1 hfront
    exact atBytes_begun (List.forall_mem_nil _) a b
  | sliding plain last =>
    obtain ⟨b, rfl⟩ := List.length_eq_one_iff.1 hfront
    rw [List.append_assoc]
    exact atBytes_begun plain last b
  | @filling strays plain n =>
    obtain ⟨b, rfl⟩ := List.length_eq_one_iff.1 hfront
    rw [List.append_assoc]
    by_cases hfill : b = 0xff
    · subst hfill
      refine .inr ⟨.filling, rfl, ?_⟩
      rw [fill, ← List.replicate_succ']
      exact .filling plain (n + 1)
    · have hround : round .filling [b] = segment b := if_neg hfill
      rw [hround]
      exact .inl (segment_closes plain hfill fun _ => Nat.succ_pos n)

def Passing (stop : Stop) (state : Scan) (t : Tape) (k : Nat) : Prop :=
  ∀ o, Begun state o → ∃ passes : List Pass,
    passes.length + k = (searchOn stop state t k).2.2 + 1 ∧
      o ++ t.bytes = passes.flatMap Pass.bytes ++ (searchOn stop state t k).2.1.bytes

theorem passing_step {stop : Stop} {state : Scan} {t : Tape} {k : Nat}
    (ih : ∀ (state' : Scan) (t' : Tape) (k' : Nat),
      (decoder.turn state).outcome stop t k = (.more state', t', k') →
        Passing stop state' t' k') : Passing stop state t k := by
  intro o h
  rcases Nat.lt_or_ge t.bytes.length (reach state + 1) with hshort | hlong
  · obtain ⟨pass, hpass⟩ := h.cut hshort
    rw [searchOn_short stop state hshort]
    exact ⟨[pass], Nat.add_comm 1 k, by simp only [List.flatMap_singleton, List.append_nil, hpass]⟩
  obtain ⟨bs, e⟩ := t
  obtain ⟨front, rest, hfront, rfl⟩ := exists_front hlong
  have hturn : (decoder.turn state).outcome stop ⟨front ++ rest, e⟩ k =
      (Step.settle <$> (round state front).run).outcome stop ⟨rest, e⟩ k :=
    Walk.outcome_turn (w := decoder) hfront ⟨rest, e⟩ k
  rw [← List.append_assoc]
  rcases round_begun h hfront with hcloses | ⟨state', hround, hbegun⟩
  · obtain ⟨pass, hbytes⟩ := hcloses.pass ⟨rest, e⟩
    have hshows := hcloses.last stop ⟨rest, e⟩ k
    rw [searchOn_of_turn hturn]
    generalize (Search.step (round state front) ⟨rest, e⟩).2 = left at hbytes hshows
    generalize (Step.settle <$> (round state front).run).outcome stop ⟨rest, e⟩ k = out
      at hshows hturn ⊢
    cases hshows with
    | done r =>
      refine ⟨[pass], Nat.add_comm 1 k, ?_⟩
      rw [List.flatMap_singleton]
      exact hbytes
    | more =>
      obtain ⟨passes, hlength, hrest⟩ := ih .marker left (k + 1) hturn [] .marker
      refine ⟨pass :: passes, ?_, ?_⟩
      · rw [List.length_cons, Nat.add_assoc, Nat.add_comm 1 k]
        exact hlength
      · rw [hbytes, List.flatMap_cons, List.append_assoc]
        exact congrArg (pass.bytes ++ ·) hrest
    | stopped why =>
      -- The check at which the search is stopped begins one more pass, which takes nothing.
      refine ⟨[pass, .empty], Nat.add_comm 2 k, ?_⟩
      rw [hbytes, List.flatMap_cons]
      exact congrArg (· ++ left.bytes) (List.append_nil _).symm
  · rw [hround] at hturn
    rw [searchOn_of_turn hturn]
    exact ih state' ⟨rest, e⟩ k hturn _ hbegun

theorem passing (stop : Stop) (state : Scan) (t : Tape) (k : Nat) : Passing stop state t k :=
  Walk.outcomeFrom_induction decoder stop (Q := fun (state : Scan) t k => Passing stop state t k)
    (fun _ _ _ ih => passing_step ih) state t k

theorem outcome_unmarked (stop : Stop) {t : Tape} (h : ∀ text, t.bytes ≠ [0xff, 0xd8] ++ text)
    (k : Nat) :
    ∃ e, (Step.settle <$> start.run).outcome stop t k = (.done (.error e), t.drop 2, k) := by
  rw [Script.outcome_map, start]
  rcases Nat.lt_or_ge t.bytes.length 2 with hshort | hlong
  · rw [ExceptT.run_bind, Script.outcome_bind, Script.outcome_of_checksOn stop (Quiet.exactly 2 t),
      eval_exactly_short hshort]
    exact ⟨_, rfl⟩
  · have hmark : t.bytes.take 2 ≠ [0xff, 0xd8] := by
      intro hmark
      apply h (t.bytes.drop 2)
      rw [← hmark, List.take_append_drop]
    rw [outcome_bind_gives stop (.exactly 2) (.first hlong t.ending), decide_eq_false hmark]
    exact ⟨_, rfl⟩

theorem passes_of (stop : Stop) (t : Tape) :
    let out := Walk.outcome decoder stop t 0
    ∃ (mark : Bytes) (passes : List Pass), passes.length = out.2.2 ∧ mark.length ≤ 2 ∧
      (passes ≠ [] → mark = [0xff, 0xd8]) ∧
      t.bytes = mark ++ (passes.flatMap Pass.bytes ++ out.2.1.bytes) := by
  intro out
  rcases start_cases t with ⟨_, _, -, hmark⟩ | ⟨u, rfl, -⟩
  · obtain ⟨e, hstart⟩ := outcome_unmarked stop hmark 0
    have hout : out = (.error e, t.drop 2, 0) :=
      (Walk.outcome_eq decoder t 0).trans (congrArg (Walk.follow (searchOn stop)) hstart)
    rw [hout]
    exact ⟨t.bytes.take 2, [], rfl, List.length_take_le 2 _, fun h => absurd rfl h,
      (List.take_append_drop 2 t.bytes).symm⟩
  · have hout : out = _ := outcome_marked stop u 0
    rw [hout]
    cases stop 0 with
    | some why => exact ⟨[0xff, 0xd8], [.empty], rfl, Nat.le_refl 2, fun _ => rfl, rfl⟩
    | none =>
      obtain ⟨passes, hlength, hbytes⟩ := passing stop .marker u 1 [] .marker
      exact ⟨[0xff, 0xd8], passes, Nat.succ.inj hlength, Nat.le_refl 2, fun _ => rfl,
        congrArg ([0xff, 0xd8] ++ ·) hbytes⟩

variable {ρ : Type} [ByteReader ρ]

/-- What is taken is a mark of two bytes and a pass for each check, and no check is passed once the
host wants to stop. Each pass closes within what the longest segment takes, but what it passes over
before that is not limited: so many bytes for each check are enough exactly if the idle bytes of all
passes fit into what the closings leave. -/
theorem taken_by_passes (stop : Stop) (r : ρ) (log : List Note) :
    let s := (decoder.decode stop ⟨r, 0, log⟩).2
    ∃ (mark : Bytes) (passes : List Pass), passes.length = s.checks ∧ mark.length ≤ 2 ∧
      (passes ≠ [] → mark = [0xff, 0xd8]) ∧
      (tape r).bytes = mark ++ (passes.flatMap Pass.bytes ++ (tape s.reader).bytes) ∧
      (∀ pass ∈ passes, pass.closing.length ≤ 65537) ∧
      (∀ n, stop n ≠ none → s.checks ≤ n + 1) ∧
      taken r s.reader ≤ 2 + 65537 * s.checks + (passes.flatMap Pass.idle).length ∧
      (taken r s.reader ≤ 2 + 65537 * s.checks ↔
        (passes.flatMap Pass.idle).length + (passes.flatMap Pass.closing).length ≤
          65537 * s.checks) := by
  intro s
  obtain ⟨mark, passes, hlength, hmark, hmarked, hbytes⟩ := passes_of stop (tape r)
  rcases hout : Walk.outcome decoder stop (tape r) 0 with ⟨res, left, k⟩
  rw [hout] at hlength hbytes
  dsimp only at hlength hbytes
  obtain ⟨-, htape, hchecks⟩ := answer_of_outcome log hout
  obtain rfl : tape s.reader = left := htape
  obtain rfl : s.checks = k := hchecks
  have hclosings := length_closings_le passes
  have htaken : taken r s.reader = mark.length + (passes.flatMap Pass.bytes).length := by
    rw [taken, hbytes, List.length_append, List.length_append]
    omega
  rw [length_passes] at htaken
  rw [hlength] at hclosings
  have hclosing : ∀ pass ∈ passes, pass.closing.length ≤ 65537 := fun pass _ =>
    pass.closes.length_le
  have hheeds (n : Nat) (hn : stop n ≠ none) : s.checks ≤ n + 1 :=
    (decoder_heeds.run stop ⟨r, 0, log⟩).checks_le (Nat.zero_le n) hn
  refine ⟨mark, passes, hlength, hmark, hmarked, hbytes, hclosing, hheeds, ?_, ?_⟩
  · omega
  rcases passes with _ | ⟨pass, passes⟩
  · rw [List.flatMap_nil, List.flatMap_nil, List.length_nil] at htaken ⊢
    omega
  · have htwo : mark.length = 2 := congrArg List.length (hmarked (List.cons_ne_nil _ _))
    omega

variable {stop : Stop} {e : Option Fault} {bs : Bytes}

theorem searchOn_second (a : UInt8) (k : Nat) :
    searchOn stop .marker ⟨a :: bs, e⟩ k = searchOn stop (.sliding a) ⟨bs, e⟩ k := by
  cases bs with
  | nil =>
    have hmarker := searchOn_short stop .marker (t := ⟨[a], e⟩) (Nat.lt_succ_self 1) k
    have hsliding := searchOn_short stop (.sliding a) (t := ⟨[], e⟩) (Nat.lt_succ_self 0) k
    exact hmarker.trans hsliding.symm
  | cons b bs =>
    have hmarker : ([a, b] : Bytes).length = decoder.reach Scan.marker + 1 := rfl
    have hsliding : ([b] : Bytes).length = decoder.reach (Scan.sliding a) + 1 := rfl
    exact (searchOn_of_turn (Walk.outcome_turn hmarker ⟨bs, e⟩ k)).trans
      (searchOn_of_turn (Walk.outcome_turn hsliding ⟨bs, e⟩ k)).symm

theorem searchOn_stray {a : UInt8} (ha : a ≠ 0xff) (k : Nat) :
    searchOn stop .marker ⟨a :: bs, e⟩ k = searchOn stop .marker ⟨bs, e⟩ k := by
  cases bs with
  | nil =>
    have hone := searchOn_short stop .marker (t := ⟨[a], e⟩) (Nat.lt_succ_self 1) k
    have hnone := searchOn_short stop .marker (t := ⟨[], e⟩) (Nat.succ_pos 1) k
    exact hone.trans hnone.symm
  | cons b bs =>
    have hfront : ([a, b] : Bytes).length = decoder.reach Scan.marker + 1 := rfl
    have hround : round .marker [a, b] = pure (.more (.sliding b)) := if_pos ha
    have hturn : (decoder.turn Scan.marker).outcome stop ⟨a :: b :: bs, e⟩ k =
        (Step.settle <$> (round .marker [a, b]).run).outcome stop ⟨bs, e⟩ k :=
      Walk.outcome_turn hfront ⟨bs, e⟩ k
    rw [hround] at hturn
    rw [searchOn_second b]
    exact searchOn_of_turn hturn

theorem searchOn_strays (plain : ∀ b ∈ strays, b ≠ 0xff) (k : Nat) :
    searchOn stop .marker ⟨strays ++ bs, e⟩ k = searchOn stop .marker ⟨bs, e⟩ k := by
  induction strays with
  | nil => rfl
  | cons b strays ih =>
    obtain ⟨hb, plain⟩ := List.forall_mem_cons.1 plain
    exact (searchOn_stray hb k).trans (ih plain)

theorem strays_unchecked (stop : Stop) (hstop : stop 0 = none) (plain : ∀ b ∈ strays, b ≠ 0xff)
    (e : Option Fault) :
    let file : Tape := ⟨[0xff, 0xd8] ++ (strays ++ [0xff, 0xd9]), e⟩
    let s := (decoder.decode stop ⟨file, 0, []⟩).2
    s.checks = 1 ∧ taken file s.reader = strays.length + 4 := by
  intro file s
  have hend : Walk.outcome decoder stop file 0 =
      (.error (.malformed .jpeg .frameMissing), ⟨[], e⟩, 1) := by
    have hupon : Upon .marker [0xff, 0xd9] 0xd9 := .marker (by decide) (by decide)
    have hmarked := outcome_marked stop ⟨strays ++ [0xff, 0xd9], e⟩ 0
    rw [hstop] at hmarked
    refine hmarked.trans ((searchOn_strays plain 1).trans ?_)
    exact searchOn_of_turn (hupon.outcome_turn ⟨[], e⟩ 1)
  obtain ⟨-, htape, hchecks⟩ := answer_of_outcome (r := file) [] hend
  refine ⟨hchecks, ?_⟩
  have hleft : tape s.reader = ⟨[], e⟩ := htape
  have hfile : (tape file).bytes.length = 2 + (strays.length + 2) := by
    change ([0xff, 0xd8] ++ (strays ++ [0xff, 0xd9]) : Bytes).length = _
    rw [List.length_append, List.length_append]
    rfl
  rw [taken, hleft, hfile, List.length_nil]
  omega

theorem zeros_outrun {n : Nat} (hn : 65535 < n) :
    let file : Tape := ⟨[0xff, 0xd8] ++ (List.replicate n 0 ++ [0xff, 0xd9]), none⟩
    let s := (decoder.decode (.after 1 .cancelled) ⟨file, 0, []⟩).2
    s.checks = 1 ∧ ¬ taken file s.reader ≤ 2 + 65537 * s.checks := by
  have hplain : ∀ b ∈ List.replicate n (0 : UInt8), b ≠ 0xff := by
    intro b hb
    rw [List.eq_of_mem_replicate hb]
    decide
  obtain ⟨hchecks, htaken⟩ := strays_unchecked (.after 1 .cancelled) rfl hplain none
  rw [List.length_replicate] at htaken
  intro file s
  refine ⟨hchecks, ?_⟩
  rw [hchecks, htaken]
  omega

theorem seventyThousandZeros_outrun :
    let file : Tape := ⟨[0xff, 0xd8] ++ (List.replicate 70000 0 ++ [0xff, 0xd9]), none⟩
    let s := (decoder.decode (.after 1 .cancelled) ⟨file, 0, []⟩).2
    s.checks = 1 ∧ ¬ taken file s.reader ≤ 2 + 65537 * s.checks :=
  zeros_outrun (n := 70000) (by decide)

end Jpeg

end ImageProbe
