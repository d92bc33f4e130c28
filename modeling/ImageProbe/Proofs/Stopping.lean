import ImageProbe.Icon.Embedded
import ImageProbe.Proofs.Heif.Verdict
import ImageProbe.Proofs.LookAhead
import ImageProbe.Proofs.Table.Routing

namespace ImageProbe

open ByteReader

variable {α β σ τ ρ : Type} [ByteReader ρ] {n : Nat} {why : StopReason}

/-- How a run that is stopped after `n` checks stands to the same run that is never stopped. -/
structure CutAt (checks : σ → Nat) (n : Nat) (why : StopReason) (free cut : Except ProbeError α × σ) :
    Prop where
  spared : checks free.2 ≤ n → cut = free
  stopped : n < checks free.2 → cut.1 = .error (.stopped why) ∧ checks cut.2 = n + 1

namespace CutAt

variable {checks : σ → Nat} {free cut : Except ProbeError α × σ}

theorem same {out : Except ProbeError α × σ} (h : checks out.2 ≤ n) : CutAt checks n why out out :=
  ⟨fun _ => rfl, fun hn => absurd h (Nat.not_le_of_lt hn)⟩

theorem map (h : CutAt checks n why free cut) (f : α → β) :
    CutAt checks n why (free.1.map f, free.2) (cut.1.map f, cut.2) where
  spared hn := by rw [h.spared hn]
  stopped hn := by
    obtain ⟨hwhy, hchecks⟩ := h.stopped hn
    exact ⟨by rw [hwhy]; rfl, hchecks⟩

theorem view (h : CutAt checks n why free cut) (f : σ → τ) {checks' : τ → Nat}
    (hf : ∀ s, checks' (f s) = checks s) : CutAt checks' n why (free.1, f free.2) (cut.1, f cut.2) where
  spared hn := by rw [h.spared (hf free.2 ▸ hn)]
  stopped hn := by rw [hf]; exact h.stopped (hf free.2 ▸ hn)

theorem passed (h : CutAt checks n why free cut) (hn : ¬ checks free.2 ≤ n)
    {out : Except ProbeError β × σ} (hlater : checks free.2 ≤ checks out.2) :
    ∃ s, cut = (.error (.stopped why), s) ∧ CutAt checks n why out (.error (.stopped why), s) := by
  obtain ⟨hwhy, hchecks⟩ := h.stopped (Nat.lt_of_not_le hn)
  exact ⟨cut.2, Prod.ext hwhy rfl, fun hn' => absurd (Nat.le_trans hlater hn') hn,
    fun _ => ⟨rfl, hchecks⟩⟩

end CutAt

theorem Stop.Passes.le_of_after {first k : Nat} (h : (Stop.after n why).Passes first k)
    (hfirst : first ≤ n) : k ≤ n :=
  h.not_lt hfirst (if_neg (Nat.lt_irrefl n))

namespace Heeded

variable {first : Nat} {free cut : Except ProbeError α × Session ρ}

theorem cutAt (h : Heeded Told (.after n why) first free cut) (hfirst : first ≤ n) :
    CutAt Session.checks n why free cut := by
  cases h with
  | spared passes same =>
    exact ⟨fun _ => same, fun hn => absurd (passes.le_of_after hfirst) (Nat.not_le_of_lt hn)⟩
  | stopped later passes fires tells checks before =>
    -- Of the checks from the first one on, that after `n` others is the one that fires first.
    rename_i i why'
    obtain ⟨hi, rfl⟩ : n ≤ i ∧ why' = why := by
      rw [Stop.after] at fires
      split at fires
      · exact nomatch fires
      · exact ⟨Nat.le_of_not_lt ‹_›, (Option.some.inj fires).symm⟩
    obtain rfl : i = n := Nat.le_antisymm (passes.le_of_after hfirst) hi
    refine ⟨fun hn => ?_, fun _ => ⟨tells, checks⟩⟩
    exact absurd (checks ▸ Nat.le_trans before.checks hn) (Nat.not_succ_le_self _)

theorem precedes {stop : Stop} (h : Heeded Told stop first free cut) : cut.2.Precedes free.2 := by
  cases h with
  | spared passes same => exact same ▸ .refl _
  | stopped later passes fires tells checks before => exact before

theorem exactly (h : Heeded Told (.after n why) first free cut) (hfirst : first ≤ n) (spent : ρ → Nat)
    (hspent : spent cut.2.reader ≤ spent free.2.reader) :
    if free.2.checks ≤ n then cut = free
    else cut.1 = .error (.stopped why) ∧ cut.2.checks = n + 1 ∧
      spent cut.2.reader ≤ spent free.2.reader := by
  have hcut := h.cutAt hfirst
  split
  · exact hcut.spared ‹_›
  · obtain ⟨hwhy, hchecks⟩ := hcut.stopped (Nat.lt_of_not_le ‹_›)
    exact ⟨hwhy, hchecks, hspent⟩

theorem taken_le {stop : Stop} (h : Heeded Told stop first free cut) (r : ρ) :
    taken r cut.2.reader ≤ taken r free.2.reader :=
  Nat.sub_le_sub_left h.precedes.left _

end Heeded

namespace Table

theorem probe_heeded {table : Table} (htable : table.Heeds) (limits : Limits) (stop : Stop)
    (s : Session (LookAhead ρ)) :
    Heeded Told stop s.checks (table.probe limits .never s) (table.probe limits stop s) := by
  have hunasked (r : Except ProbeError ImageInfo) (reader : LookAhead ρ) :
      Heeded Told stop s.checks (r, { s with reader }) (r, { s with reader }) :=
    .spared (.refl _) rfl
  unfold probe
  rcases hsearch : table.search s.reader with ⟨_ | _ | e, reader⟩
  · exact hunasked _ _
  · dsimp only
    rcases reader.look limits.svgWindow with ⟨_ | bs, reader⟩
    · exact hunasked _ _
    · -- The bytes are at hand, and the host is not asked while they are judged.
      have hjudge := (Markup.judge_heeds bs).run stop { s with reader }
      cases hjudge with
      | spared passes same =>
        dsimp only
        rw [same]
        exact .spared passes rfl
      | stopped later passes fires tells => exact tells.elim
  · have he := htable e (mem_of_search (congrArg Prod.fst hsearch))
    exact he.run stop ⟨reader, s.checks, _⟩

theorem probe_later (table : Table) (limits : Limits) (stop : Stop) (s : Session (LookAhead ρ)) :
    s.checks ≤ (table.probe limits stop s).2.checks := by
  unfold probe
  rcases table.search s.reader with ⟨_ | _ | e, view⟩
  · exact Nat.le_refl _
  · dsimp only
    rcases view.look limits.svgWindow with ⟨_ | bs, view⟩
    · exact Nat.le_refl _
    · exact (Script.run_precedes stop (Markup.judge bs) { s with reader := view }).checks
  · exact (Walk.run_precedes e.decoder stop { s with reader := view, log := _ }).checks

theorem probe_inner (table : Table) (limits : Limits) (s : Session (LookAhead ρ)) :
    ∃ m, ∀ stop, (tape (table.probe limits stop s).2.reader.inner).bytes.length =
      min m (tape (table.probe limits stop s).2.reader).bytes.length := by
  have hself (view : LookAhead ρ) :
      (tape view.inner).bytes.length = min (tape view.inner).bytes.length (tape view).bytes.length := by
    rw [LookAhead.bytes_eq, List.length_append]
    exact (Nat.min_eq_left (Nat.le_add_left _ _)).symm
  unfold probe
  rcases table.search s.reader with ⟨_ | _ | e, view⟩
  · exact ⟨_, fun _ => hself view⟩
  · dsimp only
    rcases view.look limits.svgWindow with ⟨_ | bs, view⟩
    · exact ⟨_, fun _ => hself view⟩
    · refine ⟨(tape view.inner).bytes.length, fun stop => ?_⟩
      exact Script.run_keeps (LookAhead.read_keeps_inner _) stop (Markup.judge bs) _ (hself view)
  · refine ⟨(tape view.inner).bytes.length, fun stop => ?_⟩
    exact e.decoder.decode_keeps (LookAhead.read_keeps_inner _) stop _ (hself view)

theorem inner_le (table : Table) {limits : Limits} {s : Session (LookAhead ρ)} {stop stop' : Stop}
    (h : (tape (table.probe limits stop s).2.reader).bytes.length ≤
      (tape (table.probe limits stop' s).2.reader).bytes.length) :
    (tape (table.probe limits stop s).2.reader.inner).bytes.length ≤
      (tape (table.probe limits stop' s).2.reader.inner).bytes.length := by
  obtain ⟨m, hinner⟩ := table.probe_inner limits s
  rw [hinner, hinner]
  omega

end Table

namespace Icon

theorem readBytes_after {p : Reading α} (hp : p.run.Heeds Told) (bs : Bytes) {a : Account}
    (ha : a.1 ≤ n) : CutAt Prod.fst n why (readBytes p .never bs a) (readBytes p (.after n why) bs a) :=
  ((hp.run (.after n why) (⟨⟨bs, none⟩, a.1, a.2⟩ : Session Tape)).cutAt ha).view
    (fun s => (s.checks, s.log)) fun _ => rfl

theorem readBytes_later (p : Reading α) (stop : Stop) (bs : Bytes) (a : Account) :
    a.1 ≤ (readBytes p stop bs a).2.1 :=
  (Script.run_precedes stop p.run (⟨⟨bs, none⟩, a.1, a.2⟩ : Session Tape)).checks

variable {table : Table} (limits : Limits) (e : Entry) (bs : Bytes) {a : Account}

theorem complete_after (ha : a.1 ≤ n) :
    CutAt Prod.fst n why (complete limits .never e bs a) (complete limits (.after n why) e bs a) := by
  unfold complete
  rcases limits.allow (bs.length + Bitmap.fileHeaderLength) with _ | _
  · exact .same ha
  · rcases Bitmap.complete bs with _ | file
    · exact .same ha
    · exact (readBytes_after Bitmap.reading_prompt.heeds file ha).map _

theorem complete_later (stop : Stop) (a : Account) : a.1 ≤ (complete limits stop e bs a).2.1 := by
  unfold complete
  rcases limits.allow (bs.length + Bitmap.fileHeaderLength) with _ | _
  · exact Nat.le_refl _
  · rcases Bitmap.complete bs with _ | file
    · exact Nat.le_refl _
    · exact readBytes_later Bitmap.reading stop file a

theorem probeBytes_later (table : Table) (stop : Stop) (a : Account) :
    a.1 ≤ (probeBytes table limits stop bs a).2.1 :=
  table.probe_later limits stop ⟨{ inner := (⟨bs, none⟩ : Tape) }, a.1, a.2⟩

theorem identify_later (table : Table) (stop : Stop) (a : Account) :
    (probeBytes table limits stop bs a).2.1 ≤ (identify table limits stop e bs a).2.1 := by
  unfold identify
  rcases probeBytes table limits stop bs a with ⟨err | info, checks, log⟩
  · dsimp only
    split
    · exact complete_later limits e bs stop (checks, _)
    · exact Nat.le_refl _
  · exact Nat.le_refl _

theorem embedded_later (table : Table) (icon : Bytes) (stop : Stop) :
    (readBytes directory stop icon (0, [])).2.1 ≤ (embedded table limits stop icon).2.1 := by
  unfold embedded
  rcases readBytes directory stop icon (0, []) with ⟨err | e, a⟩
  · exact Nat.le_refl _
  · dsimp only
    split
    · exact Nat.le_trans (probeBytes_later limits _ table stop a)
        (identify_later limits e _ table stop a)
    · exact Nat.le_refl _

theorem resolve_checks (table : Table) (stop : Stop) (canLoad : ImageFormat → Bool) (icon : Bytes) :
    (resolve table limits stop canLoad icon).checks = (embedded table limits stop icon).2.1 := by
  unfold resolve
  rcases embedded table limits stop icon with ⟨err | image, checks, log⟩
  · rfl
  · dsimp only
    split <;> rfl

section

variable (htable : table.Heeds)

include htable

theorem probeBytes_after (ha : a.1 ≤ n) :
    CutAt Prod.fst n why (probeBytes table limits .never bs a) (probeBytes table limits (.after n why) bs a) :=
  ((Table.probe_heeded htable limits (.after n why)
    ⟨{ inner := (⟨bs, none⟩ : Tape) }, a.1, a.2⟩).cutAt ha).view (fun s => (s.checks, s.log)) fun _ => rfl

theorem identify_after (ha : a.1 ≤ n) :
    CutAt Prod.fst n why (identify table limits .never e bs a) (identify table limits (.after n why) e bs a) := by
  have hprobe : CutAt Prod.fst n why (probeBytes table limits .never bs a) _ :=
    probeBytes_after limits bs htable ha
  by_cases hn : (probeBytes table limits .never bs a).2.1 ≤ n
  · unfold identify
    rw [hprobe.spared hn]
    rcases hfree : probeBytes table limits .never bs a with ⟨err | info, checks, log⟩ <;>
      rw [hfree] at hn
    · dsimp only
      split
      · exact complete_after limits e bs hn
      · exact .same hn
    · exact .same hn
  · -- A stop is no reason to try the bytes again.
    obtain ⟨a', hcut, hout⟩ := hprobe.passed hn (identify_later limits e bs table .never a)
    have hidentify : identify table limits (.after n why) e bs a = (.error (.stopped why), a') := by
      rw [identify, hcut]
      rfl
    rwa [hidentify]

theorem embedded_after (icon : Bytes) :
    CutAt Prod.fst n why (embedded table limits .never icon) (embedded table limits (.after n why) icon) := by
  have hdirectory : CutAt Prod.fst n why (readBytes directory .never icon (0, [])) _ :=
    readBytes_after directory_prompt.heeds icon (Nat.zero_le n)
  by_cases hn : (readBytes directory .never icon (0, [])).2.1 ≤ n
  · unfold embedded
    rw [hdirectory.spared hn]
    rcases hfree : readBytes directory .never icon (0, []) with ⟨err | e, a⟩ <;> rw [hfree] at hn
    · exact .same hn
    · dsimp only
      split
      · exact identify_after limits e _ htable hn
      · exact .same hn
  · obtain ⟨a', hcut, hout⟩ := hdirectory.passed hn (embedded_later limits table icon .never)
    have hembedded : embedded table limits (.after n why) icon = (.error (.stopped why), a') := by
      rw [embedded, hcut]
    rwa [hembedded]

theorem resolve_after (canLoad : ImageFormat → Bool) (icon : Bytes) :
    let free := resolve table limits .never canLoad icon
    let cut := resolve table limits (.after n why) canLoad icon
    if free.checks ≤ n then cut = free
    else cut.result = .error (.stopped why) ∧ cut.checks = n + 1 ∧ cut.asked = [] := by
  intro free cut
  have h : CutAt Prod.fst n why (embedded table limits .never icon) _ := embedded_after limits htable icon
  have hchecks : free.checks = _ := resolve_checks limits table .never canLoad icon
  split
  · rename_i hn
    have hsame := h.spared (hchecks ▸ hn)
    simp only [cut, free, resolve, hsame]
  · rename_i hn
    obtain ⟨a, hcut, -⟩ := h.passed (hchecks ▸ hn) (Nat.le_refl _)
    have hstopped : cut = ⟨.error (.stopped why), [], a.1, a.2⟩ := by
      simp only [cut, resolve, hcut]
    have hlast := (h.stopped (hchecks ▸ Nat.lt_of_not_le hn)).2
    rw [hcut] at hlast
    rw [hstopped]
    exact ⟨rfl, hlast, rfl⟩

end

end Icon

/-- A run that is stopped after `n` checks is the run that is never stopped if that one makes no
more than `n` checks, and otherwise ends with the reason at the next check, having taken no more. -/
theorem stopped_exactly (n : Nat) (why : StopReason) :
    (∀ d ∈ Table.decoders, ∀ (r : ρ) (log : List Note),
      let free := d.decode .never ⟨r, 0, log⟩
      let cut := d.decode (.after n why) ⟨r, 0, log⟩
      if free.2.checks ≤ n then cut = free
      else cut.1 = .error (.stopped why) ∧ cut.2.checks = n + 1 ∧
        taken r cut.2.reader ≤ taken r free.2.reader) ∧
    (∀ (r : ρ) (log : List Note),
      let free := (Walk.ofScript Icon.directory.run).answer .never r log
      let cut := (Walk.ofScript Icon.directory.run).answer (.after n why) r log
      if free.2.checks ≤ n then cut = free
      else cut.1 = .error (.stopped why) ∧ cut.2.checks = n + 1 ∧
        taken r cut.2.reader ≤ taken r free.2.reader) ∧
    (∀ (limits : Limits) (r : ρ) (log : List Note),
      let free := Table.builtin.probe limits .never ⟨{ inner := r }, 0, log⟩
      let cut := Table.builtin.probe limits (.after n why) ⟨{ inner := r }, 0, log⟩
      if free.2.checks ≤ n then cut = free
      else cut.1 = .error (.stopped why) ∧ cut.2.checks = n + 1 ∧
        taken r cut.2.reader.inner ≤ taken r free.2.reader.inner) ∧
    ∀ (limits : Limits) (canLoad : ImageFormat → Bool) (icon : Bytes),
      let free := Icon.resolve Table.builtin limits .never canLoad icon
      let cut := Icon.resolve Table.builtin limits (.after n why) canLoad icon
      if free.checks ≤ n then cut = free
      else cut.result = .error (.stopped why) ∧ cut.checks = n + 1 ∧ cut.asked = [] := by
  refine ⟨?_, ?_, ?_, ?_⟩
  · intro d hd r log free cut
    have h : Heeded Told (.after n why) 0 free cut :=
      (Table.decoders_heeds hd).run (.after n why) ⟨r, 0, log⟩
    exact h.exactly (Nat.zero_le n) (taken r) (h.taken_le r)
  · intro r log free cut
    have hdirectory : (Walk.ofScript Icon.directory.run).Heeds Told :=
      .ofScript Icon.directory_prompt.heeds
    have h : Heeded Told (.after n why) 0 free cut := hdirectory.run (.after n why) ⟨r, 0, log⟩
    exact h.exactly (Nat.zero_le n) (taken r) (h.taken_le r)
  · intro limits r log free cut
    have h : Heeded Told (.after n why) 0 free cut :=
      Table.probe_heeded Table.builtin_heeds limits (.after n why) ⟨{ inner := r }, 0, log⟩
    have hinner := Nat.sub_le_sub_left (Table.builtin.inner_le h.precedes.left) (tape r).bytes.length
    exact h.exactly (Nat.zero_le n) (fun view => taken r view.inner) hinner
  · exact fun limits => Icon.resolve_after limits Table.builtin_heeds

theorem stopped_threeSizes :
    let s : Session Tape := ⟨Heif.threeSizes, 0, []⟩
    (heif.decode .never s).2.checks = 5 ∧
      (heif.decode (.after 3 .timedOut) s).1 = .error (.stopped .timedOut) ∧
      (heif.decode (.after 3 .timedOut) s).2.checks = 4 := by
  intro s
  have hfree : (heif.decode .never s).2.checks = 5 := by decide +kernel
  have hheif : heif ∈ Table.decoders := by
    simp only [Table.decoders, List.mem_cons, true_or, or_true]
  have hstopped := (stopped_exactly 3 .timedOut).1 heif hheif Heif.threeSizes []
  rw [if_neg (by rw [hfree]; decide)] at hstopped
  obtain ⟨hwhy, hchecks, -⟩ := hstopped
  exact ⟨hfree, hwhy, hchecks⟩

end ImageProbe
