import ImageProbe.Proofs.Heif.Verdict
import ImageProbe.Proofs.Table.Routing
import ImageProbe.Table.Builtin

namespace ImageProbe

open ByteReader

variable {α ρ σ : Type} [ByteReader ρ] [ByteReader σ]

namespace LookAhead

structure Alike (s : LookAhead ρ) (t : LookAhead σ) : Prop where
  pending : s.pending = t.pending
  ended : s.ended = t.ended
  inner : tape s.inner = tape t.inner

variable {s : LookAhead ρ} {t : LookAhead σ}

theorem Alike.tape_eq (h : Alike s t) : tape s = tape t := by
  change Tape.mk _ _ = Tape.mk _ _
  rw [h.pending, h.inner]

theorem Alike.look (h : Alike s t) (n : Nat) :
    (s.look n).1 = (t.look n).1 ∧ Alike (s.look n).2 (t.look n).2 := by
  have hdue : n - s.pending.length = n - t.pending.length := by rw [h.pending]
  by_cases hd : s.ended = true ∨ n - s.pending.length = 0
  · have hd' : t.ended = true ∨ n - t.pending.length = 0 := by rwa [← h.ended, ← hdue]
    rw [look_idle hd, look_idle hd']
    exact ⟨by rw [h.pending], h⟩
  · have hd' : ¬ (t.ended = true ∨ n - t.pending.length = 0) := by rwa [← h.ended, ← hdue]
    have hs := (gather_eq stride [] s.inner (n - s.pending.length)).2
    have ht := (gather_eq stride [] t.inner (n - t.pending.length)).2
    have hinner : tape (gather stride [] s.inner (n - s.pending.length)).2 =
        tape (gather stride [] t.inner (n - t.pending.length)).2 := by rw [hs, ht, h.inner, hdue]
    rw [look_inner hd, look_inner hd', ← hdue, ← h.pending, ← h.inner]
    rw [← hdue] at hinner
    dsimp only
    cases ((tape s.inner).haul (n - s.pending.length)).fault with
    | some f => exact ⟨rfl, rfl, h.ended, hinner⟩
    | none => exact ⟨rfl, rfl, rfl, hinner⟩

end LookAhead

open LookAhead

theorem Decoder.decode_alike (d : Decoder) (stop : Stop) {s : Session (LookAhead ρ)}
    {t : Session (LookAhead σ)} (h : Alike s.reader t.reader) (hchecks : s.checks = t.checks) :
    (d.decode stop s).1 = (d.decode stop t).1 ∧
      (d.decode stop s).2.checks = (d.decode stop t).2.checks ∧
      (tape (d.decode stop s).2.reader.inner).bytes.length =
        (tape (d.decode stop t).2.reader.inner).bytes.length := by
  have hcore : s.core = t.core := Prod.ext h.tape_eq hchecks
  obtain ⟨hresult, hcore'⟩ := d.decode_core stop hcore
  obtain ⟨htape, hchecks'⟩ := Prod.mk.inj hcore'
  -- The portions differ, so what is pending may differ too; the lengths behind the views agree.
  have hs := d.decode_keeps (read_keeps_inner (tape s.reader.inner).bytes.length) stop s
    (by simp [bytes_eq])
  have ht := d.decode_keeps (read_keeps_inner (tape t.reader.inner).bytes.length) stop t
    (by simp [bytes_eq])
  refine ⟨hresult, hchecks', ?_⟩
  rw [hs, ht, htape, h.inner]

namespace Table

theorem search_alike (table : Table) {s : LookAhead ρ} {t : LookAhead σ} (h : Alike s t) :
    (table.search s).1 = (table.search t).1 ∧ Alike (table.search s).2 (table.search t).2 := by
  induction table generalizing s t with
  | nil => exact ⟨rfl, h⟩
  | cons e table ih =>
    obtain ⟨hlook, hnext⟩ := h.look e.pattern.length
    rw [search, search]
    rcases hs : s.look e.pattern.length with ⟨found, s'⟩
    rcases ht : t.look e.pattern.length with ⟨found', t'⟩
    rw [hs, ht] at hlook hnext
    obtain rfl : found = found' := hlook
    cases found with
    | error f => exact ⟨rfl, hnext⟩
    | ok bs =>
      dsimp only
      split
      · exact ⟨rfl, hnext⟩
      · exact ih hnext

theorem probe_alike (table : Table) (limits : Limits) (stop : Stop) {s : Session (LookAhead ρ)}
    {t : Session (LookAhead σ)} (h : Alike s.reader t.reader) (hchecks : s.checks = t.checks) :
    (table.probe limits stop s).1 = (table.probe limits stop t).1 ∧
      (table.probe limits stop s).2.checks = (table.probe limits stop t).2.checks ∧
      (tape (table.probe limits stop s).2.reader.inner).bytes.length =
        (tape (table.probe limits stop t).2.reader.inner).bytes.length := by
  obtain ⟨hsearch, hview⟩ := table.search_alike h
  rw [probe, probe]
  rcases hs : table.search s.reader with ⟨found, view⟩
  rcases ht : table.search t.reader with ⟨found', view'⟩
  rw [hs, ht] at hsearch hview
  obtain rfl : found = found' := hsearch
  rcases found with f | _ | e
  · exact ⟨rfl, hchecks, congrArg (·.bytes.length) hview.inner⟩
  · obtain ⟨hlook, hnext⟩ := hview.look limits.svgWindow
    dsimp only
    rcases hs' : view.look limits.svgWindow with ⟨window, ahead⟩
    rcases ht' : view'.look limits.svgWindow with ⟨window', ahead'⟩
    rw [hs', ht'] at hlook hnext
    obtain rfl : window = window' := hlook
    cases window with
    | error f => exact ⟨rfl, hchecks, congrArg (·.bytes.length) hnext.inner⟩
    | ok bs =>
      obtain ⟨hsvg, hreader, hasked⟩ := judge_run bs stop { s with reader := ahead }
      obtain ⟨hsvg', hreader', hasked'⟩ := judge_run bs stop { t with reader := ahead' }
      dsimp only
      rw [hsvg, hsvg', hreader, hreader', hasked, hasked', hnext.inner]
      exact ⟨rfl, hchecks, rfl⟩
  · exact e.decoder.decode_alike stop hview hchecks

end Table

/-- What a run shows of itself: the result, the bytes taken and the checks made. -/
def shown (r : ρ) (out : α × Session ρ) : α × Nat × Nat :=
  (out.1, taken r out.2.reader, out.2.checks)

def shownBehind (r : ρ) (out : α × Session (LookAhead ρ)) : α × Nat × Nat :=
  (out.1, taken r out.2.reader.inner, out.2.checks)

theorem Walk.shown_answer_eq (w : Walk (Except ProbeError α)) {r : ρ} {r' : σ} (h : tape r = tape r')
    (stop : Stop) (log log' : List Note) :
    shown r (w.answer stop r log) = shown r' (w.answer stop r' log') := by
  have hrun := w.run_core stop (s := ⟨r, 0, log⟩) (t := ⟨r', 0, log'⟩) (congrArg (·, 0) h)
  obtain ⟨hresult, hcore⟩ := Prod.ext_iff.1 hrun
  obtain ⟨htape, hchecks⟩ := Prod.ext_iff.1 hcore
  have hleft : taken r (w.answer stop r log).2.reader = taken r' (w.answer stop r' log').2.reader :=
    congrArg₂ (fun before after : Tape => before.bytes.length - after.bytes.length) h htape
  exact Prod.ext hresult (Prod.ext hleft hchecks)

/-- Streams with the same bytes and the same end are decoded and probed alike, in whatever portions
they deliver and wherever they pause. -/
theorem shown_eq_of_tape_eq (r : ρ) (r' : σ) (same : tape r = tape r') (stop : Stop)
    (log log' : List Note) :
    (∀ d : Decoder, shown r (d.decode stop ⟨r, 0, log⟩) = shown r' (d.decode stop ⟨r', 0, log'⟩)) ∧
    shown r ((Walk.ofScript Icon.directory.run).answer stop r log) =
      shown r' ((Walk.ofScript Icon.directory.run).answer stop r' log') ∧
    ∀ (table : Table) (limits : Limits),
      shownBehind r (table.probe limits stop ⟨{ inner := r }, 0, log⟩) =
        shownBehind r' (table.probe limits stop ⟨{ inner := r' }, 0, log'⟩) := by
  refine ⟨fun d => ?_, ?_, fun table limits => ?_⟩
  · exact Walk.shown_answer_eq d same stop log log'
  · exact Walk.shown_answer_eq _ same stop log log'
  · have halike : Alike ({ inner := r } : LookAhead ρ) ({ inner := r' } : LookAhead σ) :=
      ⟨rfl, rfl, same⟩
    obtain ⟨hresult, hchecks, hleft⟩ := table.probe_alike limits stop
      (s := ⟨{ inner := r }, 0, log⟩) (t := ⟨{ inner := r' }, 0, log'⟩) halike rfl
    rw [shownBehind, shownBehind, taken, taken, hresult, hchecks, hleft, same]

def resetSizes : Tape := Tape.failingAt Heif.threeSizes.bytes 70 ⟨.other, "reset"⟩

theorem shown_eq_of_tape_eq_trickle :
    let trickle : Source :=
      ⟨resetSizes, fun turn => turn % 3, fun turn => some (turn % 5 + 1), 0, 0, 0⟩
    tape trickle = tape resetSizes ∧
      shownBehind trickle (Table.builtin.probe {} .never ⟨{ inner := trickle }, 0, []⟩) =
        (.ok ⟨.heic, 1, 11⟩, 70, 4) := by
  intro trickle
  have hshown := (shown_eq_of_tape_eq trickle resetSizes rfl .never [] []).2.2 Table.builtin {}
  exact ⟨rfl, hshown.trans (by decide +kernel)⟩

end ImageProbe
