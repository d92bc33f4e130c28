import ImageProbe.Proofs.Contained
import ImageProbe.Proofs.Table.Routing

namespace ImageProbe

open ByteReader Script

variable {α ρ σ : Type} [ByteReader ρ] [ByteReader σ]

namespace Walk

theorem ofScript_run (p : Script α) (stop : Stop) (s : Session ρ) :
    (ofScript p).run stop s = p.run stop s := by
  rw [run_eq, ofScript, run_map]
  rfl

theorem exists_comesFrom (w : Walk α) (state : w.State) (t : Tape) : ∃ a, w.ComesFrom state t a := by
  obtain ⟨state', t', hreach, hdone⟩ := w.runFrom_reaches state (⟨t, 0, []⟩ : Session Tape)
  exact ⟨_, hreach.comesFrom (.done (congrArg Prod.fst hdone))⟩

theorem exists_comes (w : Walk α) (t : Tape) : ∃ a, w.Comes t a := by
  rcases hout : w.start.eval t with ⟨state | a, t'⟩
  · obtain ⟨a, ha⟩ := w.exists_comesFrom state t'
    exact ⟨a, .more hout ha⟩
  · exact ⟨a, .done (congrArg Prod.fst hout)⟩

theorem run_never_of_tape (w : Walk α) {s : Session ρ} {t : Session σ}
    (h : tape s.reader = tape t.reader) : (w.run .never s).1 = (w.run .never t).1 := by
  obtain ⟨a, ha⟩ := w.exists_comes (tape s.reader)
  rw [ha.run_never, Comes.run_never (h ▸ ha)]

end Walk

namespace Decoder

theorem decode_unstopped {d : Decoder} (hd : d.Heeds Told) (stop : Stop) {s : Session ρ}
    {t : Session σ} (h : tape s.reader = tape t.reader) :
    Halted stop (d.decode stop s).1 ∨ (d.decode .never t).1 = (d.decode stop s).1 :=
  (hd.run_result stop (d.run_never_of_tape h)).imp_right Eq.symm

theorem decode_outcome (p : Reading ImageInfo) (stop : Stop) (s : Session ρ) :
    ((ofReading p).decode stop s).1 = (p.run.outcome stop (tape s.reader) s.checks).1 := by
  have hrun : ((p.run.run stop s).map id Session.core).1 = _ :=
    congrArg Prod.fst (Script.outcome_core p.run s)
  exact (congrArg Prod.fst (Walk.ofScript_run p.run stop s)).trans hrun

theorem decode_reading {p : Reading ImageInfo} (hp : p.run.Heeds Told) (stop : Stop)
    (s : Session ρ) :
    Halted stop ((ofReading p).decode stop s).1 ∨
      ((ofReading p).decode stop s).1 = (p.run.eval (tape s.reader)).1 := by
  have hdecode : (ofReading p).decode stop s = p.run.run stop s := Walk.ofScript_run p.run stop s
  rw [hdecode]
  exact (hp.run_eval stop s).imp_right And.left

theorem decode_reading_ok_iff {p : Reading ImageInfo} (hp : p.run.Heeds Told) (stop : Stop)
    (s : Session ρ) (info : ImageInfo) :
    Halted stop ((ofReading p).decode stop s).1 ∨
      (((ofReading p).decode stop s).1 = .ok info ↔ ∃ t, p.Gives (tape s.reader) info t) := by
  refine (decode_reading hp stop s).imp_right fun heval => ?_
  rw [heval]
  constructor
  · intro hok
    exact ⟨_, Prod.ext hok rfl⟩
  · rintro ⟨t, hgives⟩
    exact congrArg Prod.fst hgives

theorem gives_of_decode {p : Reading ImageInfo} (hp : p.run.Heeds Told) {stop : Stop}
    {s : Session ρ} {info : ImageInfo} (h : ((ofReading p).decode stop s).1 = .ok info) :
    ∃ t, p.Gives (tape s.reader) info t :=
  Reading.gives_of_run hp ((congrArg Prod.fst (Walk.ofScript_run p.run stop s)).symm.trans h)

end Decoder

theorem Table.probe_unstopped {table : Table} (htable : ∀ e ∈ table, e.decoder.Heeds Told)
    (limits : Limits) (stop : Stop) {s t : Session (LookAhead ρ)} (h : s.reader = t.reader) :
    Decoder.Halted stop (table.probe limits stop s).1 ∨
      (table.probe limits .never t).1 = (table.probe limits stop s).1 := by
  rw [probe, probe, h]
  rcases hsearch : table.search t.reader with ⟨f | _ | e, view⟩
  · exact .inr rfl
  · dsimp only
    rcases view.look limits.svgWindow with ⟨f | bs, view'⟩
    · exact .inr rfl
    · dsimp only
      rw [(judge_run bs stop _).1, (judge_run bs .never _).1]
      exact .inr rfl
  · exact Decoder.decode_unstopped (htable e (mem_of_search (congrArg Prod.fst hsearch))) stop
      (s := ⟨view, s.checks, _⟩) (t := ⟨view, t.checks, _⟩) rfl

end ImageProbe
