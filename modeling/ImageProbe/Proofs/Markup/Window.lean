import ImageProbe.Proofs.Markup.Document
import ImageProbe.Proofs.Unstopped
import ImageProbe.Table.Builtin

namespace ImageProbe

open ByteReader

theorem Tape.haul_fault_iff (t : Tape) (n : Nat) (f : Fault) :
    (t.haul n).fault = some f ↔ t.ending = some f ∧ t.bytes.length < n := by
  rw [haul]
  split
  · next hshort => simp [hshort]
  · next hlong => simp [hlong]

namespace Markup

variable {bs text : Bytes}

theorem Document.append (h : Document text) (more : Bytes) : Document (text ++ more) := by
  induction h with
  | root htag rest =>
    rw [List.append_assoc]
    exact .root htag (rest ++ more)
  | misc hitem _ ih =>
    rw [List.append_assoc]
    exact .misc hitem ih

theorem isSvg_append (h : isSvg bs = true) (more : Bytes) : isSvg (bs ++ more) = true := by
  obtain ⟨mark, text, hmark, htext, rfl⟩ := (isSvg_iff bs).1 h
  exact (isSvg_iff _).2 ⟨mark, text ++ more, hmark, htext.append more, List.append_assoc ..⟩

theorem isSvg_take {m n : Nat} (hle : m ≤ n) (h : isSvg (bs.take m) = true) :
    isSvg (bs.take n) = true := by
  obtain ⟨more, hmore⟩ := List.take_prefix_take_left hle (l := bs)
  rw [← hmore]
  exact isSvg_append h more

variable {ρ : Type} [ByteReader ρ]

theorem reading_run : reading.run = .fetch window fun haul => match haul.fault with
    | some f => .done (.error (.ofFault f))
    | none => (judge haul.bytes).bind fun verdict =>
      .done (if verdict then .ok svgInfo else .error (.malformed .svg .rootNotSvg)) := by
  refine congrArg (Script.fetch window) (funext fun haul => ?_)
  rcases haul with ⟨bs, _ | f⟩
  · refine (Script.bind_assoc (judge bs) _ _).trans ?_
    refine congrArg (Script.bind (judge bs)) (funext fun verdict => ?_)
    cases verdict with
    | true => rfl
    | false => rfl
  · rfl

theorem decode_eq (stop : Stop) (s : Session ρ) :
    (decoder.decode stop s).1 = match ((tape s.reader).haul window).fault with
      | some f => .error (.ofFault f)
      | none => if isSvg ((tape s.reader).bytes.take window) then .ok svgInfo
        else .error (.malformed .svg .rootNotSvg) := by
  have hdecode : (decoder.decode stop s).1 = (reading.run.run stop s).1 :=
    congrArg Prod.fst (Walk.ofScript_run reading.run stop s)
  rw [hdecode, reading_run, Script.run_fetch]
  cases ((tape s.reader).haul window).fault with
  | some f => rfl
  | none =>
    dsimp only
    rw [Script.run_bind]
    obtain ⟨hverdict, -⟩ := Table.judge_run ((tape s.reader).haul window).bytes stop
      { s with reader := (fetch s.reader window).2 }
    rcases hout : (judge ((tape s.reader).haul window).bytes).run stop
      { s with reader := (fetch s.reader window).2 } with ⟨verdict, s'⟩
    rw [hout] at hverdict
    dsimp only at hverdict
    subst hverdict
    rfl

theorem probe_wider (table : Table) (stop : Stop) (r : ρ) (checks : Nat) (log : List Note)
    {limits wider : Limits} (hwindow : limits.svgWindow ≤ wider.svgWindow)
    (plain : (tape r).ending = none) {info : ImageInfo}
    (h : (table.probe limits stop ⟨{ inner := r }, checks, log⟩).1 = .ok info) :
    (table.probe wider stop ⟨{ inner := r }, checks, log⟩).1 = .ok info := by
  cases hfind : table.find? fun e => decide (e.Fits (tape r).bytes) with
  | some e =>
    -- The window does not matter to a decoder that has been found.
    rw [(table.probe_of_found limits stop r checks log plain hfind).1] at h
    rw [(table.probe_of_found wider stop r checks log plain hfind).1, h]
  | none =>
    have hnone : ∀ e ∈ table, ¬ e.Fits (tape r).bytes := by simpa using hfind
    rw [(table.probe_of_not_found limits stop r checks log plain hnone).1] at h
    rw [(table.probe_of_not_found wider stop r checks log plain hnone).1]
    split at h
    · next hsvg => rw [if_pos (isSvg_take hwindow hsvg), h]
    · cases h

/-- What is an SVG stays one with more bytes behind it. So whatever is found in a plain stream, a
wider window finds it too. -/
theorem found_in_wider :
    (∀ bs more : Bytes, isSvg bs = true → isSvg (bs ++ more) = true) ∧
      ∀ (table : Table) (limits wider : Limits) (stop : Stop) (r : ρ) (checks : Nat)
        (log : List Note) (info : ImageInfo),
        limits.svgWindow ≤ wider.svgWindow → (tape r).ending = none →
          (table.probe limits stop ⟨{ inner := r }, checks, log⟩).1 = .ok info →
            (table.probe wider stop ⟨{ inner := r }, checks, log⟩).1 = .ok info :=
  ⟨fun _ more h => isSvg_append h more, fun table _ _ stop r checks log _ hwindow plain h =>
    probe_wider table stop r checks log hwindow plain h⟩

theorem found_in_wider_tag :
    let r : Source := ⟨⟨ascii " <a:svg width='1'><b/>", none⟩, fun _ => 0, fun _ => some 2, 0, 0, 0⟩
    (Table.builtin.probe { svgWindow := 18 } .never ⟨{ inner := r }, 0, []⟩).1 = .ok svgInfo ∧
      (Table.builtin.probe {} .never ⟨{ inner := r }, 0, []⟩).1 = .ok svgInfo := by
  intro r
  have hmiss : ∀ e ∈ Table.builtin, ¬ e.Fits (tape r).bytes := by decide +kernel
  have hblank : Misc (ascii " ") := .blank (by decide +kernel)
  have htag : RootTag (ascii "<" ++
      (ascii "a" ++ colon :: ascii "svg" ++ (0x20 :: ascii "width='1'" ++ ascii ">"))) :=
    .tag (.qualified (by decide) (by decide +kernel) (by decide +kernel))
      (.space (by decide +kernel) _) (by decide)
  have hsvg : isSvg ((tape r).bytes.take 18) = true :=
    (isSvg_iff _).2 ⟨[], _, .inl rfl, .misc hblank (.root htag []), rfl⟩
  have hfound : (Table.builtin.probe { svgWindow := 18 } .never ⟨{ inner := r }, 0, []⟩).1 =
      .ok svgInfo :=
    (Table.probe_of_not_found _ _ _ r 0 [] rfl hmiss).1.trans (if_pos hsvg)
  exact ⟨hfound, found_in_wider.2 Table.builtin _ {} .never r 0 [] svgInfo (by decide) rfl hfound⟩

/-- On a stream that fits no pattern, seen far enough to tell, the probe with the usual window and
the decoder run on the stream itself find the same, and the faults that both tell are those within
the window. -/
theorem probe_agrees (table : Table) (memory : Option Nat) (stop : Stop) (r : ρ) (checks : Nat)
    (log log' : List Note) (hmiss : ∀ e ∈ table, ¬ e.Fits (tape r).bytes)
    (hclear : ∀ f, (table.search ({ inner := r } : LookAhead ρ)).1 ≠ .error f) :
    let probed := (table.probe { memory } stop ⟨{ inner := r }, checks, log⟩).1
    let direct := (decoder.decode stop ⟨r, checks, log'⟩).1
    (probed = .ok svgInfo ↔ direct = .ok svgInfo) ∧
      ∀ e, probed = .error e ∧ direct = .error e ↔
        ∃ f, (tape r).ending = some f ∧ (tape r).bytes.length < window ∧ e = .ofFault f := by
  intro probed direct
  have hsearch : (table.search ({ inner := r } : LookAhead ρ)).1 = .ok none := by
    cases hout : (table.search ({ inner := r } : LookAhead ρ)).1 with
    | error f => exact absurd hout (hclear f)
    | ok found =>
      obtain ⟨hfound, -⟩ := table.search_sound (LookAhead.honest_unread r) hout
      rw [hfound, LookAhead.tape_unread, List.find?_eq_none.2 fun e he => by simpa using hmiss e he]
  have hprobed : probed = _ := table.probe_of_search_none { memory } stop r checks log hsearch
  have hdirect : direct = _ := decode_eq stop ⟨r, checks, log'⟩
  rw [hprobed, hdirect, show ({ memory } : Limits).svgWindow = window from rfl]
  simp only [← and_assoc, ← Tape.haul_fault_iff]
  cases ((tape r).haul window).fault with
  | some f => simp [eq_comm]
  | none =>
    cases isSvg ((tape r).bytes.take window) with
    | true => simp
    | false => simp

theorem probe_agrees_fault :
    let fault : Fault := ⟨.other, "reset"⟩
    let r : Tape := ⟨ascii " <svg width='1'/>", some fault⟩
    (Table.builtin.probe {} .never ⟨{ inner := r }, 0, []⟩).1 = .error (.ofFault fault) ∧
      (decoder.decode .never ⟨r, 0, []⟩).1 = .error (.ofFault fault) := by
  intro fault r
  have hmiss : ∀ e ∈ Table.builtin, ¬ e.Fits (tape r).bytes := by decide +kernel
  have hlong : ∀ e ∈ Table.builtin, e.pattern.length ≤ (tape r).bytes.length := by decide +kernel
  obtain ⟨found, hfound⟩ := Table.builtin.search_long (LookAhead.honest_unread r) hlong
  have hclear : ∀ f, (Table.builtin.search ({ inner := r } : LookAhead Tape)).1 ≠ .error f := by
    intro f hf
    rw [hfound] at hf
    cases hf
  have hfaults := (probe_agrees Table.builtin (some 64000000) .never r 0 [] [] hmiss hclear).2
  exact (hfaults _).2 ⟨fault, rfl, by decide, rfl⟩

end Markup

end ImageProbe
