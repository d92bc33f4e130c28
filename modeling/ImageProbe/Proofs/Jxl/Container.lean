import Mathlib.Control.Monad.Basic
import ImageProbe.Jxl
import ImageProbe.Proofs.Box.Parcel
import ImageProbe.Proofs.Eval
import ImageProbe.Proofs.Prompt.Decoders

namespace ImageProbe

open Box ByteReader

namespace Jxl

open Reading

variable {p : Parcel} {codestream : Bytes} {ρ : Type} [ByteReader ρ]

def verdict : Outcome → Except ProbeError ImageInfo
  | .error e => .error e
  | .ok codestream =>
    match size codestream with
    | .ok (width, height) => .ok ⟨.jxl, width, height⟩
    | .error (.defect d) => .error (.malformed .jxl d)
    | .error (.shortage _) => .error (.malformed .jxl .sizeHeaderTruncated)

theorem conclude_ends (o : Outcome) : (conclude o).Ends (· = verdict o) := by
  rcases o with e | codestream
  · exact rfl
  · unfold conclude verdict
    dsimp only
    rcases size codestream with (d | s) | ⟨width, height⟩
    · exact rfl
    · exact rfl
    · exact rfl

theorem decode_of_comes {s : Session ρ} {o : Outcome} (h : walk.Comes (tape s.reader) o)
    (stop : Stop) :
    (decoder.decode stop s).1 = verdict o ∨ Decoder.Halted stop (decoder.decode stop s).1 := by
  have hnever : (decoder.decode .never s).1 = verdict o :=
    (Decoder.decode_andThen conclude_ends .never s).trans (congrArg verdict h.run_never)
  exact (decoder_heeds.run_result stop hnever).symm

def gathered (codestream : Bytes) : Outcome :=
  if shortestHeader ≤ codestream.length then .ok (codestream.take longestHeader)
  else .error (.malformed .jxl .invalidCodestreamBox)

/-- A box that the search for a codestream passes over. -/
structure Foreign (p : Parcel) : Prop where
  fits : p.Fits
  whole : p.name ≠ ascii "jxlc"
  part : p.name ≠ ascii "jxlp"

theorem start_container (t : Tape) :
    walk.start.eval ⟨signature ++ t.bytes, t.ending⟩ = (.more [], t) := by
  have hfirst : (exactly 2).Gives ⟨signature.take 2 ++ (signature.drop 2 ++ t.bytes), t.ending⟩
      (signature.take 2) ⟨signature.drop 2 ++ t.bytes, t.ending⟩ := Gives.exactly rfl t.ending
  have hrest : (exactly 10).Gives ⟨signature.drop 2 ++ t.bytes, t.ending⟩ (signature.drop 2) t :=
    Gives.exactly rfl t.ending
  have hstart : start.Gives ⟨signature ++ t.bytes, t.ending⟩ (.more []) t := by
    apply Gives.bind hfirst
    rw [if_neg (by decide)]
    apply Gives.bind hrest
    exact Gives.bind (Gives.require _ (by decide) _ _) (.pure _ _)
  rw [Gives] at hstart
  change (Step.settle <$> start.run).eval _ = _
  rw [Script.eval_map, hstart]
  rfl

theorem take_gives (codestream : Bytes) {n : Nat} {bs : Bytes}
    (h : min n (longestHeader - codestream.length) ≤ bs.length) (e : Option Fault) :
    (take n codestream).Gives ⟨bs, e⟩
      (codestream ++ bs.take (min n (longestHeader - codestream.length)))
      ⟨bs.drop (min n (longestHeader - codestream.length)), e⟩ :=
  Gives.bind (Gives.first h e) (.pure _ _)

theorem take_all (codestream part : Bytes) (h : codestream.length ≤ longestHeader) :
    ∃ t, (take part.length codestream).Gives ⟨part, none⟩
      ((codestream ++ part).take longestHeader) t := by
  have htake := take_gives codestream (Nat.min_le_left part.length _) none
  rw [Nat.min_comm, ← List.take_eq_take_min] at htake
  rw [List.take_append, List.take_of_length_le h]
  exact ⟨_, htake⟩

def look (header : Header) (codestream : Bytes) : Script (Step Bytes Outcome) :=
  Step.settle <$> (lookInto header codestream).run

theorem eval_look (header : Header) (codestream : Bytes) (t : Tape) :
    (look header codestream).eval t =
      (if header.name = ascii "jxlc" then Step.settle <$> (whole header codestream).run
        else if header.name = ascii "jxlp" then Step.settle <$> (part header codestream).run
        else pure (.more codestream)).eval t := by
  rw [look, Script.eval_map, lookInto, (Gives.checkStop t).eval_bind]
  split
  · exact (Script.eval_map ..).symm
  split
  · exact (Script.eval_map ..).symm
  · rfl

theorem look_foreign (hp : Foreign p) (codestream : Bytes) :
    ((look p.header codestream).eval ⟨p.payload, none⟩).1 = .more codestream := by
  rw [eval_look, Parcel.header_name, if_neg hp.whole, if_neg hp.part]
  rfl

theorem look_whole (hname : p.name = ascii "jxlc") :
    ((look p.header []).eval ⟨p.payload, none⟩).1 = .done (gathered p.payload) := by
  rw [eval_look, Parcel.header_name, if_pos hname, Script.eval_map]
  by_cases hroom : shortestHeader ≤ p.payload.length
  · obtain ⟨t, htake⟩ := take_all [] p.payload (Nat.zero_le _)
    have hwhole : (whole p.header []).Gives ⟨p.payload, none⟩
        (.done (p.payload.take longestHeader)) t := by
      apply Gives.bind (Gives.require _ (by simpa using hroom) _ _)
      rw [Parcel.header_payload]
      exact Gives.bind htake (.pure _ _)
    rw [Gives] at hwhole
    rw [hwhole, gathered, if_pos hroom]
    rfl
  · rw [gathered, if_neg hroom, whole, require, if_neg (by simpa using hroom)]
    rfl

theorem eval_turn (hp : p.Fits) (codestream : Bytes) (t : Tape) :
    (walk.turn codestream).eval ⟨p.bytes ++ t.bytes, t.ending⟩ =
      (p.header.visit (fun _ e => .error e) (look p.header codestream)).eval
        ⟨p.payload ++ t.bytes, t.ending⟩ := by
  obtain ⟨hhaul, hdrop⟩ := haul_bytes hp t
  have hlen : ¬ p.head.length < headLength := by
    rw [Parcel.length_head hp]
    exact Nat.lt_irrefl _
  have hheader := Parcel.header_gives hp .jxl t.bytes t.ending
  rw [Gives] at hheader
  change (Script.fetch headLength fun haul => if haul.bytes.length < headLength then
    .done <$> walk.close codestream haul.shortage else box haul.bytes codestream).eval _ = _
  rw [Script.eval, hhaul, hdrop, if_neg hlen, box, Script.eval_bind, hheader]
  rfl

theorem turn_more {codestream' : Bytes} (hp : p.Fits)
    (hlook : ((look p.header codestream).eval ⟨p.payload, none⟩).1 = .more codestream')
    (t : Tape) :
    (walk.turn codestream).eval ⟨p.bytes ++ t.bytes, t.ending⟩ = (.more codestream', t) := by
  rw [eval_turn hp]
  exact visit_more p.header_payload hlook t.bytes t.ending

theorem turn_done {o : Outcome} (hp : p.Fits)
    (hlook : ((look p.header codestream).eval ⟨p.payload, none⟩).1 = .done o) (t : Tape) :
    ((walk.turn codestream).eval ⟨p.bytes ++ t.bytes, t.ending⟩).1 = .done o := by
  rw [eval_turn hp]
  exact visit_done p.header_payload hlook t.bytes t.ending

theorem comes_foreign {ps : List Parcel} (hps : ∀ p ∈ ps, Foreign p) {t : Tape} {o : Outcome}
    (h : walk.ComesFrom codestream t o) :
    walk.ComesFrom codestream ⟨ps.flatMap Parcel.bytes ++ t.bytes, t.ending⟩ o := by
  induction ps with
  | nil => exact h
  | cons p ps ih =>
    have hp := hps p List.mem_cons_self
    rw [List.flatMap_cons, List.append_assoc]
    exact .more (turn_more hp.fits (look_foreign hp codestream) ⟨_, t.ending⟩)
      (ih fun q hq => hps q (List.mem_cons_of_mem p hq))

theorem comes_whole {ps : List Parcel} (hps : ∀ q ∈ ps, Foreign q) (hp : p.Fits)
    (hname : p.name = ascii "jxlc") (t : Tape) :
    walk.Comes ⟨signature ++ (ps.flatMap Parcel.bytes ++ (p.bytes ++ t.bytes)), t.ending⟩
      (gathered p.payload) :=
  .more (start_container ⟨_, t.ending⟩)
    (comes_foreign (t := ⟨_, t.ending⟩) hps (.done (turn_done hp (look_whole hname) t)))

end Jxl

end ImageProbe
