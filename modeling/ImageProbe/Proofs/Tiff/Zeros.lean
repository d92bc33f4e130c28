import ImageProbe.Proofs.Tiff.Scan

namespace ImageProbe

namespace Tiff

open ByteReader

def Side.other : Side → Side
  | width => height
  | height => width

theorem Side.eq_or_eq_other (side s : Side) : s = side ∨ s = side.other := by
  cases side <;> cases s <;> decide

theorem Side.other_ne (side : Side) : side.other ≠ side := by
  cases side <;> decide

def only (side : Side) (n : Nat) : Side → Nat := Function.update (fun _ => 0) side n

def latest (dims : List (Side × Nat)) : Side → Nat :=
  dims.foldl (fun found d => Function.update found d.1 d.2) fun _ => 0

/-- If the other side is found before this one is told anew, the scan goes on to the very size that it
would have with `w` for this side. Zeros of the other side tell nothing. -/
def Regained (side : Side) (w : Nat) (behind : List (Side × Nat)) : Prop :=
  ∀ n rest, behind.dropWhile (· = (side.other, 0)) = (side.other, n) :: rest →
    report (only side.other n) rest = extent (Function.update (only side.other n) side w)

variable {side : Side} {n w : Nat} {found : Side → Nat}

theorem only_other : only side n side.other = 0 := by
  rw [only, Function.update_of_ne side.other_ne]

theorem update_only (k : Nat) : Function.update (only side n) side k = only side k := by
  rw [only, Function.update_idem, only]

theorem update_only_other (k : Nat) :
    Function.update (only side n) side.other k = Function.update (only side.other k) side n := by
  rw [only, only, Function.update_comm side.other_ne]

theorem extent_of_zero (h : found side = 0) : extent found = none := by
  refine if_neg ?_
  rintro ⟨hwidth, hheight⟩
  cases side with
  | width => exact Nat.ne_of_gt hwidth h
  | height => exact Nat.ne_of_gt hheight h

theorem extent_pos (hside : 0 < found side) (hother : 0 < found side.other) :
    extent found = some (found .width, found .height) := by
  cases side with
  | width => exact if_pos ⟨hside, hother⟩
  | height => exact if_pos ⟨hother, hside⟩

theorem report_append {xs : List (Side × Nat)} (h : report found xs = none) (ys : List (Side × Nat)) :
    report found (xs ++ ys) =
      report (xs.foldl (fun found d => Function.update found d.1 d.2) found) ys := by
  induction xs generalizing found with
  | nil => rfl
  | cons d xs ih =>
    obtain ⟨side, n⟩ := d
    rw [report, Option.or_eq_none_iff] at h
    rw [List.cons_append, report, h.1, List.foldl_cons, ← ih h.2]
    rfl

theorem extent_of_report_none {xs : List (Side × Nat)} (hfound : extent found = none)
    (h : report found xs = none) :
    extent (xs.foldl (fun found d => Function.update found d.1 d.2) found) = none := by
  induction xs generalizing found with
  | nil => exact hfound
  | cons d xs ih =>
    obtain ⟨side, n⟩ := d
    rw [report, Option.or_eq_none_iff] at h
    exact ih h.1 h.2

theorem report_side (k : Nat) (rest : List (Side × Nat)) :
    report (only side n) ((side, k) :: rest) = report (only side k) rest := by
  rw [report, update_only, extent_of_zero only_other, Option.none_or]

theorem report_other_zero (rest : List (Side × Nat)) :
    report (only side n) ((side.other, 0) :: rest) = report (only side n) rest := by
  have hsame : Function.update (only side n) side.other 0 = only side n :=
    Function.update_eq_self_iff.2 only_other.symm
  rw [report, hsame, extent_of_zero only_other, Option.none_or]

theorem report_other_lost (k : Nat) (rest : List (Side × Nat)) :
    report (only side 0) ((side.other, k) :: rest) = report (only side.other k) rest := by
  have hopen : only side.other k side = 0 := by rw [only, Function.update_of_ne side.other_ne.symm]
  have hsame : Function.update (only side 0) side.other k = only side.other k := by
    rw [update_only_other]
    exact Function.update_eq_self_iff.2 hopen.symm
  rw [report, hsame, extent_of_zero hopen, Option.none_or]

theorem report_other_found {k : Nat} (hn : 0 < n) (hk : 0 < k) (rest : List (Side × Nat)) :
    report (only side n) ((side.other, k) :: rest) =
      extent (Function.update (only side.other k) side n) := by
  have hside : 0 < Function.update (only side n) side.other k side := by
    rwa [Function.update_of_ne side.other_ne.symm, only, Function.update_self]
  have hother : 0 < Function.update (only side n) side.other k side.other := by
    rwa [Function.update_self]
  rw [report, ← update_only_other, extent_pos hside hother, Option.some_or]

theorem regained_side (k : Nat) (rest : List (Side × Nat)) : Regained side w ((side, k) :: rest) := by
  have hside : ¬ decide ((side, k) = (side.other, 0)) = true := fun h =>
    side.other_ne (Prod.mk.inj (of_decide_eq_true h)).1.symm
  intro n rest' h
  rw [List.dropWhile_cons, if_neg hside] at h
  exact absurd (Prod.mk.inj (List.cons.inj h).1).1.symm side.other_ne

theorem regained_other_zero (rest : List (Side × Nat)) :
    Regained side w ((side.other, 0) :: rest) ↔ Regained side w rest := by
  rw [Regained, List.dropWhile_cons, if_pos (decide_eq_true rfl), ← Regained]

theorem regained_other {k : Nat} (hk : 0 < k) (rest : List (Side × Nat)) :
    Regained side w ((side.other, k) :: rest) ↔
      report (only side.other k) rest = extent (Function.update (only side.other k) side w) := by
  have hother : ¬ decide ((side.other, k) = (side.other, 0)) = true := fun h =>
    Nat.ne_of_gt hk (Prod.mk.inj (of_decide_eq_true h)).2
  rw [Regained, List.dropWhile_cons, if_neg hother]
  constructor
  · intro h
    exact h k rest rfl
  · intro h n rest' hsplit
    obtain ⟨hd, rfl⟩ := List.cons.inj hsplit
    obtain rfl := (Prod.mk.inj hd).2
    exact h

theorem report_lost_iff (hw : 0 < w) (behind : List (Side × Nat)) :
    report (only side 0) behind = report (only side w) behind ↔ Regained side w behind := by
  induction behind with
  | nil => exact iff_of_true rfl nofun
  | cons d behind ih =>
    obtain ⟨s, n⟩ := d
    rcases side.eq_or_eq_other s with rfl | rfl
    · rw [report_side, report_side]
      exact iff_of_true rfl (regained_side n behind)
    rcases Nat.eq_zero_or_pos n with rfl | hn
    · rw [report_other_zero, report_other_zero, regained_other_zero, ih]
    · rw [report_other_lost, report_other_found hw hn, regained_other hn]

theorem report_zero_iff (hopen : extent found = none) (behind : List (Side × Nat)) :
    report (Function.update found side 0) behind = report found behind ↔
      found side = 0 ∨ Regained side (found side) behind := by
  rcases Nat.eq_zero_or_pos (found side) with hzero | hside
  · rw [Function.update_eq_self_iff.2 hzero.symm]
    exact iff_of_true rfl (.inl hzero)
  have hother : found side.other = 0 := by
    refine Nat.eq_zero_of_not_pos fun hother => ?_
    rw [extent_pos hside hother] at hopen
    exact nomatch hopen
  have hfound : found = only side (found side) := by
    funext s
    rcases side.eq_or_eq_other s with rfl | rfl
    · rw [only, Function.update_self]
    · rw [only_other, hother]
  have hlost : Function.update found side 0 = only side 0 := by rw [hfound, update_only]
  rw [hlost, or_iff_right (Nat.ne_of_gt hside), ← report_lost_iff hside behind, ← hfound]

variable {ρ σ : Type} [ByteReader ρ] [ByteReader σ]

/-- A zero that is read, and the same file without its entry. The results agree exactly if the side
had not been found before, or if the other side is not found before this one is told anew, or if the
scan goes on from there to the very size that it would have ended with. -/
theorem zero_removed_iff {order : ByteOrder} {left : Nat} {before : List Bytes} {zero behind : Bytes}
    (hbefore : ∀ entry ∈ before, Legible order entry)
    (hread : report (fun _ => 0) (before.filterMap (tell order)) = none)
    (hlength : zero.length = entryLength) (hzero : tell order zero = some (side, 0))
    (s : Session ρ) (s' : Session σ)
    (hfile : Directory order (before.length + (left + 1)) (before.flatten ++ (zero ++ behind))
      (tape s.reader).bytes)
    (hremoved : Directory order (before.length + left) (before.flatten ++ behind)
      (tape s'.reader).bytes) (stop stop' : Stop) :
    let found := latest (before.filterMap (tell order))
    let out := (decoder.decode stop s).1
    let out' := (decoder.decode stop' s').1
    Decoder.Halted stop out ∨ Decoder.Halted stop' out' ∨
      ((∀ info, out = .ok info ↔ out' = .ok info) ↔
        found side = 0 ∨ Regained side (found side) (told order left behind)) := by
  intro found out out'
  have hopen : extent found = none := extent_of_report_none rfl hread
  have htold : report (fun _ => 0) (told order (before.length + (left + 1))
      (before.flatten ++ (zero ++ behind))) =
        report (Function.update found side 0) (told order left behind) := by
    rw [told_append hbefore, told_cons (legible_of_tell hlength hzero), hzero, report_append hread,
      Option.toList_some, List.singleton_append, report,
      extent_of_zero (Function.update_self side 0 _), Option.none_or]
    rfl
  have hremains : report (fun _ => 0) (told order (before.length + left) (before.flatten ++ behind)) =
      report found (told order left behind) := by
    rw [told_append hbefore, report_append hread]
    rfl
  by_cases hhalted : Decoder.Halted stop out
  · exact .inl hhalted
  by_cases hhalted' : Decoder.Halted stop' out'
  · exact .inr (.inl hhalted')
  have hout (info : ImageInfo) := (decode_directory hfile stop info).resolve_left hhalted
  have hout' (info : ImageInfo) := (decode_directory hremoved stop' info).resolve_left hhalted'
  rw [htold] at hout
  rw [hremains] at hout'
  refine .inr (.inr ?_)
  rw [← report_zero_iff hopen]
  constructor
  · intro h
    apply Option.ext
    rintro ⟨width, height⟩
    have hsame := (hout ⟨.tiff, width, height⟩).symm.trans
      ((h ⟨.tiff, width, height⟩).trans (hout' ⟨.tiff, width, height⟩))
    simpa only [true_and] using hsame
  · intro h info
    exact (hout info).trans (h ▸ (hout' info).symm)

def littleShort (tag n : UInt8) : Bytes := [tag, 1, 3, 0, 1, 0, 0, 0, n, 0, 0, 0]

def littleFile (count : UInt8) (entries : Bytes) : Bytes :=
  [0x49, 0x49, 0x2a, 0] ++ ([8, 0, 0, 0] ++ ([] ++ ([count, 0] ++ entries)))

theorem littleFile_directory (count : UInt8) (entries : Bytes) :
    Directory .little count.toNat entries (littleFile count entries) :=
  .at_offset rfl rfl rfl rfl rfl

theorem zero_removed_anew :
    let before := [littleShort 0 5]
    let zero := littleShort 0 0
    let behind := littleShort 0 7 ++ littleShort 1 3
    let file : Tape := ⟨littleFile 4 (before.flatten ++ (zero ++ behind)), none⟩
    let removed : Tape := ⟨littleFile 3 (before.flatten ++ behind), none⟩
    (∀ entry ∈ before, Legible .little entry) ∧
      report (fun _ => 0) (before.filterMap (tell .little)) = none ∧
      zero.length = entryLength ∧ tell .little zero = some (.width, 0) ∧
      Directory .little 4 (before.flatten ++ (zero ++ behind)) file.bytes ∧
      Directory .little 3 (before.flatten ++ behind) removed.bytes ∧
      (decoder.decode .never ⟨file, 0, []⟩).1 = .ok ⟨.tiff, 7, 3⟩ ∧
      ∀ info, (decoder.decode .never ⟨file, 0, []⟩).1 = .ok info ↔
        (decoder.decode .never ⟨removed, 0, []⟩).1 = .ok info := by
  intro before zero behind file removed
  have hbefore : ∀ entry ∈ before, Legible .little entry := by
    intro entry hentry
    obtain rfl := List.mem_singleton.1 hentry
    exact legible_of_tell rfl (rfl : tell .little (littleShort 0 5) = some (.width, 5))
  have hread : report (fun _ => 0) (before.filterMap (tell .little)) = none := by decide
  have hzero : tell .little zero = some (.width, 0) := by decide
  have hdecode : (decoder.decode .never (⟨file, 0, []⟩ : Session Tape)).1 = .ok ⟨.tiff, 7, 3⟩ := by
    decide +kernel
  have hanew : Regained .width 5 (told .little 2 behind) := by
    have htold : told .little 2 behind = [(.width, 7), (.height, 3)] := by decide
    rw [htold]
    exact regained_side 7 _
  have hfile : Directory .little (before.length + (2 + 1)) (before.flatten ++ (zero ++ behind))
      file.bytes := littleFile_directory 4 _
  have hshorter : Directory .little (before.length + 2) (before.flatten ++ behind) removed.bytes :=
    littleFile_directory 3 _
  obtain hhalted | hhalted | hsame := zero_removed_iff hbefore hread rfl hzero
    (⟨file, 0, []⟩ : Session Tape) (⟨removed, 0, []⟩ : Session Tape) hfile hshorter .never .never
  · exact absurd hhalted (Decoder.not_halted_never _)
  · exact absurd hhalted (Decoder.not_halted_never _)
  · exact ⟨hbefore, hread, rfl, hzero, hfile, hshorter, hdecode, hsame.2 (.inr hanew)⟩

theorem zero_loses_width :
    let before := [littleShort 0 5]
    let zero := littleShort 0 0
    let behind := littleShort 1 3
    let file : Tape := ⟨littleFile 3 (before.flatten ++ (zero ++ behind)), none⟩
    let removed : Tape := ⟨littleFile 2 (before.flatten ++ behind), none⟩
    tell .little zero = some (.width, 0) ∧
      report (fun _ => 0) (before.filterMap (tell .little)) = none ∧
      Directory .little 3 (before.flatten ++ (zero ++ behind)) file.bytes ∧
      Directory .little 2 (before.flatten ++ behind) removed.bytes ∧
      (decoder.decode .never (⟨file, 0, []⟩ : Session Tape)).1 =
        .error (.malformed .tiff .dimensionsMissing) ∧
      (decoder.decode .never (⟨removed, 0, []⟩ : Session Tape)).1 = .ok ⟨.tiff, 5, 3⟩ := by
  intro before zero behind file removed
  refine ⟨by decide, by decide, littleFile_directory 3 _, littleFile_directory 2 _, ?_, ?_⟩
  · decide +kernel
  · decide +kernel

end Tiff

end ImageProbe
