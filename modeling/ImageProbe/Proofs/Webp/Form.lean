import ImageProbe.Proofs.Guarded.Webp
import ImageProbe.Proofs.Taken
import ImageProbe.Proofs.Webp.Dispatch
import ImageProbe.Proofs.Webp.Picture

namespace ImageProbe

open ByteReader Reading

namespace Webp

variable {ρ : Type} [ByteReader ρ]

/-- The chunks in the room of a form: alpha data, padded to an even length, until one tells the
size. What stands behind the first bytes of that one does not count. -/
inductive Tells : Nat → Bytes → Nat × Nat → Prop
  | alpha {room : Nat} {length data padding rest : Bytes} {extent : Nat × Nat}
    (hlength : length.length = 4) (hdata : littleEndian length = data.length)
    (hpadding : padding.length = data.length % 2)
    (fits : 8 + data.length + padding.length ≤ room)
    (next : Tells (room - (8 + data.length + padding.length)) rest extent) :
    Tells room (ascii "ALPH" ++ (length ++ (data ++ (padding ++ rest)))) extent
  | picture {room : Nat} {name length head rest : Bytes} {extent : Nat × Nat}
    (hlength : length.length = 4) (fits : 8 + littleEndian length ≤ room)
    (told : Picture name (littleEndian length) head extent) :
    Tells room (name ++ (length ++ (head ++ rest))) extent

/-- A stream that begins with a form whose chunks tell the size. The length of the form counts the
four bytes of its type. -/
inductive Form : Bytes → Nat × Nat → Prop
  | riff {length rest : Bytes} {extent : Nat × Nat} (hlength : length.length = 4)
    (min : 4 ≤ littleEndian length) (told : Tells (littleEndian length - 4) rest extent) :
    Form (ascii "RIFF" ++ (length ++ (ascii "WEBP" ++ rest))) extent

theorem gives_ofExtent {size : Except Defect (Nat × Nat)} {extent : Nat × Nat}
    (h : size = .ok extent) (t : Tape) : (ofExtent size).Gives t ⟨.webp, extent.1, extent.2⟩ t := by
  subst h
  exact .pure _ t

theorem of_gives_ofExtent {size : Except Defect (Nat × Nat)} {info : ImageInfo} {t t' : Tape}
    (h : (ofExtent size).Gives t info t') :
    info.format = .webp ∧ size = .ok (info.width, info.height) := by
  rcases size with defect | ⟨width, height⟩
  · exact absurd h (not_gives_refuse _ _ _ _ _)
  · obtain ⟨rfl, -⟩ := Gives.of_pure h
    exact ⟨rfl, rfl⟩

theorem Picture.gives {room n : Nat} {name length head : Bytes} {extent : Nat × Nat}
    (told : Picture name n head extent) (hlength : length.length = 4)
    (hn : littleEndian length = n) (fits : 8 + n ≤ room) (rest : Bytes) (e : Option Fault) :
    (chunks room).Gives ⟨name ++ (length ++ (head ++ rest)), e⟩ ⟨.webp, extent.1, extent.2⟩
      ⟨rest, e⟩ := by
  rw [chunks]
  refine .bind (.checkStop _) ?_
  rw [if_neg (by omega)]
  refine .bind (.exactly told.length_name e) (.bind (.number littleEndian hlength e) ?_)
  rw [hn, if_neg (by omega)]
  cases told with
  | @extended flags width height hflags hwidth hheight =>
    have hhead : (flags ++ (width ++ height)).length = 10 := by
      rw [List.length_append, List.length_append, hflags, hwidth, hheight]
    rw [if_neg (by decide), if_neg (by decide), if_neg (by decide), if_pos rfl]
    refine .bind (.require .webp rfl _ _) (.bind (.exactly hhead e) ?_)
    exact gives_ofExtent (congrArg _ (canvasExtent_picture hflags hwidth hheight)) _
  | @lossy _ tag width height long htag keyframe hwidth hheight =>
    have hhead : (tag ++ (startCode ++ (width ++ height))).length = min lossyHeaderLength n := by
      rw [lossyHeaderLength, Nat.min_eq_left long, List.length_append, List.length_append,
        List.length_append, htag, hwidth, hheight]
      rfl
    rw [if_neg (by decide), if_pos rfl]
    refine .bind (.exactly hhead e) ?_
    exact gives_ofExtent (lossyExtent_picture htag keyframe hwidth hheight) _
  | @lossless _ fields long hfields version =>
    have hhead : (0x2f :: fields).length = min losslessHeaderLength n := by
      rw [losslessHeaderLength, Nat.min_eq_left long, List.length_cons, hfields]
    rw [if_neg (by decide), if_neg (by decide), if_pos rfl]
    refine .bind (.exactly hhead e) ?_
    exact gives_ofExtent ((losslessExtent_fields hfields).trans (if_pos version)) _

theorem Tells.gives {room : Nat} {bs : Bytes} {extent : Nat × Nat} (h : Tells room bs extent)
    (e : Option Fault) : ∃ t, (chunks room).Gives ⟨bs, e⟩ ⟨.webp, extent.1, extent.2⟩ t := by
  induction h with
  | @alpha room length data padding rest extent hlength hdata hpadding fits next ih =>
    obtain ⟨t, hnext⟩ := ih
    have hpadded : padded (littleEndian length) (room - 8) = data.length + padding.length := by
      rw [hdata, hpadding, padded, Nat.min_eq_left (by omega)]
    have hskip : (skip (padded (littleEndian length) (room - 8))).Gives
        ⟨data ++ (padding ++ rest), e⟩ () ⟨rest, e⟩ := by
      rw [← List.append_assoc]
      exact .skip (by rw [hpadded, List.length_append]) e
    have hleft : room - 8 - padded (littleEndian length) (room - 8) =
        room - (8 + data.length + padding.length) := by omega
    refine ⟨t, ?_⟩
    rw [chunks]
    refine .bind (.checkStop _) ?_
    rw [if_neg (by omega)]
    refine .bind (.exactly rfl e) (.bind (.number littleEndian hlength e) ?_)
    rw [if_neg (by omega), if_pos rfl]
    refine .note _ (.bind hskip ?_)
    rwa [hleft]
  | @picture room name length head rest extent hlength fits told =>
    exact ⟨_, told.gives hlength rfl fits rest e⟩

theorem Tells.le_room {room : Nat} {bs : Bytes} {extent : Nat × Nat} (h : Tells room bs extent) :
    8 ≤ room := by
  cases h with
  | alpha hlength hdata hpadding fits next => omega
  | picture hlength fits told => omega

theorem Tells.of_alpha {room n : Nat} {bs : Bytes} {extent : Nat × Nat}
    (hname : slice bs 0 4 = ascii "ALPH") (hn : littleEndian (slice bs 4 4) = n)
    (hlong : 8 + padded n (room - 8) ≤ bs.length)
    (next : Tells (room - 8 - padded n (room - 8)) (bs.drop (8 + padded n (room - 8))) extent) :
    Tells room bs extent := by
  have hfull : padded n (room - 8) = n + n % 2 := by
    have hleft := next.le_room
    unfold padded at hleft ⊢
    omega
  have hfits := next.le_room
  rw [hfull, ← Nat.add_assoc] at hlong next
  rw [hfull] at hfits
  have hdata : (slice bs 8 n).length = n := length_slice (by omega)
  have hpadding : (slice bs (8 + n) (n % 2)).length = n % 2 := length_slice hlong
  have hparts : ascii "ALPH" ++ (slice bs 4 4 ++ (slice bs 8 n ++ (slice bs (8 + n) (n % 2) ++
      bs.drop (8 + n + n % 2)))) = bs := by
    rw [slice_append_drop bs (8 + n), slice_append_drop bs 8, slice_append_drop bs 4 4, ← hname,
      slice_append_drop bs 0 4, List.drop_zero]
  have hleft : room - 8 - (n + n % 2) = room - (8 + (slice bs 8 n).length +
      (slice bs (8 + n) (n % 2)).length) := by omega
  rw [hleft] at next
  rw [← hparts]
  exact .alpha (length_slice (by omega)) (hn.trans hdata.symm) (by omega) (by omega) next

theorem Tells.of_picture {room n k : Nat} {bs name : Bytes} {extent : Nat × Nat}
    (hname : slice bs 0 4 = name) (hlong : 8 ≤ bs.length)
    (hn : littleEndian (slice bs 4 4) = n) (fits : 8 + n ≤ room)
    (told : Picture name n (slice bs 8 k) extent) : Tells room bs extent := by
  have hparts : name ++ (slice bs 4 4 ++ (slice bs 8 k ++ bs.drop (8 + k))) = bs := by
    rw [slice_append_drop bs 8, slice_append_drop bs 4 4, ← hname, slice_append_drop bs 0 4,
      List.drop_zero]
  subst hn
  rw [← hparts]
  exact .picture (length_slice hlong) fits told

theorem tells_of_gives {room : Nat} {t t' : Tape} {info : ImageInfo}
    (h : (chunks room).Gives t info t') :
    info.format = .webp ∧ Tells room t.bytes (info.width, info.height) := by
  induction room using Nat.strongRecOn generalizing t with
  | ind room ih =>
    rw [chunks] at h
    obtain ⟨_, _, hcheck, h⟩ := Gives.of_bind h
    cases hcheck
    split at h
    · exact absurd h (not_gives_refuse _ _ _ _ _)
    rename_i hroom
    obtain ⟨name, _, hname, h⟩ := Gives.of_bind h
    obtain ⟨-, rfl, rfl⟩ := Gives.of_exactly hname
    obtain ⟨n, _, hnumber, h⟩ := Gives.of_bind h
    obtain ⟨hlong, hnumbered, rfl⟩ := Gives.of_number hnumber
    have hn : littleEndian (slice t.bytes 4 4) = n := hnumbered.symm
    rw [Tape.drop_length] at hlong
    have hbehind : ((t.drop 4).drop 4).bytes = t.bytes.drop 8 := List.drop_drop
    split at h
    · exact absurd h (not_gives_refuse _ _ _ _ _)
    rename_i hfits
    split at h
    · rename_i halpha
      obtain ⟨_, _, hnote, h⟩ := Gives.of_bind h
      cases hnote
      obtain ⟨_, _, hskip, h⟩ := Gives.of_bind h
      obtain ⟨hdata, rfl⟩ := Gives.of_skip hskip
      obtain ⟨hformat, htells⟩ := ih _ (by omega) h
      have hrest : (((t.drop 4).drop 4).drop (padded n (room - 8))).bytes =
          t.bytes.drop (8 + padded n (room - 8)) := by
        rw [← List.drop_drop, ← hbehind]
        rfl
      rw [hrest] at htells
      rw [hbehind, List.length_drop] at hdata
      exact ⟨hformat, .of_alpha halpha hn (by omega) htells⟩
    have hhead {k : Nat} {head : Bytes} {u : Tape}
        (hread : (exactly k).Gives ((t.drop 4).drop 4) head u) :
        head = slice t.bytes 8 k ∧ head.length = k := by
      obtain ⟨hroom, rfl, rfl⟩ := Gives.of_exactly hread
      rw [hbehind] at hroom ⊢
      exact ⟨rfl, List.length_take_of_le hroom⟩
    split at h
    · rename_i hlossy
      obtain ⟨_, _, hread, h⟩ := Gives.of_bind h
      obtain ⟨rfl, hlen⟩ := hhead hread
      obtain ⟨hformat, hextent⟩ := of_gives_ofExtent h
      have htold := lossy_picture (Nat.le_of_eq hlen) hextent
      exact ⟨hformat, .of_picture hlossy (by omega) hn (by omega) htold⟩
    split at h
    · rename_i hlossless
      obtain ⟨_, _, hread, h⟩ := Gives.of_bind h
      obtain ⟨rfl, hlen⟩ := hhead hread
      obtain ⟨hformat, hextent⟩ := of_gives_ofExtent h
      have htold := lossless_picture (Nat.le_of_eq hlen) hextent
      exact ⟨hformat, .of_picture hlossless (by omega) hn (by omega) htold⟩
    split at h
    · rename_i hextended
      obtain ⟨_, _, hrequire, h⟩ := Gives.of_bind h
      obtain ⟨hten, rfl⟩ := Gives.of_require hrequire
      obtain ⟨_, _, hread, h⟩ := Gives.of_bind h
      obtain ⟨rfl, hlen⟩ := hhead hread
      obtain ⟨hformat, hextent⟩ := of_gives_ofExtent h
      have htold := canvas_picture hlen
      rw [Except.ok.inj hextent, ← of_decide_eq_true hten] at htold
      exact ⟨hformat, .of_picture hextended (by omega) hn (by omega) htold⟩
    · obtain ⟨_, _, hnote, h⟩ := Gives.of_bind h
      exact absurd h (not_gives_refuse _ _ _ _ _)

theorem Form.gives {bs : Bytes} {extent : Nat × Nat} (h : Form bs extent) (e : Option Fault) :
    ∃ t, reading.Gives ⟨bs, e⟩ ⟨.webp, extent.1, extent.2⟩ t := by
  obtain @⟨length, rest, _, hlength, hmin, told⟩ := h
  obtain ⟨t, hchunks⟩ := told.gives e
  have hhead : (ascii "RIFF" ++ (length ++ ascii "WEBP")).length = 12 := by
    rw [List.length_append, List.length_append, hlength]
    rfl
  have hfield : slice (ascii "RIFF" ++ (length ++ ascii "WEBP")) 4 4 = length :=
    slice_field rfl hlength _
  have htype : slice (ascii "RIFF" ++ (length ++ ascii "WEBP")) 8 4 = ascii "WEBP" := by
    have hfront : (ascii "RIFF" ++ length).length = 8 := by
      rw [List.length_append, hlength]
      rfl
    have hlast := slice_field (n := 4) hfront (rfl : (ascii "WEBP").length = 4) []
    rwa [List.append_nil, List.append_assoc] at hlast
  refine ⟨t, ?_⟩
  rw [← List.append_assoc length, ← List.append_assoc]
  refine .bind (.exactly hhead e) (.bind (.require .webp rfl _ _) ?_)
  refine .bind (.require .webp (decide_eq_true htype) _ _) ?_
  rw [hfield]
  exact .bind (.require .webp (decide_eq_true hmin) _ _) hchunks

theorem form_of_gives {t t' : Tape} {info : ImageInfo} (h : reading.Gives t info t') :
    info.format = .webp ∧ Form t.bytes (info.width, info.height) := by
  obtain ⟨hlong, hriff, hwebp, -⟩ := opening_of_gives h
  obtain ⟨_, _, hhead, h⟩ := Gives.of_bind h
  obtain ⟨-, rfl, rfl⟩ := Gives.of_exactly hhead
  obtain ⟨_, _, hfirst, h⟩ := Gives.of_bind h
  obtain ⟨-, rfl⟩ := Gives.of_require hfirst
  obtain ⟨_, _, hsecond, h⟩ := Gives.of_bind h
  obtain ⟨-, rfl⟩ := Gives.of_require hsecond
  obtain ⟨_, _, hthird, h⟩ := Gives.of_bind h
  obtain ⟨hmin, rfl⟩ := Gives.of_require hthird
  obtain ⟨hformat, htells⟩ := tells_of_gives h
  rw [slice_take t.bytes (by decide)] at hmin htells
  have hparts : ascii "RIFF" ++ (slice t.bytes 4 4 ++ (ascii "WEBP" ++ t.bytes.drop 12)) =
      t.bytes := by
    rw [← hriff, ← hwebp, slice_append_drop t.bytes 8 4, slice_append_drop t.bytes 4 4,
      slice_append_drop t.bytes 0 4, List.drop_zero]
  refine ⟨hformat, ?_⟩
  rw [← hparts]
  exact .riff (length_slice (by omega)) (of_decide_eq_true hmin) htells

theorem gives_iff_form (t : Tape) (info : ImageInfo) :
    (∃ t', reading.Gives t info t') ↔
      info.format = .webp ∧ Form t.bytes (info.width, info.height) := by
  constructor
  · rintro ⟨t', h⟩
    exact form_of_gives h
  · obtain ⟨format, width, height⟩ := info
    rintro ⟨rfl, hform⟩
    exact hform.gives t.ending

theorem takes_ofExtent (size : Except Defect (Nat × Nat)) : (ofExtent size).Takes 0 := by
  rcases size with defect | extent
  · exact .refuse 0 .webp defect
  · exact .pure 0 _

theorem takes_chunks (room : Nat) : (chunks room).Takes room := by
  induction room using Nat.strongRecOn with
  | ind room ih =>
    rw [chunks]
    refine (Takes.checkStop.bind (l := room) fun _ => ?_).mono (Nat.le_of_eq (Nat.zero_add room))
    split
    · exact .refuse room .webp _
    have hsum : 4 + (4 + (room - 8)) = room := by omega
    refine ((Takes.exactly 4).bind fun name => (Takes.leNumber 4).bind fun n => ?_).mono
      (Nat.le_of_eq hsum)
    split
    · exact .refuse _ .webp _
    split
    · have hrest := ih (room - 8 - padded n (room - 8)) (by omega)
      have hpadded : padded n (room - 8) ≤ room - 8 := Nat.min_le_right _ _
      refine ((Takes.note _).bind fun _ => (Takes.skip _).bind fun _ => hrest).mono ?_
      omega
    split
    · refine ((Takes.exactly _).bind fun head => takes_ofExtent _).mono ?_
      omega
    split
    · refine ((Takes.exactly _).bind fun head => takes_ofExtent _).mono ?_
      omega
    split
    · refine .bind_require (fun hten => ?_) .webp _
      have hn : n = 10 := of_decide_eq_true hten
      refine ((Takes.exactly 10).bind fun head => takes_ofExtent _).mono ?_
      omega
    · exact ((Takes.note _).bind fun _ => .refuse 0 .webp _).mono (Nat.zero_le _)

theorem taken_le (stop : Stop) (s : Session ρ)
    (h : 4 ≤ littleEndian (slice (tape s.reader).bytes 4 4)) :
    taken s.reader (decoder.decode stop s).2.reader ≤
      littleEndian (slice (tape s.reader).bytes 4 4) + 8 := by
  have hdecode : (decoder.decode stop s).2 = (reading.run.run stop s).2 :=
    congrArg Prod.snd (Walk.ofScript_run reading.run stop s)
  have hsum : 12 + (littleEndian (slice (tape s.reader).bytes 4 4) - 4) =
      littleEndian (slice (tape s.reader).bytes 4 4) + 8 := by omega
  rw [hdecode, ← hsum]
  refine Takes.run_exactly (.bind_require (fun _ => .bind_require (fun _ => .bind_require
    (fun _ => ?_) .webp _) .webp _) .webp _) stop
  rw [slice_take _ (by decide)]
  exact takes_chunks _

/-- What the decoder accepts, how much of the stream it takes, and that none of its differences
falls below zero. -/
theorem decode_form (stop : Stop) (s : Session ρ) (info : ImageInfo) :
    let bytes := (tape s.reader).bytes
    let length := littleEndian (slice bytes 4 4)
    let out := decoder.decode stop s
    (Decoder.Halted stop out.1 ∨
      (out.1 = .ok info ↔ info.format = .webp ∧ Form bytes (info.width, info.height))) ∧
      (4 ≤ length → taken s.reader out.2.reader ≤ length + 8) ∧
      (GuardedDecoder.ofReading guardedReading).decode stop s = some out := by
  refine ⟨?_, taken_le stop s, ?_⟩
  · rw [← gives_iff_form]
    exact Decoder.decode_reading_ok_iff reading_prompt.heeds stop s info
  · exact GuardedDecoder.Sound.ofReading guardedReading_sound ρ stop s

theorem decode_form_alpha :
    let t : Tape := ⟨ascii "RIFF" ++ [30, 0, 0, 0] ++ ascii "WEBP" ++ ascii "ALPH" ++ [3, 0, 0, 0] ++
      ascii "abc" ++ [0] ++ losslessChunk, none⟩
    let out := decoder.decode .never (⟨t, 0, []⟩ : Session Tape)
    out.1 = .ok ⟨.webp, 16, 16⟩ ∧ Form t.bytes (16, 16) ∧
      4 ≤ littleEndian (slice t.bytes 4 4) ∧ taken t out.2.reader ≤ 38 ∧
      (GuardedDecoder.ofReading guardedReading).decode .never ⟨t, 0, []⟩ = some out := by
  intro t out
  have hdecode : out.1 = .ok ⟨.webp, 16, 16⟩ := by decide +kernel
  have hlength : 4 ≤ littleEndian (slice t.bytes 4 4) := by decide
  obtain ⟨hform, htaken, hguarded⟩ := decode_form .never ⟨t, 0, []⟩ ⟨.webp, 16, 16⟩
  have hiff := hform.resolve_left (Decoder.not_halted_never _)
  exact ⟨hdecode, (hiff.1 hdecode).2, hlength, htaken hlength, hguarded⟩

end Webp

end ImageProbe
