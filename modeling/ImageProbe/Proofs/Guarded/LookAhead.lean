import ImageProbe.Proofs.Guarded
import ImageProbe.Proofs.LookAhead.Calls

namespace ImageProbe

open ByteReader Guard

variable {ρ : Type}

namespace LookAhead

/-- A view ahead as it is stored: all that has been looked at, and the place up to which it has been
handed out. -/
structure Store (ρ : Type) where
  inner : ρ
  held : Bytes := []
  place : Nat := 0
  ended : Bool := false
  deriving DecidableEq

namespace Store

def ofStream (r : ρ) : Store ρ := { inner := r }

def view (s : Store ρ) : LookAhead ρ := ⟨s.inner, s.held.drop s.place, s.place, s.ended⟩

def Stands (s : Store ρ) : Prop := s.place ≤ s.held.length

def due (s : Store ρ) (n : Nat) : Option Nat := do
  let ahead ← sub s.held.length s.place
  if ahead < n ∧ s.ended = false then sub n ahead else pure 0

def window (s : Store ρ) (n : Nat) : Option Bytes := do
  let past ← add range64 s.place n
  let size ← sub (min s.held.length past) s.place
  part s.held s.place size

variable {s : Store ρ}

theorem pending_length (s : Store ρ) : s.view.pending.length = s.held.length - s.place :=
  List.length_drop

theorem view_append (hs : s.Stands) (inner : ρ) (bs : Bytes) :
    ({ s with inner, held := s.held ++ bs } : Store ρ).view =
      { s.view with inner, pending := s.view.pending ++ bs } := by
  have hbehind : (s.held ++ bs).drop s.place = s.held.drop s.place ++ bs :=
    List.drop_append_of_le_length hs
  rw [view, hbehind]
  rfl

theorem window_eq (hs : s.Stands) (n : Nat) :
    s.window n = if s.place + n < range64 then some (s.view.pending.take n) else none := by
  unfold Stands at hs
  by_cases hrange : s.place + n < range64
  · rw [if_pos hrange]
    apply bind_eq (add_eq hrange)
    apply bind_eq (sub_eq (by omega))
    have hsize : min s.held.length (s.place + n) - s.place = min n s.view.pending.length := by
      rw [pending_length]
      omega
    have hinside : s.place + min n s.view.pending.length ≤ s.held.length := by
      rw [pending_length]
      omega
    rw [hsize, part_eq hinside]
    exact congrArg some List.take_eq_take_min.symm
  · have habort : add range64 s.place n = none := if_neg hrange
    rw [if_neg hrange, window, habort]
    rfl

theorem due_eq (hs : s.Stands) (n : Nat) :
    s.due n = some (if s.ended then 0 else n - s.view.pending.length) := by
  rw [pending_length]
  apply bind_eq (sub_eq hs)
  cases s.ended with
  | true => exact if_neg fun h => nomatch h.2
  | false =>
    by_cases hmore : s.held.length - s.place < n
    · rw [if_pos ⟨hmore, rfl⟩]
      exact sub_eq (by omega)
    · rw [if_neg fun h => hmore h.1, Nat.sub_eq_zero_of_le (by omega)]
      rfl

theorem due_zero (hs : s.Stands) {n : Nat} (hdue : s.due n = some 0) :
    s.ended = true ∨ n - s.view.pending.length = 0 := by
  rw [due_eq hs] at hdue
  cases hended : s.ended with
  | true => exact .inl rfl
  | false =>
    rw [hended] at hdue
    exact .inr (Option.some.inj hdue)

theorem open_of_due {n k : Nat} (hdue : s.due n = some (k + 1)) : s.ended = false := by
  obtain ⟨ahead, -, hsome⟩ := Option.bind_eq_some_iff.1 hdue
  by_contra hended
  rw [if_neg fun hmore => hended hmore.2] at hsome
  exact nomatch hsome

theorem due_succ (hs : s.Stands) {n k : Nat} (hdue : s.due n = some (k + 1)) :
    s.ended = false ∧ n - s.view.pending.length = k + 1 := by
  have hopen := open_of_due hdue
  rw [due_eq hs, hopen] at hdue
  exact ⟨hopen, Option.some.inj hdue⟩

end Store

end LookAhead

variable [ByteReader ρ]

namespace ByteReader

theorem gather_rest (stride : Nat) (got got' : Bytes) (r : ρ) (n : Nat) :
    (gather stride got r n).2 = (gather stride got' r n).2 := by
  fun_induction gather stride got r n generalizing got' with
  | case1 got r => rw [gather, if_pos rfl]
  | case2 got r n hn r' h =>
    rw [gather, if_neg hn]
    split <;> simp_all
  | case3 got r n hn b bs r' h ih =>
    conv_rhs => rw [gather, if_neg hn]
    split <;> simp_all
    exact ih _
  | case4 got r n hn r' h ih =>
    conv_rhs => rw [gather, if_neg hn]
    split <;> simp_all
    exact ih _
  | case5 got r n hn f r' h =>
    rw [gather, if_neg hn]
    split <;> simp_all

theorem gather_got (stride : Nat) (got : Bytes) (r : ρ) (n : Nat) :
    gather stride got r n =
      let haul := (gather stride [] r n).1
      ({ haul with bytes := got.reverse ++ haul.bytes }, (gather stride [] r n).2) := by
  have hgot := (gather_eq stride got r n).1
  have hnew := (gather_eq stride [] r n).1
  rw [List.reverse_nil, List.nil_append] at hnew
  refine Prod.ext ?_ (gather_rest stride got [] r n)
  rw [hgot, hnew]

theorem gather_step (stride : Nat) (r : ρ) {n : Nat} (hn : n ≠ 0) :
    gather stride [] r n =
      match read r (min n (stride + 1)) with
      | (.bytes [], r') => (⟨[], none⟩, r')
      | (.bytes (b :: bs), r') =>
        let haul := (gather stride [] r' (n - (bs.length + 1))).1
        ({ haul with bytes := b :: bs ++ haul.bytes },
          (gather stride [] r' (n - (bs.length + 1))).2)
      | (.interrupted, r') => gather stride [] r' n
      | (.fault f, r') => (⟨[], some f⟩, r') := by
  rw [gather, if_neg hn]
  split <;> rename_i h <;> rw [h]
  · rfl
  · rename_i b bs r'
    rw [gather_got, List.reverseAux_eq, List.append_nil, List.reverse_reverse]
  · rfl

end ByteReader

namespace LookAhead

def stock (s : LookAhead ρ) (n : Nat) (got : Haul × ρ) : Except Fault Bytes × LookAhead ρ :=
  let pending := s.pending ++ got.1.bytes
  match got.1.fault with
  | some f => (.error f, { s with inner := got.2, pending })
  | none => (.ok (pending.take n),
      { s with inner := got.2, pending, ended := decide (pending.length < n) })

theorem look_open {s : LookAhead ρ} (hopen : s.ended = false) (n : Nat) :
    s.look n = s.stock n (gather stride [] s.inner (n - s.pending.length)) := by
  by_cases hdue : n - s.pending.length = 0
  · have hfull : ¬ s.pending.length < n := by omega
    rw [look_idle (.inr hdue), hdue]
    unfold gather
    simp [stock, hfull, ← hopen]
  · have hshort (bs : Bytes) :
        (bs.length < n - s.pending.length) = ((s.pending ++ bs).length < n) := by
      rw [List.length_append]
      exact propext (by omega)
    unfold look
    refine (if_neg (not_or.2 ⟨ne_true_of_eq_false hopen, hdue⟩)).trans ?_
    simp only [hshort]
    rfl

theorem look_again {s : LookAhead ρ} {n : Nat} (hopen : s.ended = false)
    (hshort : s.pending.length < n) :
    s.look n =
      match ByteReader.read s.inner (min (n - s.pending.length) (stride + 1)) with
      | (.bytes [], inner) => (.ok (s.pending.take n), { s with inner, ended := true })
      | (.bytes (b :: bs), inner) => look { s with inner, pending := s.pending ++ b :: bs } n
      | (.interrupted, inner) => look { s with inner } n
      | (.fault f, inner) => (.error f, { s with inner }) := by
  have hdue : n - s.pending.length ≠ 0 := by omega
  rw [look_open hopen, gather_step stride s.inner hdue]
  rcases ByteReader.read s.inner (min (n - s.pending.length) (stride + 1)) with
    ⟨(_ | ⟨b, bs⟩) | _ | f, inner⟩
  · simp [stock, hshort]
  · have hrest : n - s.pending.length - (bs.length + 1) = n - (s.pending ++ b :: bs).length := by
      rw [List.length_append, List.length_cons]
      omega
    dsimp only
    rw [look_open (s := { s with inner, pending := s.pending ++ b :: bs }) hopen, hrest]
    simp only [stock, List.append_assoc]
  · exact (look_open (s := { s with inner }) hopen n).symm
  · simp [stock]

theorem peek_spec {s : LookAhead ρ} (hs : s.Honest) (n : Nat) :
    (s.peek n).1 =
      match ((tape s).haul n).fault with
      | some f => .error (.fault f)
      | none =>
        if s.handed + n < range64 then .ok ((tape s).bytes.take n)
        else .error .windowOutOfRange := by
  obtain ⟨hlook, -⟩ := look_spec hs n
  have hhanded := look_handed s n
  unfold peek
  rcases hl : s.look n with ⟨got, s'⟩
  rw [hl] at hlook hhanded
  obtain rfl : got = _ := hlook
  rw [← hhanded]
  cases ((tape s).haul n).fault with
  | some f => rfl
  | none => rfl

namespace Store

def fill (s : Store ρ) (n : Nat) : Option (Option Fault × Store ρ) :=
  match _hdue : s.due n with
  | none => none
  | some 0 => some (none, s)
  | some (k + 1) =>
    match _h : ByteReader.read s.inner (min (k + 1) (stride + 1)) with
    | (.bytes [], inner) => fill { s with inner, ended := true } n
    | (.bytes (b :: bs), inner) => fill { s with inner, held := s.held ++ b :: bs } n
    | (.interrupted, inner) => fill { s with inner } n
    | (.fault f, inner) => some (some f, { s with inner })
termination_by if s.ended then 0 else effort s.inner + 1
decreasing_by
  · simp [open_of_due _hdue]
  · simpa [open_of_due _hdue] using effort_of_bytes _h
  · simpa [open_of_due _hdue] using (effort_of_interrupted _h).2

def peek (s : Store ρ) (n : Nat) : Option (Except Fault Bytes × Store ρ) :=
  (s.fill n).bind fun
  | (some f, s) => some (.error f, s)
  | (none, s) => (s.window n).map fun bs => (.ok bs, s)

def read (s : Store ρ) (n : Nat) : Option (Delivery × Store ρ) := do
  let ahead ← behind s.held s.place
  if ahead = [] then
    let (d, inner) := ByteReader.read s.inner n
    pure (d, { s with inner })
  else
    let size := min ahead.length n
    let bs ← part ahead 0 size
    let place ← add range64 s.place size
    pure (.bytes bs, { s with place })

def call (s : Store ρ) : Call → Option (Store ρ)
  | .peek n => (s.peek n).map (·.2)
  | .read n => (s.read n).map (·.2)

variable {s : Store ρ}

theorem look_read (hs : s.Stands) {n k : Nat} (hdue : s.due n = some (k + 1)) :
    s.view.look n =
      match ByteReader.read s.inner (min (k + 1) (stride + 1)) with
      | (.bytes [], inner) => (.ok (s.view.pending.take n), { s.view with inner, ended := true })
      | (.bytes (b :: bs), inner) =>
        look { s.view with inner, pending := s.view.pending ++ b :: bs } n
      | (.interrupted, inner) => look { s.view with inner } n
      | (.fault f, inner) => (.error f, { s.view with inner }) := by
  obtain ⟨hopen, hk⟩ := due_succ hs hdue
  rw [look_again hopen (by omega), hk]
  rfl

/-- Reading on never aborts, and does what a look of the view does. -/
theorem fill_look (hs : s.Stands) (n : Nat) :
    ∃ fault s', s.fill n = some (fault, s') ∧ s'.Stands ∧ s'.place = s.place ∧
      s.view.look n = (fault.elim (.ok (s'.view.pending.take n)) .error, s'.view) := by
  fun_induction fill s n with
  | case1 s hdue =>
    rw [due_eq hs] at hdue
    exact nomatch hdue
  | case2 s hdue => exact ⟨none, s, rfl, hs, rfl, look_idle (due_zero hs hdue)⟩
  | case3 s k hdue inner h ih =>
    obtain ⟨fault, s', hfill, hstands, hplace, hlook⟩ := ih hs
    refine ⟨fault, s', hfill, hstands, hplace, ?_⟩
    rw [look_read hs hdue, h, ← hlook]
    exact (look_idle (s := { s.view with inner, ended := true }) (.inl rfl)).symm
  | case4 s k hdue b bs inner h ih =>
    have hkept : ({ s with inner, held := s.held ++ b :: bs } : Store ρ).Stands := by
      unfold Stands
      rw [List.length_append]
      exact Nat.le_add_right_of_le hs
    obtain ⟨fault, s', hfill, hstands, hplace, hlook⟩ := ih hkept
    refine ⟨fault, s', hfill, hstands, hplace, ?_⟩
    rw [look_read hs hdue, h, ← hlook, view_append hs]
  | case5 s k hdue inner h ih =>
    obtain ⟨fault, s', hfill, hstands, hplace, hlook⟩ := ih hs
    refine ⟨fault, s', hfill, hstands, hplace, ?_⟩
    rw [look_read hs hdue, h, ← hlook]
    rfl
  | case6 s k hdue f inner h =>
    refine ⟨some f, { s with inner }, rfl, hs, rfl, ?_⟩
    rw [look_read hs hdue, h]
    rfl

theorem peek_view (hs : s.Stands) (n : Nat) :
    ∃ s', s'.Stands ∧ s'.view = (s.view.peek n).2 ∧
      s.peek n =
        match (s.view.peek n).1 with
        | .error (.fault f) => some (.error f, s')
        | .error .windowOutOfRange => none
        | .ok bs => some (.ok bs, s') := by
  obtain ⟨fault, s', hfill, hstands, hplace, hlook⟩ := fill_look hs n
  refine ⟨s', hstands, ?_, bind_eq hfill ?_⟩
  · rw [LookAhead.peek_view, hlook]
  unfold LookAhead.peek
  rw [hlook]
  cases fault with
  | some f => rfl
  | none =>
    have hhanded : s'.view.handed = s.place := hplace
    dsimp only [Option.elim]
    rw [window_eq hstands, hplace, hhanded]
    by_cases hrange : s.place + n < range64
    · rw [if_pos hrange, if_pos hrange]
      rfl
    · rw [if_neg hrange, if_neg hrange]
      rfl

theorem read_view (hs : s.Stands) {n : Nat} {d : Delivery} {s' : Store ρ}
    (h : s.read n = some (d, s')) : s'.Stands ∧ s.view.read n = (d, s'.view) := by
  obtain ⟨ahead, hahead, hread⟩ := Option.bind_eq_some_iff.1 h
  obtain rfl : s.view.pending = ahead :=
    Option.some.inj ((behind_eq hs).symm.trans hahead)
  unfold LookAhead.read
  by_cases hempty : s.view.pending = []
  · rw [if_pos hempty] at hread ⊢
    cases hread
    exact ⟨hs, rfl⟩
  · rw [if_neg hempty] at hread ⊢
    obtain ⟨bs, hbs, hread⟩ := Option.bind_eq_some_iff.1 hread
    obtain ⟨place, hplace, hread⟩ := Option.bind_eq_some_iff.1 hread
    cases hread
    obtain rfl := of_add hplace
    have hsize : min s.view.pending.length n = min n s.view.pending.length := Nat.min_comm ..
    have hinside : 0 + min n s.view.pending.length ≤ s.view.pending.length := by omega
    have hstands : s.place + min n s.view.pending.length ≤ s.held.length := by
      have hlength := pending_length s
      unfold Stands at hs
      omega
    rw [hsize, part_eq hinside] at hbs
    cases hbs
    rw [hsize]
    refine ⟨hstands, Prod.ext ?_ ?_⟩
    · exact congrArg Delivery.bytes List.take_eq_take_min
    · have hpending : s.view.pending.drop n =
          s.held.drop (s.place + min n s.view.pending.length) := by
        rw [List.drop_eq_drop_min, ← List.drop_drop]
        rfl
      exact congrArg (LookAhead.mk s.inner · _ s.ended) hpending

structure Follows (s : Store ρ) (u : Use ρ) : Prop where
  stands : s.Stands
  view : s.view = u.view

variable {r : ρ} {u : Use ρ} {s' : Store ρ}

theorem Follows.call (hs : s.Follows u) (c : Call) (h : s.call c = some s') :
    s'.Follows (u.call c) := by
  cases c with
  | peek n =>
    obtain ⟨⟨answer, t⟩, hpeek, rfl⟩ := Option.map_eq_some_iff.1 h
    obtain ⟨s', hstands, hview, heq⟩ := peek_view hs.stands n
    rw [hpeek] at heq
    obtain rfl : t = s' := by
      split at heq
      · exact congrArg Prod.snd (Option.some.inj heq)
      · exact nomatch heq
      · exact congrArg Prod.snd (Option.some.inj heq)
    exact ⟨hstands, hview.trans (congrArg (fun v => (v.peek n).2) hs.view)⟩
  | read n =>
    obtain ⟨⟨d, t⟩, hread, rfl⟩ := Option.map_eq_some_iff.1 h
    obtain ⟨hstands, hview⟩ := read_view hs.stands hread
    rw [hs.view] at hview
    exact ⟨hstands, (congrArg Prod.snd hview).symm⟩

theorem Follows.calls (hs : s.Follows u) {calls : List Call}
    (h : calls.foldlM Store.call s = some s') : s'.Follows (calls.foldl Use.call u) := by
  induction calls generalizing s u with
  | nil => exact Option.some.inj h ▸ hs
  | cons c calls ih =>
    obtain ⟨t, hcall, hrest⟩ := Option.bind_eq_some_iff.1 h
    exact ih (hs.call c hcall) hrest

/-- Whatever has been called before, a peek ends, with what is still to come, unless the place `n`
bytes on is out of range; and then it ends with a fault that comes before. -/
theorem peek_ends_iff {calls : List Call} (h : calls.foldlM Store.call (ofStream r) = some s)
    (n : Nat) :
    ((s.peek n).isSome ↔ s.place + n < range64 ∨ ((tape s.view).haul n).fault.isSome) ∧
      ∀ answer s', s.peek n = some (answer, s') →
        s.view.peek n = (answer.mapError .fault, s'.view) ∧
        answer = match ((tape s.view).haul n).fault with
          | some f => .error f
          | none => .ok ((tape s.view).bytes.take n) := by
  have hunread : Follows (ofStream r) (.ofStream r) := ⟨Nat.le_refl 0, rfl⟩
  have hfollows := hunread.calls h
  have hhonest : s.view.Honest := hfollows.view ▸ (Use.kept_calls r calls).honest
  obtain ⟨s', -, hview, hpeek⟩ := peek_view hfollows.stands n
  have hanswer := peek_spec hhonest n
  have hhanded : s.view.handed = s.place := rfl
  rw [hhanded] at hanswer
  rw [hpeek]
  cases hfault : ((tape s.view).haul n).fault with
  | some f =>
    rw [hfault] at hanswer
    replace hanswer : (s.view.peek n).1 = .error (.fault f) := hanswer
    rw [hanswer]
    refine ⟨iff_of_true rfl (.inr rfl), ?_⟩
    rintro answer t ⟨⟩
    exact ⟨Prod.ext hanswer hview.symm, rfl⟩
  | none =>
    rw [hfault] at hanswer
    by_cases hrange : s.place + n < range64
    · replace hanswer := hanswer.trans (if_pos hrange)
      rw [hanswer]
      refine ⟨iff_of_true rfl (.inl hrange), ?_⟩
      rintro answer t ⟨⟩
      exact ⟨Prod.ext hanswer hview.symm, rfl⟩
    · replace hanswer := hanswer.trans (if_neg hrange)
      rw [hanswer]
      exact ⟨iff_of_false nofun (by simp [hrange]), nofun⟩

theorem peek_ends_widest :
    let r : Tape := ⟨[1, 2, 3, 4, 5, 6, 7, 8], none⟩
    let s : Store Tape := ⟨⟨[3, 4, 5, 6, 7, 8], none⟩, [1, 2], 1, false⟩
    let r' : Tape := ⟨[1, 2, 3, 4, 5, 6, 7, 8], some ⟨.other, "reset"⟩⟩
    let s' : Store Tape := ⟨⟨[3, 4, 5, 6, 7, 8], some ⟨.other, "reset"⟩⟩, [1, 2], 1, false⟩
    [Call.peek 2, .read 1].foldlM Store.call (ofStream r) = some s ∧
      (s.peek (range64 - 2)).isSome ∧
      [Call.peek 2, .read 1].foldlM Store.call (ofStream r') = some s' ∧
      (s'.peek (range64 - 1)).isSome := by
  intro r s r' s'
  have hs : [Call.peek 2, .read 1].foldlM Store.call (ofStream r) = some s := by decide +kernel
  have hs' : [Call.peek 2, .read 1].foldlM Store.call (ofStream r') = some s' := by
    decide +kernel
  exact ⟨hs, (peek_ends_iff hs _).1.2 (.inl (by decide)), hs',
    (peek_ends_iff hs' _).1.2 (.inr (by decide +kernel))⟩

theorem peek_aborts :
    let r : Tape := ⟨[1, 2, 3, 4, 5, 6, 7, 8], none⟩
    let s : Store Tape := ⟨⟨[3, 4, 5, 6, 7, 8], none⟩, [1, 2], 1, false⟩
    ((ofStream r).peek (range64 - 1)).isSome ∧
      [Call.peek 2, .read 1].foldlM Store.call (ofStream r) = some s ∧
      s.peek (range64 - 1) = none := by
  intro r s
  have haborts : (s.peek (range64 - 1)).isNone := by decide +kernel
  exact ⟨by decide +kernel, by decide +kernel, Option.isNone_iff_eq_none.1 haborts⟩

end Store

end LookAhead

end ImageProbe
