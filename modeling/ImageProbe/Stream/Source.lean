import ImageProbe.Stream.Reader

namespace ImageProbe

namespace Tape

instance : ByteReader Tape where
  read t n :=
    if n = 0 then (.bytes [], t)
    else match t with
      | ⟨[], some f⟩ => (.fault f, t)
      | _ => (.bytes (t.bytes.take n), t.drop n)
  tape := id
  effort t := t.bytes.length
  faithful t n := by
    rcases t with ⟨_ | ⟨b, bs⟩, _ | f⟩ <;> by_cases hn : n = 0 <;>
      simp [hn, Delivery.Faithful, drop] <;> omega

def failingAt (bs : Bytes) (n : Nat) (f : Fault) : Tape :=
  if n ≤ bs.length then ⟨bs.take n, some f⟩ else ⟨bs, none⟩

end Tape

/-- A stream with a rhythm of its own: the delivery of a turn holds `grain turn` bytes at most
(one at least), after `pauses turn` interruptions. -/
structure Source where
  left : Tape
  pauses : Nat → Nat := fun _ => 0
  grain : Nat → Option Nat := fun _ => none
  turn : Nat := 0
  paused : Nat := 0
  taken : Nat := 0

namespace Source

def portion (s : Source) (n : Nat) : Nat := (s.grain s.turn).elim n fun g => min n (max g 1)

def read (s : Source) (n : Nat) : Delivery × Source :=
  if n = 0 then (.bytes [], s)
  else if s.paused < s.pauses s.turn then (.interrupted, { s with paused := s.paused + 1 })
  else
    let next := { s with turn := s.turn + 1, paused := 0 }
    match s.left with
    | ⟨[], some f⟩ => (.fault f, next)
    | t =>
      let bs := t.bytes.take (s.portion n)
      (.bytes bs, { next with left := t.drop (s.portion n), taken := s.taken + bs.length })

def pausesFrom (pauses : Nat → Nat) (turn : Nat) : Nat → Nat
  | 0 => 0
  | n + 1 => pauses turn + pausesFrom pauses (turn + 1) n

theorem pausesFrom_le (pauses : Nat → Nat) (turn : Nat) {m n : Nat} (h : m ≤ n) :
    pausesFrom pauses turn m ≤ pausesFrom pauses turn n := by
  induction n generalizing turn m with
  | zero => simp_all
  | succ n ih =>
    cases m with
    | zero => simp [pausesFrom]
    | succ m => exact Nat.add_le_add_left (ih _ (Nat.le_of_succ_le_succ h)) _

theorem portion_le (s : Source) (n : Nat) : s.portion n ≤ n := by
  unfold portion
  cases s.grain s.turn with
  | none => exact Nat.le_refl n
  | some g => exact Nat.min_le_left n (max g 1)

theorem portion_pos (s : Source) {n : Nat} (hn : n ≠ 0) : s.portion n ≠ 0 := by
  unfold portion
  cases s.grain s.turn <;> simp <;> omega

instance : ByteReader Source where
  read := read
  tape := left
  effort s := s.left.bytes.length + (s.pauses s.turn - s.paused) +
    pausesFrom s.pauses (s.turn + 1) s.left.bytes.length
  faithful s n := by
    unfold read
    by_cases hn : n = 0
    · simp [hn, Delivery.Faithful]
    · have hle := s.portion_le n
      have hpos := s.portion_pos hn
      by_cases hp : s.paused < s.pauses s.turn
      · simp [hn, hp, Delivery.Faithful]
        omega
      · have hm (m : Nat) (h : m < s.left.bytes.length) :
            s.pauses (s.turn + 1) + pausesFrom s.pauses (s.turn + 1 + 1) m ≤
              pausesFrom s.pauses (s.turn + 1) s.left.bytes.length :=
          pausesFrom_le s.pauses (s.turn + 1) (m := m + 1) h
        rcases hl : s.left with ⟨_ | ⟨b, bs⟩, _ | f⟩ <;>
          simp [hn, hp, Delivery.Faithful, Tape.drop, hpos] <;>
          have h' := hm (bs.length + 1 - s.portion n) (by simp [hl]; omega) <;>
          simp [hl] at h' <;> omega

end Source

end ImageProbe
