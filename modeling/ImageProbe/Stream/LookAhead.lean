import ImageProbe.Stream.Reader

namespace ImageProbe

/-- A stream with a view ahead: bytes looked at stay pending and are handed out again before
more is read. -/
structure LookAhead (ρ : Type) where
  inner : ρ
  pending : Bytes := []
  handed : Nat := 0
  ended : Bool := false

namespace LookAhead

variable {ρ : Type} [ByteReader ρ]

def stride : Nat := 4095

/-- The next `n` bytes, fewer at the end only; those got before a fault stay pending. -/
def look (s : LookAhead ρ) (n : Nat) : Except Fault Bytes × LookAhead ρ :=
  let due := n - s.pending.length
  if s.ended ∨ due = 0 then (.ok (s.pending.take n), s)
  else
    let (haul, inner) := ByteReader.gather stride [] s.inner due
    let s := { s with inner, pending := s.pending ++ haul.bytes }
    match haul.fault with
    | some f => (.error f, s)
    | none => (.ok (s.pending.take n), { s with ended := decide (haul.bytes.length < due) })

inductive PeekError
  | fault (f : Fault)
  | windowOutOfRange

/-- A look whose window must end at a place that 64 bits number. -/
def peek (s : LookAhead ρ) (n : Nat) : Except PeekError Bytes × LookAhead ρ :=
  match s.look n with
  | (.error f, s) => (.error (.fault f), s)
  | (.ok bs, s) => (if s.handed + n < range64 then .ok bs else .error .windowOutOfRange, s)

def read (s : LookAhead ρ) (n : Nat) : Delivery × LookAhead ρ :=
  if s.pending = [] then
    let (d, inner) := ByteReader.read s.inner n
    (d, { s with inner })
  else
    (.bytes (s.pending.take n),
      { s with pending := s.pending.drop n, handed := s.handed + min n s.pending.length })

instance : ByteReader (LookAhead ρ) where
  read := read
  tape s := ⟨s.pending ++ (ByteReader.tape s.inner).bytes, (ByteReader.tape s.inner).ending⟩
  effort s := s.pending.length + ByteReader.effort s.inner
  faithful s n := by
    by_cases hp : s.pending = []
    · simpa [read, hp] using ByteReader.faithful s.inner n
    · have hl := List.length_pos_iff.2 hp
      simp [read, hp, Delivery.Faithful, ← List.append_assoc]
      omega

end LookAhead

end ImageProbe
