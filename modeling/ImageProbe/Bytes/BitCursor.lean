import ImageProbe.Bytes

namespace ImageProbe

/-- A place in the bits of some bytes; the lowest bit of a byte comes first. -/
structure BitCursor where
  data : Bytes
  position : Nat

namespace BitCursor

structure Shortage where
  requested : Nat
  remaining : Nat
  deriving DecidableEq

def ofBytes (data : Bytes) : BitCursor := ⟨data, 0⟩

def remaining (c : BitCursor) : Nat := 8 * c.data.length - c.position

def bit (data : Bytes) (i : Nat) : Bool := (data.getD (i / 8) 0).toNat.testBit (i % 8)

def number (data : Bytes) (i : Nat) : Nat → Nat
  | 0 => 0
  | n + 1 => (bit data i).toNat + 2 * number data (i + 1) n

def read (n : Nat) (c : BitCursor) : Except Shortage (Nat × BitCursor) :=
  if n ≤ c.remaining ∧ n ≤ 32 then
    .ok (number c.data c.position n, { c with position := c.position + n })
  else .error ⟨n, c.remaining⟩

end BitCursor

abbrev BitReading := StateT BitCursor (Except BitCursor.Shortage)

def bits (n : Nat) : BitReading Nat := BitCursor.read n

end ImageProbe
