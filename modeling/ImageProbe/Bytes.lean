namespace ImageProbe

abbrev Bytes := List UInt8

def ascii (s : String) : Bytes := s.toList.map fun c => c.toNat.toUInt8

def bigEndian (bs : Bytes) : Nat := bs.foldl (fun n b => 256 * n + b.toNat) 0

def littleEndian : Bytes → Nat
  | [] => 0
  | b :: bs => b.toNat + 256 * littleEndian bs

def slice (bs : Bytes) (i n : Nat) : Bytes := (bs.drop i).take n

def range16 : Nat := 0x10000

def range32 : Nat := 0x100000000

def range64 : Nat := 0x10000000000000000

def isNegative (range n : Nat) : Bool := range ≤ 2 * n

def magnitude (range n : Nat) : Nat := if isNegative range n then range - n else n

def toLittleEndian : Nat → Nat → Bytes
  | 0, _ => []
  | width + 1, n => n.toUInt8 :: toLittleEndian width (n / 256)

def hex (b : UInt8) : String := String.ofList [(b.toNat / 16).digitChar, (b.toNat % 16).digitChar]

end ImageProbe
