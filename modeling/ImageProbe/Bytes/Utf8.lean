import ImageProbe.Bytes

namespace ImageProbe

namespace Utf8

def follow (lead : UInt8) : Option (UInt8 × UInt8 × Nat) :=
  if 0xc2 ≤ lead ∧ lead ≤ 0xdf then some (0x80, 0xbf, 0)
  else if lead = 0xe0 then some (0xa0, 0xbf, 1)
  else if lead = 0xed then some (0x80, 0x9f, 1)
  else if 0xe1 ≤ lead ∧ lead ≤ 0xef then some (0x80, 0xbf, 1)
  else if lead = 0xf0 then some (0x90, 0xbf, 2)
  else if 0xf1 ≤ lead ∧ lead ≤ 0xf3 then some (0x80, 0xbf, 2)
  else if lead = 0xf4 then some (0x80, 0x8f, 2)
  else none

def isContinuation (b : UInt8) : Bool := 0x80 ≤ b && b ≤ 0xbf

def present : Nat → Bytes → Nat
  | n + 1, b :: bs => if isContinuation b then present n bs + 1 else 0
  | _, _ => 0

def first (lead : UInt8) (rest : Bytes) : Option Char × Nat :=
  if lead < 0x80 then (some (Char.ofNat lead.toNat), 0)
  else match follow lead, rest with
    | some (low, high, more), b :: bs =>
      if low ≤ b ∧ b ≤ high then
        let found := present more bs
        let code := ((b :: bs).take (more + 1)).foldl (fun n c => 64 * n + c.toNat % 64)
          (lead.toNat % (32 >>> more))
        (if found = more then some (Char.ofNat code) else none, found + 1)
      else (none, 0)
    | _, _ => (none, 0)

def scanFrom : Nat → Bytes → List (Option Char)
  | _, [] => []
  | skip + 1, _ :: bs => scanFrom skip bs
  | 0, b :: bs => let (c, more) := first b bs; c :: scanFrom more bs

def scan (bs : Bytes) : List (Option Char) := scanFrom 0 bs

def lossy (bs : Bytes) : String := String.ofList ((scan bs).map (·.getD (Char.ofNat 0xfffd)))

def decode? (bs : Bytes) : Option String := ((scan bs).mapM id).map String.ofList

end Utf8

end ImageProbe
