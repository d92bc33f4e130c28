import ImageProbe.Bytes.BitCursor
import ImageProbe.Error

namespace ImageProbe

namespace Jxl

def marker : Bytes := [0xff, 0x0a]

def longestHeader : Nat := 11

def shortestHeader : Nat := 4

inductive SizeError
  | defect (d : Defect)
  | shortage (s : BitCursor.Shortage)
  deriving DecidableEq

def fieldBits : Nat → Nat
  | 0 => 9
  | 1 => 13
  | 2 => 18
  | _ => 30

def ratio : Nat → Nat × Nat
  | 1 => (1, 1)
  | 2 => (12, 10)
  | 3 => (4, 3)
  | 4 => (3, 2)
  | 5 => (16, 9)
  | 6 => (5, 4)
  | _ => (2, 1)

def side (small : Bool) : BitReading Nat := do
  if small then
    let n ← bits 5
    pure ((n + 1) * 8)
  else
    let selector ← bits 2
    let n ← bits (fieldBits selector)
    pure (n + 1)

def extent : BitReading (Nat × Nat) := do
  let small := (← bits 1) = 1
  let height ← side small
  let r ← bits 3
  if r = 0 then
    let width ← side small
    pure (width, height)
  else pure (height * (ratio r).1 / (ratio r).2, height)

def size (codestream : Bytes) : Except SizeError (Nat × Nat) :=
  if codestream.length < shortestHeader then .error (.defect .codestreamTooShort)
  else if codestream.take 2 ≠ marker then .error (.defect .codestreamMarkerMissing)
  else match extent.run (.ofBytes (codestream.drop 2)) with
    | .error s => .error (.shortage s)
    | .ok ((width, height), _) =>
      if width < range32 then .ok (width, height) else .error (.defect .widthOutOfRange)

end Jxl

end ImageProbe
