import ImageProbe.Bytes

namespace ImageProbe

def escapedByte (b : UInt8) : String :=
  if b = 9 then "\\t"
  else if b = 13 then "\\r"
  else if b = 10 then "\\n"
  else if b = 39 then "\\'"
  else if b = 34 then "\\\""
  else if b = 92 then "\\\\"
  else if 32 ≤ b ∧ b < 127 then (Char.ofNat b.toNat).toString
  else "\\x" ++ hex b

def escaped (bs : Bytes) : String := String.join (bs.map escapedByte)

def quoted (s : String) : String :=
  let inner := s.toList.flatMap fun c =>
    if c.toNat = 34 ∨ c.toNat = 92 then [Char.ofNat 92, c] else [c]
  "\"" ++ String.ofList inner ++ "\""

end ImageProbe
