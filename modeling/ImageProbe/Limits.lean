import ImageProbe.Error

namespace ImageProbe

structure Limits where
  /-- The bytes looked at for an SVG root when no pattern matches. -/
  svgWindow : Nat := 32768
  /-- The bytes that the image of an icon may take; none means any number. -/
  memory : Option Nat := some 64000000

namespace Limits

def unlimited : Limits := { memory := none }

def withSvgWindow (l : Limits) (n : Nat) : Limits := { l with svgWindow := n }

def withMemory (l : Limits) (n : Nat) : Limits := { l with memory := some n }

def allow (l : Limits) (n : Nat) : Except ProbeError Unit :=
  match l.memory with
  | some limit => if limit < n then .error (.limitExceeded "peak memory limit exceeded") else .ok ()
  | none => .ok ()

end Limits

end ImageProbe
