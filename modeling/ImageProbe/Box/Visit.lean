import ImageProbe.Box.Header

namespace ImageProbe

namespace Box

variable {σ α : Type}

namespace Header

def farewell (h : Header) (left : Nat) : List Note :=
  if 0 < left ∧ ¬ h.isOpen then
    let name := Utf8.lossy h.name
    [.debug s!"Dropping {left} bytes in '{name}'"]
  else []

def restNote (h : Header) (left : Nat) : Note :=
  let name := Utf8.lossy h.name
  .debug <| s!"remain {left} (skipped) in BoxHeader \x7b " ++
    s!"name: '{name}', size: {h.size}, offset: {h.offset} \x7d"

def leave (h : Header) (left : Nat) (a : α) : Script α :=
  (h.farewell left).foldr .note (.done a)

def skipRest (h : Header) (left : Nat) : Script (Except ProbeError Unit) :=
  if left = 0 then .done (.ok ())
  else .note (h.restNote left) <| .fetch left fun haul =>
    if haul.bytes.length < left ∧ (haul.fault.isSome ∨ ¬ h.isOpen) then
      h.leave (left - haul.bytes.length) (.error haul.shortage)
    else .done (.ok ())

/-- Looks into a box within its payload, then passes over its rest if the steps go on. -/
def visit (h : Header) (refused : σ → ProbeError → α) (look : Script (Step σ α)) :
    Script (Step σ α) := do
  match ← look.within h.payload with
  | (.done a, left) => h.leave left (.done a)
  | (.more s, left) =>
    match ← h.skipRest left with
    | .ok () => pure (.more s)
    | .error e => pure (.done (refused s e))

end Header

end Box

end ImageProbe
