import ImageProbe.Note
import ImageProbe.Stream.Reader

namespace ImageProbe

/-- What the host answers to each of its stop checks, the first of which has number 0. -/
abbrev Stop := Nat → Option StopReason

namespace Stop

def never : Stop := fun _ => none

def after (n : Nat) (reason : StopReason) : Stop := fun i => if i < n then none else some reason

end Stop

/-- A finite run over a stream: it fetches bytes, asks whether to stop, and writes notes. It is for
the run itself to halt when the host wants to stop. -/
inductive Script (α : Type)
  | done (a : α)
  | fetch (n : Nat) (next : Haul → Script α)
  | check (halt : StopReason → Script α) (next : Script α)
  | note (line : Note) (next : Script α)

/-- A stream in use, with the checks made so far and the notes written, the last one first. -/
structure Session (ρ : Type) where
  reader : ρ
  checks : Nat := 0
  log : List Note := []

namespace Script

variable {α β ρ : Type}

def bind : Script α → (α → Script β) → Script β
  | done a, f => f a
  | fetch n next, f => fetch n fun h => (next h).bind f
  | check halt next, f => check (fun why => (halt why).bind f) (next.bind f)
  | note line next, f => note line (next.bind f)

instance : Monad Script where
  pure := done
  bind := bind

/-- The script within a length limit, with what is left of it at the end. -/
def within (limit : Nat) : Script α → Script (α × Nat)
  | done a => done (a, limit)
  | fetch n next => fetch (min n limit) fun h => (next h).within (limit - h.bytes.length)
  | check halt next => check (fun why => (halt why).within limit) (next.within limit)
  | note line next => note line (next.within limit)

def run [ByteReader ρ] (stop : Stop) : Script α → Session ρ → α × Session ρ
  | done a, s => (a, s)
  | fetch n next, s =>
    let (h, reader) := ByteReader.fetch s.reader n
    (next h).run stop { s with reader }
  | check halt next, s =>
    match stop s.checks with
    | none => next.run stop { s with checks := s.checks + 1 }
    | some why => (halt why).run stop { s with checks := s.checks + 1 }
  | note line next, s => next.run stop { s with log := line :: s.log }

theorem run_length_le [ByteReader ρ] (stop : Stop) (p : Script α) (s : Session ρ) :
    (ByteReader.tape (p.run stop s).2.reader).bytes.length ≤
      (ByteReader.tape s.reader).bytes.length := by
  induction p generalizing s with
  | done a => simp [run]
  | fetch n next ih =>
    have hf := (ByteReader.fetch_eq s.reader n).2
    refine Nat.le_trans (ih _ _) ?_
    change (ByteReader.tape (ByteReader.fetch s.reader n).2).bytes.length ≤ _
    simp [hf, Tape.drop_length]
  | check halt next ihhalt ih =>
    unfold run
    split
    · exact ih _
    · exact ihhalt _ _
  | note line next ih => exact ih _

end Script

def writeNote (line : Note) : Script Unit := .note line (.done ())

abbrev Reading := ExceptT ProbeError Script

namespace Reading

/-- Asks the host; a wish to stop is an error like others. -/
def checkStop : Reading Unit :=
  .mk (.check (fun why => .done (.error (.stopped why))) (.done (.ok ())))

def exactly (n : Nat) : Reading Bytes :=
  .mk (.fetch n fun h => .done (if h.bytes.length < n then .error h.shortage else .ok h.bytes))

def skip (n : Nat) : Reading Unit := discard (exactly n)

def upTo (n : Nat) : Reading Bytes :=
  .mk (.fetch n fun h => .done (h.fault.elim (.ok h.bytes) fun f => .error (.ofFault f)))

def beNumber (n : Nat) : Reading Nat := bigEndian <$> exactly n

def leNumber (n : Nat) : Reading Nat := littleEndian <$> exactly n

def refuse {α : Type} (format : ImageFormat) (defect : Defect) : Reading α :=
  throw (.malformed format defect)

def require (format : ImageFormat) (holds : Bool) (defect : Defect) : Reading Unit :=
  if holds then pure () else refuse format defect

end Reading

end ImageProbe
