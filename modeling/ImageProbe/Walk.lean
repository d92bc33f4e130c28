import ImageProbe.Script

namespace ImageProbe

inductive Step (σ α : Type)
  | more (s : σ)
  | done (a : α)

def Step.settle {σ ε α : Type} : Except ε (Step σ α) → Step σ (Except ε α)
  | .ok (.more s) => .more s
  | .ok (.done a) => .done (.ok a)
  | .error e => .done (.error e)

/-- A run of any length: rounds that each begin with some bytes, one at least, until one of them
ends it. When those bytes do not come, the walk closes. -/
structure Walk (α : Type) where
  State : Type
  start : Script (Step State α)
  /-- One less than the bytes that the next round begins with. -/
  reach : State → Nat
  round : State → Bytes → Script (Step State α)
  close : State → ProbeError → Script α

namespace Walk

variable {α β ρ : Type} [ByteReader ρ]

def runFrom (w : Walk α) (stop : Stop) (state : w.State) (s : Session ρ) : α × Session ρ :=
  let got := ByteReader.fetch s.reader (w.reach state + 1)
  let s' := { s with reader := got.2 }
  if _hl : got.1.bytes.length < w.reach state + 1 then
    (w.close state got.1.shortage).run stop s'
  else
    let out := (w.round state got.1.bytes).run stop s'
    match out.1 with
    | .done a => (a, out.2)
    | .more state' => w.runFrom stop state' out.2
termination_by (ByteReader.tape s.reader).bytes.length
decreasing_by
  refine Nat.lt_of_le_of_lt (Script.run_length_le stop (w.round state got.1.bytes) s') ?_
  obtain ⟨hh, ht⟩ := ByteReader.fetch_eq s.reader (w.reach state + 1)
  have hd : (ByteReader.tape s'.reader).bytes.length = _ := congrArg (·.bytes.length) ht
  simp only [got, hh, Tape.haul, List.length_take] at _hl
  rw [Tape.drop_length] at hd
  omega

def run (w : Walk α) (stop : Stop) (s : Session ρ) : α × Session ρ :=
  match w.start.run stop s with
  | (.done a, s) => (a, s)
  | (.more state, s) => w.runFrom stop state s

def ofScript (p : Script α) : Walk α where
  State := Empty
  start := .done <$> p
  reach := Empty.elim
  round := Empty.elim
  close := Empty.elim

def thenStep {σ : Type} (f : α → Script β) : Step σ α → Script (Step σ β)
  | .more s => pure (.more s)
  | .done a => .done <$> f a

def andThen (w : Walk α) (f : α → Script β) : Walk β where
  State := w.State
  start := w.start.bind (thenStep f)
  reach := w.reach
  round state bs := (w.round state bs).bind (thenStep f)
  close state e := (w.close state e).bind f

end Walk

abbrev Decoder := Walk (Except ProbeError ImageInfo)

namespace Decoder

variable {ρ : Type} [ByteReader ρ]

def ofReading (p : Reading ImageInfo) : Decoder := .ofScript p.run

def decode (d : Decoder) (stop : Stop) (s : Session ρ) :
    Except ProbeError ImageInfo × Session ρ :=
  d.run stop s

end Decoder

end ImageProbe
