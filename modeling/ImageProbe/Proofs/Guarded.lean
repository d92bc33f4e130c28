import ImageProbe.Proofs.Bytes
import ImageProbe.Proofs.Follows
import ImageProbe.Proofs.Unstopped

namespace ImageProbe

open Reading

variable {α β σ ρ : Type} [ByteReader ρ]

namespace Guard

-- What a program on numbers and buffers of bounded size may only do within their bounds. Outside
-- of them there is no result, and the program aborts.

def fit (range n : Nat) : Option Nat := if n < range then some n else none

def add (range a b : Nat) : Option Nat := fit range (a + b)

def mul (range a b : Nat) : Option Nat := fit range (a * b)

def sub (a b : Nat) : Option Nat := if b ≤ a then some (a - b) else none

def div (a b : Nat) : Option Nat := if b = 0 then none else some (a / b)

def shiftLeft (width a n : Nat) : Option Nat :=
  if n < width then some ((a <<< n) % (1 <<< width)) else none

def shiftRight (width a n : Nat) : Option Nat := if n < width then some (a >>> n) else none

def part (bs : Bytes) (i n : Nat) : Option Bytes :=
  if i + n ≤ bs.length then some (slice bs i n) else none

def behind (bs : Bytes) (i : Nat) : Option Bytes := if i ≤ bs.length then some (bs.drop i) else none

def extend (capacity : Nat) (bs more : Bytes) : Option Bytes :=
  if bs.length + more.length ≤ capacity then some (bs ++ more) else none

universe u v in
theorem bind_eq {α : Type u} {β : Type v} {o : Option α} {a : α} {f : α → Option β} {r : Option β}
    (h : o = some a) (hf : f a = r) : o.bind f = r := by
  subst h
  exact hf

theorem fit_eq {range n : Nat} (h : n < range) : fit range n = some n := if_pos h

theorem add_eq {range a b : Nat} (h : a + b < range) : add range a b = some (a + b) := if_pos h

theorem mul_eq {range a b : Nat} (h : a * b < range) : mul range a b = some (a * b) := if_pos h

theorem sub_eq {a b : Nat} (h : b ≤ a) : sub a b = some (a - b) := if_pos h

theorem div_eq {a b : Nat} (h : b ≠ 0) : div a b = some (a / b) := if_neg h

theorem shiftRight_eq {width a n : Nat} (h : n < width) : shiftRight width a n = some (a >>> n) :=
  if_pos h

theorem part_eq {bs : Bytes} {i n : Nat} (h : i + n ≤ bs.length) :
    part bs i n = some (slice bs i n) := if_pos h

theorem behind_eq {bs : Bytes} {i : Nat} (h : i ≤ bs.length) : behind bs i = some (bs.drop i) :=
  if_pos h

theorem extend_eq {capacity : Nat} {bs more : Bytes} (h : bs.length + more.length ≤ capacity) :
    extend capacity bs more = some (bs ++ more) := if_pos h

theorem of_add {range a b c : Nat} (h : add range a b = some c) : c = a + b := by
  rw [add, fit] at h
  split at h
  · exact (Option.some.inj h).symm
  · exact nomatch h

theorem of_sub {a b c : Nat} (h : sub a b = some c) : b ≤ a ∧ c = a - b := by
  rw [sub] at h
  split at h
  · exact ⟨‹b ≤ a›, (Option.some.inj h).symm⟩
  · exact nomatch h

end Guard

/-- A script that may abort; it then ends with nothing. -/
abbrev GuardedScript := OptionT Script

abbrev GuardedReading := OptionT Reading

instance : MonadLift Option GuardedScript := ⟨fun o => .mk (pure o)⟩

instance : MonadLift Option GuardedReading := ⟨fun o => .mk (pure o)⟩

namespace GuardedScript

variable {Q Q' : α → Prop} {R : β → Prop}

/-- The first script does what the second one does, and never aborts; the value that both end with
has the property. -/
def Sound (Q : α → Prop) (p' : GuardedScript α) (p : Script α) : Prop :=
  Script.Follows some Q p'.run p

theorem Sound.pure {a : α} (h : Q a) : Sound Q (pure a) (Pure.pure a) := .done rfl h

theorem Sound.bind {p' : GuardedScript α} {p : Script α} {f' : α → GuardedScript β}
    {f : α → Script β} (hp : Sound Q p' p) (hf : ∀ a, Q a → Sound R (f' a) (f a)) : Sound R (p' >>= f') (p >>= f) :=
  Script.Follows.bind hp hf

theorem Sound.guard {o : Option α} {a : α} {f' : α → GuardedScript β} {p : Script β}
    (h : o = some a) (hf : Sound R (f' a) p) : Sound R (liftM o >>= f') p := by
  subst h
  exact hf

theorem Sound.note (line : Note) {p' : GuardedScript α} {p : Script α} (hp : Sound Q p' p) :
    Sound Q (do writeNote line; p') (do writeNote line; p) := Script.Follows.note line hp

theorem Sound.lift {p : Script α} (hp : p.Ensures Q) : Sound Q (liftM p) p :=
  (Script.Follows.refl hp).map

theorem Sound.weaken {p' : GuardedScript α} {p : Script α} (hp : Sound Q p' p)
    (h : ∀ a, Q a → Q' a) : Sound Q' p' p := Script.Follows.weaken hp h

theorem Sound.map {p' : GuardedScript α} {p : Script α} {f : α → β} (hp : Sound Q p' p)
    (h : ∀ a, Q a → R (f a)) : Sound R (f <$> p') (f <$> p) :=
  hp.bind fun a ha => .pure (h a ha)

end GuardedScript

namespace GuardedReading

variable {Q Q' : α → Prop} {R : β → Prop}

def Sound (Q : α → Prop) (p' : GuardedReading α) (p : Reading α) : Prop :=
  Script.Follows (Except.map some) (fun r => ∀ a, r = .ok a → Q a) p'.run.run p.run

theorem Sound.pure {a : α} (h : Q a) : Sound Q (pure a) (Pure.pure a) :=
  .done rfl fun _ hb => Except.ok.inj hb ▸ h

theorem Sound.refuse (Q : α → Prop) (format : ImageFormat) (defect : Defect) :
    Sound Q (refuse format defect : Reading (Option α)) (refuse format defect) := .done rfl nofun

theorem Sound.bind {p' : GuardedReading α} {p : Reading α} {f' : α → GuardedReading β}
    {f : α → Reading β} (hp : Sound Q p' p) (hf : ∀ a, Q a → Sound R (f' a) (f a)) :
    Sound R (p' >>= f') (p >>= f) := by
  apply Script.Follows.bind hp
  rintro (e | a) hQ
  · exact .done rfl nofun
  · exact hf a (hQ a rfl)

theorem Sound.guard {o : Option α} {a : α} {f' : α → GuardedReading β} {p : Reading β}
    (h : o = some a) (hf : Sound R (f' a) p) : Sound R (liftM o >>= f') p := by
  subst h
  exact hf

theorem Sound.last {o : Option α} {a : α} (h : o = some a) (hQ : Q a) :
    Sound Q (liftM o) (Pure.pure a) := by
  subst h
  exact .pure hQ

theorem Sound.weaken {p' : GuardedReading α} {p : Reading α} (hp : Sound Q p' p)
    (h : ∀ a, Q a → Q' a) : Sound Q' p' p :=
  Script.Follows.weaken hp fun _ hr a ha => h a (hr a ha)

theorem Sound.map {p' : GuardedReading α} {p : Reading α} {f : α → β} (hp : Sound Q p' p)
    (h : ∀ a, Q a → R (f a)) : Sound R (f <$> p') (f <$> p) :=
  hp.bind fun a ha => .pure (h a ha)

theorem Sound.lift {p : Reading α} (hp : p.Yields Q) : Sound Q (liftM p) p := by
  have hrun : (liftM p : GuardedReading α).run.run = Except.map some <$> p.run := by
    apply congrArg (Script.bind p.run)
    funext r
    cases r with
    | error e => rfl
    | ok a => rfl
  rw [Sound, hrun]
  exact (Script.Follows.refl hp).map

theorem Sound.any (p : Reading α) : Sound (fun _ => True) (liftM p) p :=
  .lift (.of_forall (fun _ _ _ => trivial) _)

theorem Sound.exactly (n : Nat) : Sound (·.length = n) (liftM (exactly n)) (exactly n) := by
  refine .fetch fun haul hlen => ?_
  dsimp only
  split
  · exact .done rfl nofun
  · refine .done rfl fun bs hbs => ?_
    have heq : haul.bytes = bs := Except.ok.inj hbs
    rw [← heq]
    omega

theorem Sound.beNumber (n : Nat) : Sound (· < span n) (liftM (beNumber n)) (beNumber n) := by
  refine .fetch fun haul hlen => ?_
  dsimp only
  split
  · exact .done rfl nofun
  · refine .done rfl fun m hm => ?_
    have heq : bigEndian haul.bytes = m := Except.ok.inj hm
    have hn : haul.bytes.length = n := by omega
    exact heq ▸ hn ▸ bigEndian_lt haul.bytes

theorem Sound.leNumber (n : Nat) : Sound (· < span n) (liftM (leNumber n)) (leNumber n) := by
  refine .fetch fun haul hlen => ?_
  dsimp only
  split
  · exact .done rfl nofun
  · refine .done rfl fun m hm => ?_
    have heq : littleEndian haul.bytes = m := Except.ok.inj hm
    have hn : haul.bytes.length = n := by omega
    exact heq ▸ hn ▸ littleEndian_lt haul.bytes

theorem Sound.require (format : ImageFormat) (holds : Bool) (defect : Defect) :
    Sound (fun _ => holds = true) (liftM (require format holds defect))
      (require format holds defect) := by
  cases holds with
  | true => exact .done rfl fun _ _ => rfl
  | false => exact .done rfl nofun

theorem Sound.note (line : Note) {p' : GuardedReading α} {p : Reading α} (hp : Sound Q p' p) :
    Sound Q (do writeNote line; p') (do writeNote line; p) := Script.Follows.note line hp

theorem Sound.checkStop {p' : GuardedReading α} {p : Reading α} (hp : Sound Q p' p) :
    Sound Q (do liftM Reading.checkStop; p') (do Reading.checkStop; p) :=
  (Sound.any Reading.checkStop).bind fun _ _ => hp

def turn {ε : Type} : Except ε (Option α) → Option (Except ε α)
  | .error e => some (.error e)
  | .ok o => o.map .ok

def outcome (p : GuardedReading α) : GuardedScript (Except ProbeError α) := .mk (turn <$> p.run.run)

theorem Sound.outcome {p' : GuardedReading α} {p : Reading α} (hp : Sound Q p' p) :
    GuardedScript.Sound (fun r => ∀ a, r = .ok a → Q a) (outcome p') p.run := by
  have hturn : (fun r : Except ProbeError α => turn (r.map some)) = some := by
    funext r
    cases r with
    | error e => rfl
    | ok a => rfl
  have hmap : Script.Follows (fun r => turn (r.map some)) _ (turn <$> p'.run.run) p.run :=
    Script.Follows.map hp
  rw [hturn] at hmap
  exact hmap

theorem all_true (step : Step σ α) : Step.All (fun _ => True) (fun _ => True) step := by
  cases step with
  | more state => trivial
  | done a => trivial

theorem Sound.settled {I : σ → Prop} {p' : GuardedReading (Step σ α)} {p : Reading (Step σ α)}
    (hp : Sound (Step.All I Q) p' p) :
    GuardedScript.Sound (Step.All I fun r => ∀ a, r = .ok a → Q a)
      (Step.settle <$> GuardedReading.outcome p') (Step.settle <$> p.run) := by
  apply hp.outcome.map
  rintro (e | state | a) hall
  · exact nofun
  · exact hall _ rfl
  · exact fun b hb => Except.ok.inj hb ▸ hall _ rfl

end GuardedReading

namespace Walk

def ofGuard : Option (Step σ α) → Step σ (Option α)
  | none => .done none
  | some (.more s) => .more s
  | some (.done a) => .done (some a)

abbrev ofGuarded (start : GuardedScript (Step σ α)) (reach : σ → Nat)
    (round : σ → Bytes → GuardedScript (Step σ α)) (close : σ → ProbeError → GuardedScript α) :
    Walk (Option α) where
  State := σ
  start := ofGuard <$> start.run
  reach := reach
  round state bs := ofGuard <$> (round state bs).run
  close state e := (close state e).run

theorem run_ofGuard {I : σ → Prop} {Q : α → Prop} {p' : GuardedScript (Step σ α)}
    {p : Script (Step σ α)} (hp : GuardedScript.Sound (Step.All I Q) p' p) (stop : Stop) (s : Session ρ) :
    (ofGuard <$> p'.run : Script _).run stop s =
        (p.run stop s).map (fun step => ofGuard (some step)) id ∧
      Step.All I Q (p.run stop s).1 :=
  (Script.Follows.map hp).run stop s

variable {w : Walk α} {I : w.State → Prop} {Q : α → Prop} {start : GuardedScript (Step w.State α)}
  {round : w.State → Bytes → GuardedScript (Step w.State α)}
  {close : w.State → ProbeError → GuardedScript α}

structure Guards (w : Walk α) (I : w.State → Prop) (Q : α → Prop)
    (start : GuardedScript (Step w.State α))
    (round : w.State → Bytes → GuardedScript (Step w.State α))
    (close : w.State → ProbeError → GuardedScript α) : Prop where
  start : GuardedScript.Sound (Step.All I Q) start w.start
  round (state : w.State) (bs : Bytes) : I state → bs.length = w.reach state + 1 →
    GuardedScript.Sound (Step.All I Q) (round state bs) (w.round state bs)
  close (state : w.State) (e : ProbeError) : I state →
    GuardedScript.Sound Q (close state e) (w.close state e)

namespace Guards

theorem turn (h : w.Guards I Q start round close) {state : w.State} (hi : I state) :
    Script.Follows (fun step => ofGuard (some step)) (Step.All I Q)
      ((ofGuarded start w.reach round close).turn state) (w.turn state) := by
  refine .fetch fun haul hlen => ?_
  replace hlen : haul.bytes.length ≤ w.reach state + 1 := hlen
  change Script.Follows _ _ (if haul.bytes.length < w.reach state + 1 then _ else _) _
  by_cases hshort : haul.bytes.length < w.reach state + 1
  · rw [if_pos hshort, if_pos hshort]
    exact Script.Follows.bind (h.close state _ hi) fun a ha => .done rfl ha
  · rw [if_neg hshort, if_neg hshort]
    exact Script.Follows.map (h.round state haul.bytes hi (by omega))

theorem runFrom (h : w.Guards I Q start round close) (stop : Stop) (state : w.State)
    (s : Session ρ) (hi : I state) :
    (ofGuarded start w.reach round close).runFrom stop state s =
        (w.runFrom stop state s).map some id ∧ Q (w.runFrom stop state s).1 := by
  revert hi
  refine w.runFrom_induction stop (fun state s ih hi => ?_) state s
  obtain ⟨heq, hall⟩ := (h.turn hi).run stop s
  rw [runFrom_eq, runFrom_eq, heq]
  rcases hout : (w.turn state).run stop s with ⟨state' | a, s'⟩ <;> rw [hout] at ih hall
  · exact ih state' rfl hall
  · exact ⟨rfl, hall⟩

theorem run (h : w.Guards I Q start round close) (stop : Stop) (s : Session ρ) :
    (ofGuarded start w.reach round close).run stop s = (w.run stop s).map some id ∧
      Q (w.run stop s).1 := by
  obtain ⟨heq, hall⟩ := run_ofGuard h.start stop s
  rw [run_eq, run_eq]
  change resume _ ((ofGuard <$> start.run : Script _).run stop s) = _ ∧ _
  rw [heq]
  rcases hout : w.start.run stop s with ⟨state | a, s'⟩ <;> rw [hout] at hall
  · exact h.runFrom stop state s' hall
  · exact ⟨rfl, hall⟩

end Guards

end Walk

abbrev GuardedDecoder := Walk (Option (Except ProbeError ImageInfo))

namespace GuardedDecoder

def ofReading (p : GuardedReading ImageInfo) : GuardedDecoder := .ofScript p.outcome.run

def onward (f : α → GuardedScript β) : Option α → Script (Option β)
  | none => pure none
  | some a => (f a).run

def decode (d : GuardedDecoder) (stop : Stop) (s : Session ρ) :
    Option (Except ProbeError ImageInfo × Session ρ) :=
  (d.run stop s).1.map (·, (d.run stop s).2)

def Sound (d' : GuardedDecoder) (d : Decoder) : Prop :=
  ∀ (ρ : Type) [ByteReader ρ] (stop : Stop) (s : Session ρ),
    d'.decode stop s = some (d.decode stop s)

theorem Sound.of_run {d' : GuardedDecoder} {d : Decoder}
    (h : ∀ (ρ : Type) [ByteReader ρ] (stop : Stop) (s : Session ρ),
      d'.run stop s = (d.run stop s).map some id) : d'.Sound d := by
  intro ρ _ stop s
  rw [decode, h]
  rfl

theorem Sound.ofReading {Q : ImageInfo → Prop} {p' : GuardedReading ImageInfo}
    {p : Reading ImageInfo} (hp : p'.Sound Q p) :
    (GuardedDecoder.ofReading p').Sound (.ofReading p) := by
  apply Sound.of_run
  intro ρ _ stop s
  have hscript : (GuardedDecoder.ofReading p').run stop s = p'.outcome.run.run stop s :=
    Walk.ofScript_run _ stop s
  have hplain : (Decoder.ofReading p).run stop s = p.run.run stop s := Walk.ofScript_run _ stop s
  rw [hscript, hplain]
  exact (hp.outcome.run stop s).1

theorem Sound.ofGuards {w : Decoder} {I : w.State → Prop} {Q : Except ProbeError ImageInfo → Prop}
    {start : GuardedScript (Step w.State (Except ProbeError ImageInfo))}
    {round : w.State → Bytes → GuardedScript (Step w.State (Except ProbeError ImageInfo))}
    {close : w.State → ProbeError → GuardedScript (Except ProbeError ImageInfo)}
    (h : w.Guards I Q start round close) :
    Sound (Walk.ofGuarded start w.reach round close) w :=
  .of_run fun _ _ stop s => (h.run stop s).1

theorem Sound.andThen {w : Walk α} {I : w.State → Prop} {Q : α → Prop}
    {start : GuardedScript (Step w.State α)}
    {round : w.State → Bytes → GuardedScript (Step w.State α)}
    {close : w.State → ProbeError → GuardedScript α} (h : w.Guards I Q start round close)
    {f' : α → GuardedScript (Except ProbeError ImageInfo)}
    {f : α → Script (Except ProbeError ImageInfo)}
    (hf : ∀ a, Q a → GuardedScript.Sound (fun _ => True) (f' a) (f a)) :
    Sound ((Walk.ofGuarded start w.reach round close).andThen (onward f')) (w.andThen f) := by
  apply Sound.of_run
  intro ρ _ stop s
  obtain ⟨heq, hall⟩ := h.run stop s
  rw [Walk.run_andThen, Walk.run_andThen, heq]
  exact ((hf _ hall).run stop _).1

end GuardedDecoder

end ImageProbe
