import Mathlib.Data.List.Permutation
import ImageProbe.Icon.Directory
import ImageProbe.Proofs.Bytes
import ImageProbe.Proofs.Eval
import ImageProbe.Proofs.Prompt.Decoders

namespace ImageProbe

namespace Icon

open ByteReader Reading

variable {ρ : Type} [ByteReader ρ]

namespace Entry

def Covers (e c : Entry) : Prop := c.width ≤ e.width ∧ c.height ≤ e.height

def Dominates (e c : Entry) : Prop := e.Covers c ∧ (c.width < e.width ∨ c.height < e.height)

instance (e c : Entry) : Decidable (e.Covers c) := inferInstanceAs (Decidable (_ ∧ _))

instance (e c : Entry) : Decidable (e.Dominates c) := inferInstanceAs (Decidable (_ ∧ _))

theorem Covers.refl (e : Entry) : e.Covers e := ⟨Nat.le_refl _, Nat.le_refl _⟩

theorem Covers.trans {e b c : Entry} (h : e.Covers b) (h' : b.Covers c) : e.Covers c :=
  ⟨Nat.le_trans h'.1 h.1, Nat.le_trans h'.2 h.2⟩

end Entry

def leader (es : List Entry) : Option Entry := es.foldl choose none

/-- An entry takes the lead from another one when it is gone through. -/
def Overtakes (es : List Entry) (e b : Entry) : Prop :=
  ∃ p, p ++ [e] <+: es ∧ leader p = some b ∧ e.better b = true

def listed (bs : Bytes) : List Entry :=
  (List.range (littleEndian (slice bs 4 2))).map fun i => .ofBytes (slice bs (6 + 16 * i) 16)

end Icon

end ImageProbe
