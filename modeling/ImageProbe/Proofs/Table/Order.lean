import ImageProbe.Table
import Mathlib.Data.List.Forall2
import Mathlib.Data.List.Induction

namespace ImageProbe

namespace Entry

def Fits (e : Entry) (bs : Bytes) : Prop :=
  ∃ head tail, bs = head ++ tail ∧ List.Forall₂ (fun p b => p = b ∨ p = wildcard) e.pattern head

theorem accepts_iff (ps bs : Bytes) :
    accepts ps bs = true ↔ List.Forall₂ (fun p b => p = b ∨ p = wildcard) ps bs := by
  induction ps generalizing bs with
  | nil => cases bs <;> simp [accepts]
  | cons p ps ih => cases bs <;> simp [accepts, ih]

theorem fits_iff (e : Entry) (bs : Bytes) :
    e.Fits bs ↔ accepts e.pattern (bs.take e.pattern.length) = true := by
  rw [accepts_iff]
  constructor
  · rintro ⟨head, tail, rfl, h⟩
    rwa [h.length_eq, List.take_left]
  · intro h
    exact ⟨_, _, (List.take_append_drop e.pattern.length bs).symm, h⟩

theorem accepts_get {ps bs : Bytes} (h : accepts ps bs = true) {i : Nat} {p : UInt8}
    (hp : ps[i]? = some p) (hw : p ≠ wildcard) : bs[i]? = some p := by
  induction ps generalizing bs i with
  | nil => simp at hp
  | cons q ps ih =>
    cases bs with
    | nil => simp [accepts] at h
    | cons b bs =>
      simp only [accepts, Bool.and_eq_true, Bool.or_eq_true, decide_eq_true_eq] at h
      obtain ⟨hq, hps⟩ := h
      cases i with
      | zero =>
        obtain rfl : q = p := by simpa using hp
        rcases hq with rfl | hq
        · rfl
        · exact absurd hq hw
      | succ i => exact ih hps hp

theorem Fits.get {e : Entry} {bs : Bytes} (h : e.Fits bs) {i : Nat} {p : UInt8}
    (hp : e.pattern[i]? = some p) (hw : p ≠ wildcard) : bs[i]? = some p := by
  have hget := accepts_get ((e.fits_iff bs).1 h) hp hw
  have hi : i < e.pattern.length := (List.getElem?_eq_some_iff.1 hp).1
  rwa [List.getElem?_take_of_lt hi] at hget

theorem Fits.slice_eq {e : Entry} {bs : Bytes} (h : e.Fits bs) {i n : Nat}
    (hinside : i + n ≤ e.pattern.length) (hexact : wildcard ∉ slice e.pattern i n) :
    slice bs i n = slice e.pattern i n := by
  apply List.ext_getElem?
  intro j
  simp only [slice] at hexact ⊢
  by_cases hj : j < n
  · rw [List.getElem?_take_of_lt hj, List.getElem?_take_of_lt hj, List.getElem?_drop,
      List.getElem?_drop]
    have hp : e.pattern[i + j]? = some e.pattern[i + j] := List.getElem?_eq_getElem (by omega)
    rw [hp]
    apply h.get hp
    intro hwild
    apply hexact
    rw [← hwild]
    apply List.mem_of_getElem? (i := j)
    rw [List.getElem?_take_of_lt hj, List.getElem?_drop, hp]
  · rw [List.getElem?_take_eq_none (Nat.le_of_not_lt hj),
      List.getElem?_take_eq_none (Nat.le_of_not_lt hj)]

instance (e : Entry) (bs : Bytes) : Decidable (e.Fits bs) := decidable_of_iff _ (e.fits_iff bs).symm

def Misses (e : Entry) (marks : List (Nat × UInt8)) : Prop :=
  ∃ q ∈ marks, ∃ p ∈ e.pattern[q.1]?, p ≠ wildcard ∧ p ≠ q.2

instance (e : Entry) (marks : List (Nat × UInt8)) : Decidable (e.Misses marks) :=
  inferInstanceAs (Decidable (∃ q ∈ marks, ∃ p ∈ e.pattern[q.1]?, p ≠ wildcard ∧ p ≠ q.2))

theorem not_fits_of_misses {e : Entry} {marks : List (Nat × UInt8)} (h : e.Misses marks) {bs : Bytes}
    (hmarks : ∀ q ∈ marks, bs[q.1]? = some q.2) : ¬ e.Fits bs := by
  obtain ⟨q, hq, p, hp, hw, hne⟩ := h
  intro hfit
  have hget := hfit.get hp hw
  rw [hmarks q hq] at hget
  exact hne (Option.some.inj hget).symm

end Entry

namespace Table

def Ordered (t : Table) : Prop := t.Pairwise fun e f => f.exactness ≤ e.exactness

theorem mem_register (t : Table) (e f : Entry) : f ∈ register t e ↔ f = e ∨ f ∈ t := by
  induction t with
  | nil => simp [register]
  | cons g t ih =>
    unfold register
    split
    · simp only [List.mem_cons, ih]
      exact or_left_comm
    · simp

theorem mem_registered (es : List Entry) (f : Entry) :
    f ∈ es.foldl register empty ↔ f ∈ es := by
  have h (t : Table) : f ∈ es.foldl register t ↔ f ∈ t ∨ f ∈ es := by
    induction es generalizing t with
    | nil => simp
    | cons e es ih =>
      rw [List.foldl_cons, ih, mem_register, List.mem_cons, or_assoc, or_left_comm]
  simpa [empty] using h empty

theorem Ordered.register {t : Table} (h : t.Ordered) (e : Entry) : (t.register e).Ordered := by
  induction t with
  | nil => simp [Table.register, Ordered]
  | cons f t ih =>
    obtain ⟨hf, ht⟩ := List.pairwise_cons.1 h
    unfold Table.register
    split
    · rename_i hle
      refine List.pairwise_cons.2 ⟨fun g hg => ?_, ih ht⟩
      rcases (mem_register t e g).1 hg with rfl | hg
      · exact hle
      · exact hf g hg
    · rename_i hlt
      refine List.pairwise_cons.2 ⟨fun g hg => ?_, h⟩
      rcases List.mem_cons.1 hg with rfl | hg
      · omega
      · have := hf g hg
        omega

theorem ordered_registered (es : List Entry) : (es.foldl register empty).Ordered := by
  have h (t : Table) (ht : t.Ordered) : (es.foldl register t).Ordered := by
    induction es generalizing t with
    | nil => exact ht
    | cons e es ih => exact ih _ (ht.register e)
  exact h empty .nil

theorem find?_register {t : Table} (ht : t.Ordered) (e : Entry) (p : Entry → Bool) :
    (t.register e).find? p =
      if p e then
        match t.find? p with
        | some f => if e.exactness ≤ f.exactness then some f else some e
        | none => some e
      else t.find? p := by
  induction t with
  | nil => cases hp : p e <;> simp [register, hp]
  | cons f t ih =>
    obtain ⟨hf, ht⟩ := List.pairwise_cons.1 ht
    unfold register
    split
    · rename_i hle
      cases hp : p f with
      | true => simp [hp, hle]
      | false => simp only [List.find?_cons, hp, ih ht]
    · rename_i hlt
      rw [List.find?_cons]
      cases hp : p e with
      | false => simp
      | true =>
        simp only [if_true]
        cases hfind : (f :: t).find? p with
        | none => rfl
        | some g =>
          have hg : g.exactness ≤ f.exactness := by
            rcases List.mem_cons.1 (List.mem_of_find?_eq_some hfind) with rfl | hg
            · exact Nat.le_refl _
            · exact hf g hg
          dsimp only
          rw [if_neg (by omega)]

/-- The entry that the bytes are routed to: one of the most exact of those that fit, and of these
the first that was registered. -/
def Routed (registered : List Entry) (bs : Bytes) (e : Entry) : Prop :=
  ∃ before after, registered = before ++ e :: after ∧ e.Fits bs ∧
    (∀ f ∈ before, f.Fits bs → f.exactness < e.exactness) ∧
    ∀ f ∈ after, f.Fits bs → f.exactness ≤ e.exactness

theorem Routed.exactness_le {es : List Entry} {bs : Bytes} {e f : Entry} (h : Routed es bs e)
    (hf : f ∈ es) (hfit : f.Fits bs) : f.exactness ≤ e.exactness := by
  obtain ⟨before, after, rfl, -, hb, ha⟩ := h
  rcases List.mem_append.1 hf with hf | hf
  · exact Nat.le_of_lt (hb f hf hfit)
  · rcases List.mem_cons.1 hf with rfl | hf
    · exact Nat.le_refl _
    · exact ha f hf hfit

theorem Routed.append {es : List Entry} {bs : Bytes} {f : Entry} (h : Routed es bs f) {e : Entry}
    (he : e.Fits bs → e.exactness ≤ f.exactness) : Routed (es ++ [e]) bs f := by
  obtain ⟨before, after, rfl, hf, hb, ha⟩ := h
  refine ⟨before, after ++ [e], by simp, hf, hb, fun g hg hfit => ?_⟩
  rcases List.mem_append.1 hg with hg | hg
  · exact ha g hg hfit
  · exact List.mem_singleton.1 hg ▸ he (List.mem_singleton.1 hg ▸ hfit)

theorem Routed.last {es : List Entry} {bs : Bytes} {e : Entry} (he : e.Fits bs)
    (h : ∀ f ∈ es, f.Fits bs → f.exactness < e.exactness) : Routed (es ++ [e]) bs e :=
  ⟨es, [], rfl, he, h, nofun⟩

theorem find?_registered (es : List Entry) (bs : Bytes) :
    match (es.foldl register empty).find? (fun e => decide (e.Fits bs)) with
    | some e => Routed es bs e
    | none => ∀ e ∈ es, ¬ e.Fits bs := by
  induction es using List.reverseRecOn with
  | nil => simp [empty]
  | append_singleton es e ih =>
    rw [List.foldl_append, List.foldl_cons, List.foldl_nil, find?_register (ordered_registered es)]
    cases hfind : (es.foldl register empty).find? (fun e => decide (e.Fits bs)) with
    | none =>
      rw [hfind] at ih
      by_cases he : e.Fits bs
      · simp only [he, decide_true, if_true]
        exact .last he fun f hf hfit => absurd hfit (ih f hf)
      · simp only [he, decide_false, Bool.false_eq_true, if_false]
        intro f hf
        rcases List.mem_append.1 hf with hf | hf
        · exact ih f hf
        · exact List.mem_singleton.1 hf ▸ he
    | some f =>
      rw [hfind] at ih
      by_cases he : e.Fits bs
      · simp only [he, decide_true, if_true]
        by_cases hle : e.exactness ≤ f.exactness
        · rw [if_pos hle]
          exact ih.append fun _ => hle
        · rw [if_neg hle]
          exact .last he fun g hg hfit => Nat.lt_of_le_of_lt (ih.exactness_le hg hfit) (by omega)
      · simp only [he, decide_false, Bool.false_eq_true, if_false]
        exact ih.append fun hfit => absurd hfit he

theorem Routed.unique {es : List Entry} {bs : Bytes} {e f : Entry} (he : Routed es bs e)
    (hf : Routed es bs f) : e = f := by
  obtain ⟨be, ae, rfl, hefit, hbe, hae⟩ := he
  obtain ⟨bf, af, heq, hffit, hbf, haf⟩ := hf
  rcases List.append_eq_append_iff.1 heq with ⟨mid, rfl, hmid⟩ | ⟨mid, rfl, hmid⟩
  · cases mid with
    | nil => exact (List.cons.inj hmid).1
    | cons g mid =>
      obtain ⟨rfl, rfl⟩ := List.cons.inj hmid
      have h1 := hbf e (by simp) hefit
      have h2 := hae f (by simp) hffit
      omega
  · cases mid with
    | nil => exact (List.cons.inj hmid).1.symm
    | cons g mid =>
      obtain ⟨rfl, rfl⟩ := List.cons.inj hmid
      have h1 := hbe f (by simp) hffit
      have h2 := haf e (by simp) hefit
      omega

theorem find?_of_routed {es : List Entry} {bs : Bytes} {e : Entry} (h : Routed es bs e) :
    ((es.foldl register empty).find? fun e => decide (e.Fits bs)) = some e := by
  have hfind := find?_registered es bs
  cases hf : (es.foldl register empty).find? fun e => decide (e.Fits bs) with
  | some f =>
    rw [hf] at hfind
    rw [h.unique hfind]
  | none =>
    rw [hf] at hfind
    obtain ⟨before, after, rfl, hfit, -⟩ := h
    exact absurd hfit (hfind e (by simp))

end Table

end ImageProbe
