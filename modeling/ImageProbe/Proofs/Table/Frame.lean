import ImageProbe.Proofs.Table.Routing

namespace ImageProbe

namespace Table

open ByteReader

/-- The new entry fits, with more exact bytes than any that is there and fits. -/
def Overtakes (e : Entry) (es : List Entry) (bs : Bytes) : Prop :=
  e.Fits bs ∧ ∀ f ∈ es, f.Fits bs → f.exactness < e.exactness

instance (e : Entry) (es : List Entry) (bs : Bytes) : Decidable (Overtakes e es bs) :=
  inferInstanceAs (Decidable (_ ∧ _))

theorem overtakes_registered (e : Entry) (es : List Entry) (bs : Bytes) :
    Overtakes e (es.foldl register empty) bs ↔ Overtakes e es bs := by
  simp only [Overtakes, mem_registered]

theorem Ordered.le_of_find? {t : Table} (ht : t.Ordered) {p : Entry → Bool} {f g : Entry}
    (hf : t.find? p = some f) (hg : g ∈ t) (hp : p g = true) : g.exactness ≤ f.exactness := by
  obtain ⟨-, before, after, rfl, hbefore⟩ := List.find?_eq_some_iff_append.1 hf
  rcases List.mem_append.1 hg with hg | hg
  · have hnot := hbefore g hg
    rw [hp] at hnot
    exact nomatch hnot
  · rcases List.mem_cons.1 hg with rfl | hg
    · exact Nat.le_refl _
    · exact (List.pairwise_cons.1 (List.pairwise_append.1 ht).2.1).1 g hg

theorem find?_of_overtakes {t : Table} (ht : t.Ordered) {e : Entry} {bs : Bytes}
    (he : Overtakes e t bs) :
    ((t.register e).find? fun f => decide (f.Fits bs)) = some e := by
  rw [find?_register ht, if_pos (decide_eq_true he.1)]
  cases hfind : t.find? fun f => decide (f.Fits bs) with
  | none => rfl
  | some f =>
    have hfit : f.Fits bs := by simpa using List.find?_some hfind
    have hlt := he.2 f (List.mem_of_find?_eq_some hfind) hfit
    exact if_neg (Nat.not_le.2 hlt)

theorem find?_of_not_overtakes {t : Table} (ht : t.Ordered) {e : Entry} {bs : Bytes}
    (he : ¬ Overtakes e t bs) :
    ((t.register e).find? fun f => decide (f.Fits bs)) = t.find? fun f => decide (f.Fits bs) := by
  rw [find?_register ht]
  by_cases hfit : e.Fits bs
  · rw [if_pos (decide_eq_true hfit)]
    obtain ⟨g, hg, hgfit, hle⟩ : ∃ g ∈ t, g.Fits bs ∧ e.exactness ≤ g.exactness := by
      by_contra hnone
      refine he ⟨hfit, fun g hg hgfit => ?_⟩
      by_contra hlt
      exact hnone ⟨g, hg, hgfit, Nat.not_lt.1 hlt⟩
    cases hfind : t.find? fun f => decide (f.Fits bs) with
    | none => exact absurd hgfit (by simpa using List.find?_eq_none.1 hfind g hg)
    | some f =>
      have hmost := ht.le_of_find? hfind hg (decide_eq_true hgfit)
      exact if_pos (Nat.le_trans hle hmost)
  · rw [if_neg (by simpa using hfit)]

theorem longest_tried_register {t : Table} (ht : t.Ordered) {e : Entry} {bs : Bytes}
    (he : ¬ Overtakes e t bs) :
    longest (tried bs t) ≤ longest (tried bs (t.register e)) ∧
      longest (tried bs (t.register e)) ≤ max e.pattern.length (longest (tried bs t)) := by
  induction t with
  | nil =>
    have hone : tried bs (register [] e) = [e] := by simp [register, tried]
    rw [hone]
    exact ⟨Nat.zero_le _, Nat.le_refl _⟩
  | cons f t ih =>
    obtain ⟨hf, ht⟩ := List.pairwise_cons.1 ht
    unfold register
    split
    · rename_i hle
      rw [tried, tried]
      split
      · exact ⟨Nat.le_refl _, Nat.le_max_right _ _⟩
      · rename_i hfit
        obtain ⟨hlow, hhigh⟩ := ih ht fun hover => he ⟨hover.1, fun g hg hgfit => by
          rcases List.mem_cons.1 hg with rfl | hg
          · exact absurd hgfit hfit
          · exact hover.2 g hg hgfit⟩
        simp only [longest, List.foldr_cons] at *
        omega
    · rename_i hlt
      have hfit : ¬ e.Fits bs := by
        intro hfit
        refine he ⟨hfit, fun g hg _ => ?_⟩
        rcases List.mem_cons.1 hg with rfl | hg
        · omega
        · have hle := hf g hg
          omega
      have hfirst : tried bs (e :: f :: t) = e :: tried bs (f :: t) := by rw [tried, if_neg hfit]
      rw [hfirst]
      exact ⟨Nat.le_max_right _ _, Nat.le_refl _⟩

variable {ρ : Type} [ByteReader ρ] {table : Table} {e : Entry} {limits : Limits} {stop : Stop} {r : ρ}

theorem probe_of_not_overtakes (htable : table.Ordered) (plain : (tape r).ending = none)
    (he : ¬ Overtakes e table (tape r).bytes) (checks : Nat) (log : List Note) :
    let before := table.probe limits stop ⟨{ inner := r }, checks, log⟩
    let after := (table.register e).probe limits stop ⟨{ inner := r }, checks, log⟩
    after.1 = before.1 ∧ after.2.checks = before.2.checks ∧
      taken r before.2.reader.inner ≤ taken r after.2.reader.inner ∧
      taken r after.2.reader.inner ≤
        max (taken r before.2.reader.inner) (min (tape r).bytes.length e.pattern.length) := by
  intro before after
  have hsame := find?_of_not_overtakes htable he
  cases hfind : table.find? fun f => decide (f.Fits (tape r).bytes) with
  | some f =>
    rw [hfind] at hsame
    have htried := longest_tried_register htable he
    obtain ⟨h1, h2, h3⟩ := probe_of_found table limits stop r checks log plain hfind
    obtain ⟨h1', h2', h3'⟩ := probe_of_found (table.register e) limits stop r checks log plain hsame
    refine ⟨h1'.trans h1.symm, h2'.trans h2.symm, ?_, ?_⟩
    · rw [h3, h3']
      omega
    · rw [h3, h3']
      omega
  | none =>
    rw [hfind] at hsame
    have hnone : ∀ f ∈ table, ¬ f.Fits (tape r).bytes := by simpa using hfind
    have hnone' : ∀ f ∈ table.register e, ¬ f.Fits (tape r).bytes := by simpa using hsame
    obtain ⟨h1, h2, h3⟩ := probe_of_not_found table limits stop r checks log plain hnone
    obtain ⟨h1', h2', h3'⟩ :=
      probe_of_not_found (table.register e) limits stop r checks log plain hnone'
    rw [longest_register] at h3'
    refine ⟨h1'.trans h1.symm, h2'.trans h2.symm, ?_, ?_⟩
    · rw [h3, h3']
      omega
    · rw [h3, h3']
      omega

/-- One more entry leaves the answers for all streams as they are, those apart that it fits with more
exact bytes than any other: its own decoder answers for them. Where it does not count, no more is
looked at than before, or as much as its pattern is long. -/
theorem probe_register (registered : List Entry) (e : Entry) (limits : Limits) (stop : Stop) (r : ρ)
    (checks : Nat) (log : List Note) (plain : (tape r).ending = none) :
    let bs := (tape r).bytes
    let table := registered.foldl register empty
    let before := table.probe limits stop ⟨{ inner := r }, checks, log⟩
    let after := (table.register e).probe limits stop ⟨{ inner := r }, checks, log⟩
    let direct := e.decoder.decode stop ⟨r, checks, log⟩
    (¬ Overtakes e registered bs → after.1 = before.1 ∧ after.2.checks = before.2.checks ∧
        taken r before.2.reader.inner ≤ taken r after.2.reader.inner ∧
        taken r after.2.reader.inner ≤
          max (taken r before.2.reader.inner) (min bs.length e.pattern.length)) ∧
      (Overtakes e registered bs →
        after.1 = direct.1 ∧ after.2.checks = direct.2.checks) := by
  intro bs table before after direct
  have htable : table.Ordered := ordered_registered registered
  rw [← overtakes_registered e registered bs]
  constructor
  · intro hnot
    exact probe_of_not_overtakes htable plain hnot checks log
  · intro hover
    obtain ⟨h1, h2, -⟩ := probe_of_found (table.register e) limits stop r checks log plain
      (find?_of_overtakes htable hover)
    exact ⟨h1, h2⟩

theorem probe_register_overtaken :
    let entries : List Entry := [⟨ascii "GI??", pdf.decoder⟩, ⟨ascii "GIF???", gif.decoder⟩]
    let equal : Entry := ⟨ascii "???89a", png.decoder⟩
    let finer : Entry := ⟨ascii "GIF8?a", .ofReading (pure ⟨.bmp, 7, 7⟩)⟩
    let r : Source := ⟨⟨ascii "GIF89a" ++ [2, 0, 3, 1], none⟩, fun _ => 1, fun _ => some 1, 0, 0, 0⟩
    let answer (table : Table) := (table.probe {} .never ⟨{ inner := r }, 0, []⟩).1
    let table := entries.foldl register empty
    (tape r).ending = none ∧ answer table = .ok ⟨.gif, 2, 259⟩ ∧
      (¬ Overtakes equal entries (tape r).bytes ∧ answer (table.register equal) = answer table) ∧
      (Overtakes finer entries (tape r).bytes ∧ answer (table.register finer) = .ok ⟨.bmp, 7, 7⟩) := by
  intro entries equal finer r answer table
  have hequal : ¬ Overtakes equal entries (tape r).bytes := by decide +kernel
  have hfiner : Overtakes finer entries (tape r).bytes := by decide +kernel
  refine ⟨rfl, by decide +kernel, ⟨hequal, ?_⟩, hfiner, ?_⟩
  · exact ((probe_register entries equal {} .never r 0 [] rfl).1 hequal).1
  · exact ((probe_register entries finer {} .never r 0 [] rfl).2 hfiner).1

end Table

end ImageProbe
