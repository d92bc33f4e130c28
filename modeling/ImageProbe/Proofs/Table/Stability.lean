import ImageProbe.Proofs.Table.Order

namespace ImageProbe

namespace Table

/-- The place of a new entry, found by halving: the first one between two places that holds an
entry with fewer exact bytes. -/
def place (t : Table) (e : Entry) (low high : Nat) : Nat :=
  if low < high then
    let middle := (low + high) / 2
    if t[middle]?.any (e.exactness ≤ ·.exactness) then place t e (middle + 1) high
    else place t e low middle
  else low
termination_by high - low

def put (t : Table) (e : Entry) : Table :=
  t.take (t.place e 0 t.length) ++ e :: t.drop (t.place e 0 t.length)

def ranked (n : Nat) (es : List Entry) : List Entry := es.filter (·.exactness = n)

theorem ranked_append (n : Nat) (es es' : List Entry) :
    ranked n (es ++ es') = ranked n es ++ ranked n es' := List.filter_append ..

theorem mem_ranked (n : Nat) (es : List Entry) (e : Entry) :
    e ∈ ranked n es ↔ e ∈ es ∧ e.exactness = n := by
  simp [ranked]

theorem mem_ranked_self (e : Entry) (t : Table) : e ∈ ranked e.exactness (e :: t) :=
  (mem_ranked _ _ _).2 ⟨List.mem_cons_self, rfl⟩

theorem register_append {t t' : Table} {e : Entry} (ht : ∀ f ∈ t, e.exactness ≤ f.exactness)
    (ht' : ∀ f ∈ t', f.exactness < e.exactness) : register (t ++ t') e = t ++ e :: t' := by
  induction t with
  | nil =>
    cases t' with
    | nil => rfl
    | cons f t' =>
      have hf := ht' f (by simp)
      simp only [List.nil_append, register, if_neg (Nat.not_le.2 hf)]
  | cons f t ih =>
    have hf := ht f (by simp)
    simp only [List.cons_append, register, if_pos hf]
    rw [ih fun g hg => ht g (by simp [hg])]

theorem Ordered.split {t : Table} (ht : t.Ordered) (n : Nat) :
    ∃ before after, t = before ++ after ∧ (∀ f ∈ before, n ≤ f.exactness) ∧
      ∀ f ∈ after, f.exactness < n := by
  induction t with
  | nil => exact ⟨[], [], rfl, nofun, nofun⟩
  | cons f t ih =>
    obtain ⟨hf, ht⟩ := List.pairwise_cons.1 ht
    by_cases hn : n ≤ f.exactness
    · obtain ⟨before, after, rfl, hbefore, hafter⟩ := ih ht
      refine ⟨f :: before, after, rfl, ?_, hafter⟩
      intro g hg
      rcases List.mem_cons.1 hg with rfl | hg
      · exact hn
      · exact hbefore g hg
    · refine ⟨[], f :: t, rfl, nofun, ?_⟩
      intro g hg
      rcases List.mem_cons.1 hg with rfl | hg
      · omega
      · have hle := hf g hg
        omega

theorem place_eq {t t' : Table} {e : Entry} (ht : ∀ f ∈ t, e.exactness ≤ f.exactness)
    (ht' : ∀ f ∈ t', f.exactness < e.exactness) {low high : Nat} (hlow : low ≤ t.length)
    (hhigh : t.length ≤ high) (hlen : high ≤ (t ++ t').length) :
    place (t ++ t') e low high = t.length := by
  fun_induction place (t ++ t') e low high with
  | case1 low high hlt middle hany ih =>
    apply ih _ hhigh hlen
    by_contra hover
    have hmiddle : t.length ≤ middle := by omega
    rw [List.getElem?_append_right hmiddle, Option.any_eq_true] at hany
    obtain ⟨f, hf, hle⟩ := hany
    have hfewer := ht' f (List.mem_of_getElem? hf)
    have hmore := of_decide_eq_true hle
    omega
  | case2 low high hlt middle hany ih =>
    have hmiddle : middle < high := by omega
    apply ih hlow _ (by omega)
    by_contra hunder
    have hinside : middle < t.length := by omega
    apply hany
    rw [List.getElem?_append_left hinside, List.getElem?_eq_getElem hinside, Option.any_some]
    exact decide_eq_true (ht _ (List.getElem_mem hinside))
  | case3 low high hge => omega

theorem put_eq_register {t : Table} (ht : t.Ordered) (e : Entry) : t.put e = t.register e := by
  obtain ⟨before, after, rfl, hbefore, hafter⟩ := ht.split e.exactness
  have hlen : before.length ≤ (before ++ after).length := by simp
  rw [put, place_eq hbefore hafter (Nat.zero_le _) hlen (Nat.le_refl _), List.take_left,
    List.drop_left, register_append hbefore hafter]

theorem perm_register (t : Table) (e : Entry) : (t.register e).Perm (e :: t) := by
  induction t with
  | nil => exact .refl _
  | cons f t ih =>
    unfold register
    split
    · exact (ih.cons f).trans (.swap e f t)
    · exact .refl _

theorem sublist_register (t : Table) (e : Entry) : t.Sublist (t.register e) := by
  induction t with
  | nil => exact List.nil_sublist _
  | cons f t ih =>
    unfold register
    split
    · exact ih.cons_cons f
    · exact List.sublist_cons_self e (f :: t)

theorem ranked_register {t : Table} (ht : t.Ordered) (e : Entry) (n : Nat) :
    ranked n (t.register e) = ranked n (t ++ [e]) := by
  obtain ⟨before, after, rfl, hbefore, hafter⟩ := ht.split e.exactness
  rw [register_append hbefore hafter]
  by_cases hn : e.exactness = n
  · have hnone : ranked n after = [] := by
      apply List.filter_eq_nil_iff.2
      intro f hf
      have hfewer := hafter f hf
      simp only [decide_eq_true_eq]
      omega
    simp only [ranked_append, List.append_assoc, hnone, List.nil_append]
    rw [← List.singleton_append, ranked_append, hnone, List.append_nil]
  · have hother : ranked n [e] = [] := by simp [ranked, hn]
    rw [← List.singleton_append]
    simp only [ranked_append, hother, List.append_nil, List.nil_append]

theorem ranked_registered (es : List Entry) (n : Nat) :
    ranked n (es.foldl register empty) = ranked n es := by
  induction es using List.reverseRecOn with
  | nil => rfl
  | append_singleton es e ih =>
    rw [List.foldl_append, List.foldl_cons, List.foldl_nil, ranked_register (ordered_registered es),
      ranked_append, ranked_append, ih]

theorem perm_registered (es : List Entry) : (es.foldl register empty).Perm es := by
  induction es using List.reverseRecOn with
  | nil => exact .refl _
  | append_singleton es e ih =>
    rw [List.foldl_append, List.foldl_cons, List.foldl_nil]
    exact (perm_register _ e).trans ((ih.cons e).trans (List.perm_append_singleton e es).symm)

theorem sublist_registered (t : Table) (es : List Entry) : t.Sublist (es.foldl register t) := by
  induction es generalizing t with
  | nil => exact List.Sublist.refl t
  | cons e es ih => exact (sublist_register t e).trans (ih _)

theorem foldl_put (es : List Entry) : es.foldl put empty = es.foldl register empty := by
  induction es using List.reverseRecOn with
  | nil => rfl
  | append_singleton es e ih =>
    simp only [List.foldl_append, List.foldl_cons, List.foldl_nil]
    rw [ih, put_eq_register (ordered_registered es)]

theorem Ordered.head_le {e f : Entry} {t t' : Table} (ht' : Ordered (f :: t'))
    (h : ∀ n, ranked n (e :: t) = ranked n (f :: t')) : e.exactness ≤ f.exactness := by
  have he := mem_ranked_self e t
  rw [h] at he
  rcases List.mem_cons.1 ((mem_ranked _ _ _).1 he).1 with rfl | hmem
  · exact Nat.le_refl _
  · exact (List.pairwise_cons.1 ht').1 e hmem

theorem Ordered.eq_of_ranked {t t' : Table} (ht : t.Ordered) (ht' : t'.Ordered)
    (h : ∀ n, ranked n t = ranked n t') : t = t' := by
  induction t generalizing t' with
  | nil =>
    cases t' with
    | nil => rfl
    | cons f t' =>
      have hf := mem_ranked_self f t'
      rw [← h] at hf
      exact nomatch hf
  | cons e t ih =>
    cases t' with
    | nil =>
      have he := mem_ranked_self e t
      rw [h] at he
      exact nomatch he
    | cons f t' =>
      have hef : e.exactness = f.exactness :=
        Nat.le_antisymm (ht'.head_le h) (ht.head_le fun n => (h n).symm)
      have hsame := h e.exactness
      simp only [ranked, List.filter_cons, hef, decide_true, if_true] at hsame
      obtain ⟨rfl, -⟩ := List.cons.inj hsame
      have htail (n : Nat) : ranked n t = ranked n t' := by
        have hn := h n
        rw [← List.singleton_append, ← List.singleton_append (l := t')] at hn
        simp only [ranked_append] at hn
        exact List.append_cancel_left hn
      rw [ih (List.pairwise_cons.1 ht).2 (List.pairwise_cons.1 ht').2 htail]

def precedes (e f : Entry) : Bool := f.exactness ≤ e.exactness

theorem precedes_trans (e f g : Entry) (hef : precedes e f = true) (hfg : precedes f g = true) :
    precedes e g = true := by
  simp only [precedes, decide_eq_true_eq] at *
  omega

theorem precedes_total (e f : Entry) : (precedes e f || precedes f e) = true := by
  simp only [precedes, Bool.or_eq_true, decide_eq_true_eq]
  omega

theorem ordered_mergeSort (es : List Entry) : Ordered (es.mergeSort precedes) :=
  (List.pairwise_mergeSort precedes_trans precedes_total es).imp of_decide_eq_true

theorem ranked_mergeSort (es : List Entry) (n : Nat) :
    ranked n (es.mergeSort precedes) = ranked n es := by
  have hsub : (ranked n es).Sublist (es.mergeSort precedes) := by
    apply List.sublist_mergeSort precedes_trans precedes_total
    · apply List.pairwise_of_forall_mem_list
      intro e he f hf
      have he' := ((mem_ranked n es e).1 he).2
      have hf' := ((mem_ranked n es f).1 hf).2
      simp only [precedes, decide_eq_true_eq]
      omega
    · exact List.filter_sublist
  have hranked : (ranked n es).Sublist (ranked n (es.mergeSort precedes)) := by
    have hfilter := hsub.filter (·.exactness = n)
    simpa only [ranked, List.filter_filter, Bool.and_self] using hfilter
  have hlen : (ranked n (es.mergeSort precedes)).length = (ranked n es).length :=
    ((List.mergeSort_perm es precedes).filter _).length_eq
  exact (hranked.eq_of_length hlen.symm).symm

/-- The entries registered on an empty table stand in it as a stable sort by their exact bytes puts
them, each of them as often as it was registered. It is the table that halving for the place of each
one builds, and a later one has all of it in the same order. The order of registration counts among
the entries of one rank only. -/
theorem registered_stable (es more es' : List Entry) :
    es.foldl register empty = es.mergeSort precedes ∧
      (es.foldl register empty).Perm es ∧
      es.foldl put empty = es.foldl register empty ∧
      (es.foldl register empty).Sublist ((es ++ more).foldl register empty) ∧
      (es.foldl register empty = es'.foldl register empty ↔ ∀ n, ranked n es = ranked n es') := by
  refine ⟨?_, perm_registered es, foldl_put es, ?_, ?_⟩
  · apply (ordered_registered es).eq_of_ranked (ordered_mergeSort es)
    intro n
    rw [ranked_registered, ranked_mergeSort]
  · rw [List.foldl_append]
    exact sublist_registered _ more
  · constructor
    · intro h n
      rw [← ranked_registered es, ← ranked_registered es', h]
    · intro h
      apply (ordered_registered es).eq_of_ranked (ordered_registered es')
      intro n
      rw [ranked_registered, ranked_registered, h]

end Table

end ImageProbe
