import ImageProbe.FixedHeader
import ImageProbe.Proofs.LookAhead
import ImageProbe.Proofs.Table.Order

namespace ImageProbe

namespace Table

open ByteReader

variable {ρ : Type} [ByteReader ρ]

/-- The entries that a search of the bytes looks at, the one that it ends with included. -/
def tried (bs : Bytes) : Table → List Entry
  | [] => []
  | e :: t => if e.Fits bs then [e] else e :: tried bs t

def longest (es : List Entry) : Nat := es.foldr (fun e n => max e.pattern.length n) 0

theorem longest_register (t : Table) (e : Entry) :
    longest (register t e) = max e.pattern.length (longest t) := by
  induction t with
  | nil => rfl
  | cons f t ih =>
    unfold register
    split
    · change max f.pattern.length (longest (register t e)) = _
      rw [ih]
      exact Nat.max_left_comm _ _ _
    · rfl

theorem longest_registered (es : List Entry) : longest (es.foldl register empty) = longest es := by
  have h (t : Table) : longest (es.foldl register t) = max (longest t) (longest es) := by
    induction es generalizing t with
    | nil => exact (Nat.max_zero _).symm
    | cons e es ih =>
      rw [List.foldl_cons, ih, longest_register]
      change _ = max (longest t) (max e.pattern.length (longest es))
      rw [Nat.max_comm e.pattern.length, Nat.max_assoc]
  exact (h empty).trans (Nat.zero_max _)

theorem tried_of_none {bs : Bytes} {t : Table} (h : ∀ e ∈ t, ¬ e.Fits bs) : tried bs t = t := by
  induction t with
  | nil => rfl
  | cons e t ih =>
    rw [tried, if_neg (h e (by simp)), ih fun f hf => h f (by simp [hf])]

structure Looked (s : LookAhead ρ) (bs : Bytes) (n : Nat) : Prop where
  tape_eq : tape s = ⟨bs, none⟩
  honest : s.Honest
  length_eq : s.pending.length = min n bs.length

theorem look_plain {s : LookAhead ρ} {bs : Bytes} {m : Nat} (h : Looked s bs m) (n : Nat) :
    (s.look n).1 = .ok (bs.take n) ∧ Looked (s.look n).2 bs (max m n) := by
  obtain ⟨h1, h2, h3, h4⟩ := LookAhead.look_spec h.honest n
  rw [h.tape_eq] at h1 h2 h4
  refine ⟨by simpa [Tape.haul] using h1, h2, h3, ?_⟩
  rw [h4, h.length_eq]
  dsimp only
  omega

theorem search_plain (t : Table) {s : LookAhead ρ} {bs : Bytes} {m : Nat} (h : Looked s bs m) :
    (t.search s).1 = .ok (t.find? fun e => decide (e.Fits bs)) ∧
      Looked (t.search s).2 bs (max m (longest (tried bs t))) := by
  induction t generalizing s m with
  | nil => exact ⟨rfl, by simpa [tried, longest, search] using h⟩
  | cons e t ih =>
    obtain ⟨hl, hs⟩ := look_plain h e.pattern.length
    rw [search]
    rcases hlook : s.look e.pattern.length with ⟨r, s'⟩
    rw [hlook] at hl hs
    subst hl
    dsimp only at hs ⊢
    by_cases he : e.Fits bs
    · rw [if_pos ((e.fits_iff bs).1 he), tried, if_pos he]
      exact ⟨by simp [he], by simpa [longest] using hs⟩
    · rw [if_neg fun ha => he ((e.fits_iff bs).2 ha), tried, if_neg he]
      obtain ⟨h1, h2⟩ := ih hs
      refine ⟨by simpa [he] using h1, ?_⟩
      rwa [Nat.max_assoc] at h2

theorem mem_of_search {t : Table} {s : LookAhead ρ} {e : Entry}
    (h : (t.search s).1 = .ok (some e)) : e ∈ t := by
  induction t generalizing s with
  | nil => cases h
  | cons f t ih =>
    rw [search] at h
    rcases hlook : s.look f.pattern.length with ⟨err | bs, s'⟩ <;> rw [hlook] at h
    · cases h
    · dsimp only at h
      split at h
      · cases h
        exact List.mem_cons_self
      · exact List.mem_cons_of_mem f (ih h)

theorem search_sound (t : Table) {s : LookAhead ρ} (hs : s.Honest) {found : Option Entry}
    (h : (t.search s).1 = .ok found) :
    (found = t.find? fun e => decide (e.Fits (tape s).bytes)) ∧
      tape (t.search s).2 = tape s ∧ (t.search s).2.Honest := by
  induction t generalizing s with
  | nil =>
    cases h
    exact ⟨rfl, rfl, hs⟩
  | cons e t ih =>
    obtain ⟨hlook, htape, hhonest, -⟩ := LookAhead.look_spec hs e.pattern.length
    rw [search] at h ⊢
    rcases hout : s.look e.pattern.length with ⟨r, s'⟩
    rw [hout] at hlook htape hhonest h
    dsimp only at hlook htape hhonest h ⊢
    subst hlook
    cases hfault : ((tape s).haul e.pattern.length).fault with
    | some f => simp [hfault] at h
    | none =>
      rw [hfault] at h
      dsimp only at h ⊢
      by_cases he : e.Fits (tape s).bytes
      · rw [if_pos ((e.fits_iff _).1 he)] at h ⊢
        cases h
        exact ⟨by simp [he], htape, hhonest⟩
      · rw [if_neg fun ha => he ((e.fits_iff _).2 ha)] at h ⊢
        obtain ⟨hfound, hkept, hstill⟩ := ih hhonest h
        rw [htape] at hfound hkept
        exact ⟨by simpa [he] using hfound, hkept, hstill⟩

theorem search_long (t : Table) {s : LookAhead ρ} (hs : s.Honest)
    (hlong : ∀ e ∈ t, e.pattern.length ≤ (tape s).bytes.length) :
    ∃ found, (t.search s).1 = .ok found := by
  induction t generalizing s with
  | nil => exact ⟨none, rfl⟩
  | cons e t ih =>
    obtain ⟨hlook, htape, hhonest, -⟩ := LookAhead.look_spec hs e.pattern.length
    have hfault : ((tape s).haul e.pattern.length).fault = none :=
      if_neg (Nat.not_lt.2 (hlong e List.mem_cons_self))
    rw [hfault] at hlook
    rw [search]
    rcases hout : s.look e.pattern.length with ⟨r, s'⟩
    rw [hout] at hlook htape hhonest
    subst hlook
    dsimp only at htape hhonest ⊢
    split
    · exact ⟨some e, rfl⟩
    · exact ih hhonest (htape ▸ fun f hf => hlong f (List.mem_cons_of_mem e hf))

theorem Looked.taken_eq {s : LookAhead ρ} {r : ρ} {n : Nat} (h : Looked s (tape r).bytes n) :
    taken r s.inner = min n (tape r).bytes.length := by
  have hlen := congrArg (·.bytes.length) h.tape_eq
  simp only [LookAhead.bytes_eq, List.length_append, h.length_eq] at hlen
  rw [taken]
  omega

theorem decode_looked (d : Decoder) (stop : Stop) {s : LookAhead ρ} {r : ρ} {n : Nat}
    (h : Looked s (tape r).bytes n) (hr : (tape r).ending = none) (checks : Nat)
    (log log' : List Note) :
    (d.decode stop ⟨s, checks, log⟩).1 = (d.decode stop ⟨r, checks, log'⟩).1 ∧
      (d.decode stop ⟨s, checks, log⟩).2.checks = (d.decode stop ⟨r, checks, log'⟩).2.checks ∧
      taken r (d.decode stop ⟨s, checks, log⟩).2.reader.inner =
        max (taken r (d.decode stop ⟨r, checks, log'⟩).2.reader) (min (tape r).bytes.length n) := by
  have ht : tape s = tape r := by rw [h.tape_eq, ← hr]
  obtain ⟨h1, h2⟩ := d.decode_core stop (s := ⟨s, checks, log⟩) (t := ⟨r, checks, log'⟩)
    (congrArg (·, checks) ht)
  obtain ⟨htape, hchecks⟩ := Prod.mk.inj h2
  have hinner := d.decode_keeps (LookAhead.read_keeps_inner (tape s.inner).bytes.length) stop
    ⟨s, checks, log⟩ (by simp [LookAhead.bytes_eq])
  have hlen := congrArg (·.bytes.length) ht
  simp only [LookAhead.bytes_eq, List.length_append, h.length_eq] at hlen
  refine ⟨h1, hchecks, ?_⟩
  rw [taken, taken, hinner, htape]
  omega

theorem judge_run (bs : Bytes) (stop : Stop) (s : Session ρ) :
    ((Markup.judge bs).run stop s).1 = Markup.isSvg bs ∧
      ((Markup.judge bs).run stop s).2.reader = s.reader ∧
      ((Markup.judge bs).run stop s).2.checks = s.checks := by
  unfold Markup.judge Markup.isSvg
  cases Markup.svgRoot bs <;> exact ⟨rfl, rfl, rfl⟩

section Probe

variable (table : Table) (limits : Limits) (stop : Stop) (r : ρ) (checks : Nat) (log : List Note)

theorem looked_unread (hr : (tape r).ending = none) :
    Looked ({ inner := r } : LookAhead ρ) (tape r).bytes 0 :=
  ⟨by rw [LookAhead.tape_unread, ← hr], LookAhead.honest_unread r, by simp⟩

theorem probe_of_found (hr : (tape r).ending = none) {e : Entry}
    (he : (table.find? fun e => decide (e.Fits (tape r).bytes)) = some e) :
    let out := table.probe limits stop ⟨{ inner := r }, checks, log⟩
    let direct := e.decoder.decode stop ⟨r, checks, log⟩
    out.1 = direct.1 ∧ out.2.checks = direct.2.checks ∧
      taken r out.2.reader.inner = max (taken r direct.2.reader)
        (min (tape r).bytes.length (longest (tried (tape r).bytes table))) := by
  obtain ⟨hsearch, hseen⟩ := search_plain table (looked_unread r hr)
  rw [Nat.zero_max] at hseen
  intro out direct
  rcases hs : table.search { inner := r } with ⟨found, view⟩
  rw [hs] at hsearch hseen
  dsimp only at hsearch hseen
  rw [he] at hsearch
  subst hsearch
  have hout : out = e.decoder.decode stop
      ⟨view, checks, .debug ("matched " ++ e.describe) :: log⟩ := by
    simp only [out, probe, hs]
  rw [hout]
  exact decode_looked e.decoder stop hseen hr checks _ log

theorem probe_of_not_found (hr : (tape r).ending = none)
    (h : ∀ e ∈ table, ¬ e.Fits (tape r).bytes) :
    let out := table.probe limits stop ⟨{ inner := r }, checks, log⟩
    out.1 = (if Markup.isSvg ((tape r).bytes.take limits.svgWindow) then .ok Markup.svgInfo
        else .error .unknownFormat) ∧
      out.2.checks = checks ∧
      taken r out.2.reader.inner =
        min (tape r).bytes.length (max (longest table) limits.svgWindow) := by
  obtain ⟨hsearch, hseen⟩ := search_plain table (looked_unread r hr)
  rw [Nat.zero_max, tried_of_none h] at hseen
  have hnone : (table.find? fun e => decide (e.Fits (tape r).bytes)) = none :=
    List.find?_eq_none.2 fun e he => by simpa using h e he
  intro out
  rcases hs : table.search { inner := r } with ⟨found, view⟩
  rw [hs] at hsearch hseen
  dsimp only at hsearch hseen
  rw [hnone] at hsearch
  subst hsearch
  obtain ⟨hwindow, hview⟩ := look_plain hseen limits.svgWindow
  rcases hl : view.look limits.svgWindow with ⟨window, view'⟩
  rw [hl] at hwindow hview
  dsimp only at hwindow hview
  subst hwindow
  rcases hj : (Markup.judge ((tape r).bytes.take limits.svgWindow)).run stop
    (⟨view', checks, log⟩ : Session (LookAhead ρ)) with ⟨verdict, s⟩
  obtain ⟨h1, h2, h3⟩ := judge_run ((tape r).bytes.take limits.svgWindow) stop
    (⟨view', checks, log⟩ : Session (LookAhead ρ))
  rw [hj] at h1 h2 h3
  dsimp only at h1 h2 h3
  subst h1
  have hout : out = (if Markup.isSvg ((tape r).bytes.take limits.svgWindow)
      then .ok Markup.svgInfo else .error .unknownFormat, s) := by
    simp only [out, probe, hs, hl, hj]
  rw [hout]
  exact ⟨rfl, h3, by rw [h2, hview.taken_eq, Nat.min_comm]⟩

theorem probe_of_search_some (log' : List Note) {e : Entry}
    (h : (table.search ({ inner := r } : LookAhead ρ)).1 = .ok (some e)) :
    (table.probe limits stop ⟨{ inner := r }, checks, log⟩).1 =
      (e.decoder.decode stop ⟨r, checks, log'⟩).1 := by
  obtain ⟨-, htape, -⟩ := search_sound table (LookAhead.honest_unread r) h
  rcases hs : table.search ({ inner := r } : LookAhead ρ) with ⟨found, view⟩
  rw [hs] at h htape
  dsimp only at h htape
  subst h
  rw [probe, hs]
  exact (e.decoder.decode_core stop (s := ⟨view, checks, _⟩) (t := ⟨r, checks, log'⟩)
    (congrArg (·, checks) htape)).1

theorem probe_of_search_none
    (h : (table.search ({ inner := r } : LookAhead ρ)).1 = .ok none) :
    (table.probe limits stop ⟨{ inner := r }, checks, log⟩).1 =
      match ((tape r).haul limits.svgWindow).fault with
      | some f => .error (.ofFault f)
      | none => if Markup.isSvg ((tape r).bytes.take limits.svgWindow) then .ok Markup.svgInfo
        else .error .unknownFormat := by
  obtain ⟨-, htape, hhonest⟩ := search_sound table (LookAhead.honest_unread r) h
  rcases hs : table.search ({ inner := r } : LookAhead ρ) with ⟨found, view⟩
  rw [hs] at h htape hhonest
  dsimp only at h htape hhonest
  subst h
  obtain ⟨hlook, -⟩ := LookAhead.look_spec hhonest limits.svgWindow
  rw [htape, LookAhead.tape_unread] at hlook
  rw [probe, hs]
  dsimp only
  rcases hl : view.look limits.svgWindow with ⟨window, view'⟩
  rw [hl] at hlook
  dsimp only at hlook
  subst hlook
  cases ((tape r).haul limits.svgWindow).fault with
  | some f => rfl
  | none =>
    dsimp only
    rw [(judge_run _ stop _).1]

theorem probe_long_of_found (log' : List Note)
    (hlong : ∀ e ∈ table, e.pattern.length ≤ (tape r).bytes.length) {e : Entry}
    (he : (table.find? fun e => decide (e.Fits (tape r).bytes)) = some e) :
    (table.probe limits stop ⟨{ inner := r }, checks, log⟩).1 =
      (e.decoder.decode stop ⟨r, checks, log'⟩).1 := by
  obtain ⟨found, hsearch⟩ := search_long table (LookAhead.honest_unread r) hlong
  obtain rfl : found = some e := (search_sound table (LookAhead.honest_unread r) hsearch).1.trans he
  exact probe_of_search_some table limits stop r checks log log' hsearch

theorem probe_long_of_not_found
    (hlong : ∀ e ∈ table, e.pattern.length ≤ (tape r).bytes.length)
    (h : ∀ e ∈ table, ¬ e.Fits (tape r).bytes) :
    (table.probe limits stop ⟨{ inner := r }, checks, log⟩).1 =
      match ((tape r).haul limits.svgWindow).fault with
      | some f => .error (.ofFault f)
      | none => if Markup.isSvg ((tape r).bytes.take limits.svgWindow) then .ok Markup.svgInfo
        else .error .unknownFormat := by
  have hnone : (table.find? fun e => decide (e.Fits (tape r).bytes)) = none :=
    List.find?_eq_none.2 fun e he => by simpa using h e he
  obtain ⟨found, hsearch⟩ := search_long table (LookAhead.honest_unread r) hlong
  obtain rfl : found = none := (search_sound table (LookAhead.honest_unread r) hsearch).1.trans hnone
  exact probe_of_search_none table limits stop r checks log hsearch

end Probe

/-- A probe with the entries registered on an empty table. On a plain stream the answer is that of
the decoder to which the bytes are routed, as if it had been given the stream untouched; if there is
none, the bytes in the window tell whether this is an SVG. -/
theorem probe_registered (registered : List Entry) (limits : Limits) (stop : Stop) (r : ρ)
    (checks : Nat) (log : List Note) (plain : (tape r).ending = none) :
    let bs := (tape r).bytes
    let table := registered.foldl register empty
    let out := table.probe limits stop ⟨{ inner := r }, checks, log⟩
    ((∃ e ∈ registered, e.Fits bs) → ∃! e, Routed registered bs e) ∧
      (∀ e, Routed registered bs e →
        let direct := e.decoder.decode stop ⟨r, checks, log⟩
        out.1 = direct.1 ∧ out.2.checks = direct.2.checks ∧
          taken r out.2.reader.inner =
            max (taken r direct.2.reader) (min bs.length (longest (tried bs table)))) ∧
      ((∀ e ∈ registered, ¬ e.Fits bs) →
        out.1 = (if Markup.isSvg (bs.take limits.svgWindow) then .ok Markup.svgInfo
          else .error .unknownFormat) ∧
          out.2.checks = checks ∧
          taken r out.2.reader.inner =
            min bs.length (max (longest registered) limits.svgWindow)) := by
  intro bs table out
  have hfind := find?_registered registered bs
  refine ⟨fun ⟨e, he, hfit⟩ => ?_, fun e he => ?_, fun hnone => ?_⟩
  · cases hf : table.find? fun e => decide (e.Fits bs) with
    | some f =>
      rw [hf] at hfind
      exact ⟨f, hfind, fun g hg => hg.unique hfind⟩
    | none =>
      rw [hf] at hfind
      exact absurd hfit (hfind e he)
  · cases hf : table.find? fun e => decide (e.Fits bs) with
    | some f =>
      rw [hf] at hfind
      rw [he.unique hfind]
      exact probe_of_found table limits stop r checks log plain hf
    | none =>
      rw [hf] at hfind
      obtain ⟨before, after, heq, hfit, -⟩ := he
      exact absurd hfit (hfind e (by simp [heq]))
  · have h := probe_of_not_found table limits stop r checks log plain
      fun e he => hnone e ((mem_registered registered e).1 he)
    rwa [longest_registered] at h

theorem probe_registered_trickle :
    let entries : List Entry := [⟨ascii "GI??", pdf.decoder⟩, ⟨ascii "GIF???", gif.decoder⟩,
      ⟨ascii "GIF", png.decoder⟩, ⟨ascii "GIF??????????", pdf.decoder⟩]
    let r : Source := ⟨⟨ascii "GIF89a" ++ [2, 0, 3, 1], none⟩, fun _ => 1, fun _ => some 1, 0, 0, 0⟩
    let out := (entries.foldl register empty).probe {} .never ⟨{ inner := r }, 0, []⟩
    (tape r).ending = none ∧ out.1 = .ok ⟨.gif, 2, 259⟩ ∧ taken r out.2.reader.inner = 10 := by
  intro entries r out
  have h := (probe_registered entries {} .never r 0 [] rfl).2.1 ⟨ascii "GIF???", gif.decoder⟩
    ⟨[⟨ascii "GI??", pdf.decoder⟩], [⟨ascii "GIF", png.decoder⟩,
      ⟨ascii "GIF??????????", pdf.decoder⟩], rfl, by decide +kernel, by decide +kernel, by decide +kernel⟩
  refine ⟨rfl, h.1.trans (by decide +kernel), h.2.2.trans (by decide +kernel)⟩

end Table

end ImageProbe
