import ImageProbe.Markup.Item
import Mathlib.Data.List.Infix

namespace ImageProbe

namespace Markup

variable {bs rest body : Bytes}

theorem before_append (body : Bytes) (c : UInt8) (rest : Bytes) :
    before rest (body ++ c :: rest) = body := by
  simp [before]

section Mark

variable {init text : Bytes} {c : UInt8}

theorem infix_of_infix_append (hc : c ∉ init) (h : init ++ [c] <:+: text ++ init) :
    init ++ [c] <:+: text := by
  obtain ⟨front, tail, heq⟩ := h
  rcases List.append_eq_append_iff.1 heq with ⟨mid, htext, -⟩ | ⟨mid, hfront, hinit⟩
  · exact ⟨front, mid, htext.symm⟩
  · rcases List.eq_nil_or_concat mid with rfl | ⟨mid, d, rfl⟩
    · exact ⟨front, [], by simpa using hfront⟩
    · rw [List.concat_eq_append] at hfront hinit
      rw [← List.append_assoc, ← List.append_assoc] at hfront
      obtain rfl : c = d := by simpa using (List.append_inj' hfront rfl).2
      exact absurd (by simp [hinit]) hc

theorem after_complete (hc : c ∉ init) (h : ¬ init ++ [c] <:+: text) :
    after (init ++ [c]) (text ++ (init ++ [c] ++ rest)) = some rest := by
  induction text with
  | nil =>
    obtain ⟨b, tail, hmark⟩ : ∃ b tail, init ++ [c] = b :: tail :=
      List.exists_cons_of_ne_nil (by simp)
    have hstart : (b :: tail).isPrefixOf (b :: (tail ++ rest)) = true :=
      List.isPrefixOf_iff_prefix.2 (List.prefix_append (b :: tail) rest)
    rw [hmark, List.nil_append, List.cons_append, after, if_pos hstart]
    simp
  | cons b text ih =>
    obtain ⟨hstart, hinfix⟩ := not_or.1 fun hor => h (List.infix_cons_iff.2 hor)
    have hnot : ¬ (init ++ [c]).isPrefixOf (b :: (text ++ (init ++ [c] ++ rest))) = true := by
      intro hhere
      -- The mark fits into the text and what stands before its own last byte there.
      have hshort : init ++ [c] <+: (b :: text) ++ init := by
        apply List.prefix_of_prefix_length_le (List.isPrefixOf_iff_prefix.1 hhere)
          ⟨c :: rest, by simp⟩
        simp only [List.length_append, List.length_cons, List.length_nil]
        omega
      exact h (infix_of_infix_append hc hshort.isInfix)
    rw [List.cons_append, after, if_neg hnot]
    exact ih hinfix

theorem after_sound {mark : Bytes} (hmark : mark ≠ []) (h : after mark bs = some rest) :
    ∃ text, ¬ mark <:+: text ∧ bs = text ++ (mark ++ rest) := by
  induction bs with
  | nil => simp [after] at h
  | cons b bs ih =>
    rw [after] at h
    split at h
    · next hstart =>
      obtain ⟨tail, htail⟩ := List.isPrefixOf_iff_prefix.1 hstart
      refine ⟨[], by simpa using hmark, ?_⟩
      rw [← htail, List.drop_left, Option.some.injEq] at h
      rw [← htail, h, List.nil_append]
    · next hstart =>
      obtain ⟨text, hinfix, rfl⟩ := ih h
      refine ⟨b :: text, ?_, rfl⟩
      rw [List.infix_cons_iff, not_or]
      refine ⟨fun hhere => hstart ?_, hinfix⟩
      exact List.isPrefixOf_iff_prefix.2 (hhere.trans ⟨mark ++ rest, rfl⟩)

theorem after_iff (hc : c ∉ init) :
    after (init ++ [c]) bs = some rest ↔
      ∃ text, ¬ init ++ [c] <:+: text ∧ bs = text ++ (init ++ [c] ++ rest) := by
  constructor
  · exact after_sound (by simp)
  · rintro ⟨text, htext, rfl⟩
    exact after_complete hc htext

end Mark

/-- Each `<` has its `>`, and there are no others. -/
inductive Nested : Bytes → Prop
  | nil : Nested []
  | plain {b : UInt8} {bs : Bytes} (hopen : b ≠ lessThan) (hclose : b ≠ greaterThan)
    (rest : Nested bs) : Nested (b :: bs)
  | group {inner bs : Bytes} (hinner : Nested inner) (rest : Nested bs) :
    Nested (lessThan :: (inner ++ greaterThan :: bs))

theorem nested_cons_iff {b : UInt8} (hopen : b ≠ lessThan) (hclose : b ≠ greaterThan) :
    Nested (b :: bs) ↔ Nested bs := by
  constructor
  · generalize htext : b :: bs = text
    intro h
    cases h with
    | nil => cases htext
    | plain _ _ rest => exact (List.cons.inj htext).2 ▸ rest
    | group => exact absurd (List.cons.inj htext).1 hopen
  · exact .plain hopen hclose

theorem nested_append_iff {front : Bytes} (h : ∀ b ∈ front, b ≠ lessThan ∧ b ≠ greaterThan) :
    Nested (front ++ bs) ↔ Nested bs := by
  induction front with
  | nil => rfl
  | cons b front ih =>
    obtain ⟨⟨hopen, hclose⟩, hfront⟩ := List.forall_mem_cons.1 h
    exact (nested_cons_iff hopen hclose).trans (ih hfront)

theorem afterDoctype_open (depth : Nat) (bs : Bytes) :
    afterDoctype depth (lessThan :: bs) = afterDoctype (depth + 1) bs := by
  rw [afterDoctype.eq_def]
  exact if_pos rfl

theorem afterDoctype_last (bs : Bytes) : afterDoctype 0 (greaterThan :: bs) = some bs := by
  rw [afterDoctype.eq_def]
  exact (if_neg (by decide)).trans (if_pos rfl)

theorem afterDoctype_close (depth : Nat) (bs : Bytes) :
    afterDoctype (depth + 1) (greaterThan :: bs) = afterDoctype depth bs := by
  rw [afterDoctype.eq_def]
  exact (if_neg (by decide)).trans (if_pos rfl)

theorem afterDoctype_plain {b : UInt8} (hopen : b ≠ lessThan) (hclose : b ≠ greaterThan)
    (depth : Nat) (bs : Bytes) : afterDoctype depth (b :: bs) = afterDoctype depth bs := by
  rw [afterDoctype.eq_def]
  exact (if_neg hopen).trans (if_neg hclose)

theorem Nested.afterDoctype_append (h : Nested body) (depth : Nat) (bs : Bytes) :
    afterDoctype depth (body ++ bs) = afterDoctype depth bs := by
  induction h generalizing depth bs with
  | nil => rfl
  | plain hopen hclose _ ih => rw [List.cons_append, afterDoctype_plain hopen hclose, ih]
  | group _ _ ihinner ihrest =>
    rw [List.cons_append, afterDoctype_open, List.append_assoc, ihinner, List.cons_append,
      afterDoctype_close, ihrest]

theorem afterDoctype_split {depth : Nat} (h : afterDoctype depth bs = some rest) :
    ∃ body tail, Nested body ∧ bs = body ++ greaterThan :: tail ∧
      afterDoctype depth (greaterThan :: tail) = some rest := by
  induction hn : bs.length using Nat.strongRecOn generalizing bs depth with
  | ind n ih =>
    cases bs with
    | nil => simp [afterDoctype] at h
    | cons b bs =>
      rw [List.length_cons] at hn
      by_cases hopen : b = lessThan
      · subst hopen
        rw [afterDoctype_open] at h
        obtain ⟨inner, tail, hinner, rfl, hinside⟩ := ih bs.length (by omega) h rfl
        rw [afterDoctype_close] at hinside
        have hlen : tail.length < n := by
          simp only [List.length_append, List.length_cons] at hn
          omega
        obtain ⟨body, tail, hbody, rfl, hbehind⟩ := ih tail.length hlen hinside rfl
        exact ⟨_, tail, .group hinner hbody, by simp, hbehind⟩
      · by_cases hclose : b = greaterThan
        · subst hclose
          exact ⟨[], bs, .nil, rfl, h⟩
        · rw [afterDoctype_plain hopen hclose] at h
          obtain ⟨body, tail, hbody, rfl, hbehind⟩ := ih bs.length (by omega) h rfl
          exact ⟨b :: body, tail, .plain hopen hclose hbody, rfl, hbehind⟩

theorem afterDoctype_iff :
    afterDoctype 0 bs = some rest ↔ ∃ body, Nested body ∧ bs = body ++ greaterThan :: rest := by
  constructor
  · intro h
    obtain ⟨body, tail, hbody, rfl, htail⟩ := afterDoctype_split h
    rw [afterDoctype_last, Option.some.injEq] at htail
    exact ⟨body, hbody, by rw [htail]⟩
  · rintro ⟨body, hbody, rfl⟩
    rw [hbody.afterDoctype_append, afterDoctype_last]

theorem nested_iff : Nested body ↔ afterDoctype 0 (body ++ [greaterThan]) = some [] := by
  rw [afterDoctype_iff]
  exact ⟨fun h => ⟨body, h, rfl⟩, fun ⟨_, h, heq⟩ => List.append_cancel_right heq ▸ h⟩

instance (body : Bytes) : Decidable (Nested body) := decidable_of_iff _ nested_iff.symm

def quotes : Bytes := ascii "\"'"

/-- Each quote is closed by one of its kind, and outside of them there is no `>`. -/
inductive Quoted : Bytes → Prop
  | nil : Quoted []
  | plain {b : UInt8} {bs : Bytes} (hclose : b ≠ greaterThan) (hquote : b ∉ quotes)
    (rest : Quoted bs) : Quoted (b :: bs)
  | quote {q : UInt8} {inner bs : Bytes} (hq : q ∈ quotes) (hinner : q ∉ inner)
    (rest : Quoted bs) : Quoted (q :: (inner ++ q :: bs))

theorem mem_quotes (b : UInt8) : b ∈ quotes ↔ b = 0x22 ∨ b = 0x27 := by
  simp [show quotes = [0x22, 0x27] from rfl]

theorem afterTag_plain {b : UInt8} (hclose : b ≠ greaterThan) (hquote : b ∉ quotes) (bs : Bytes) :
    afterTag none (b :: bs) = afterTag none bs := by
  rw [mem_quotes] at hquote
  rw [afterTag, if_neg hclose, if_neg hquote]

theorem afterTag_quote {q : UInt8} (hq : q ∈ quotes) (bs : Bytes) :
    afterTag none (q :: bs) = afterTag (some q) bs := by
  have hclose : q ≠ greaterThan := by
    rintro rfl
    exact absurd hq (by decide)
  rw [afterTag, if_neg hclose, if_pos ((mem_quotes q).1 hq)]

theorem afterTag_inner {q : UInt8} {inner : Bytes} (hinner : q ∉ inner) (bs : Bytes) :
    afterTag (some q) (inner ++ q :: bs) = afterTag none bs := by
  induction inner with
  | nil => simp [afterTag]
  | cons b inner ih =>
    obtain ⟨hb, hinner⟩ := not_or.1 fun h => hinner (List.mem_cons.2 h)
    rw [List.cons_append, afterTag, if_neg (Ne.symm hb)]
    exact ih hinner

theorem Quoted.afterTag_append (h : Quoted body) (bs : Bytes) :
    afterTag none (body ++ bs) = afterTag none bs := by
  induction h with
  | nil => rfl
  | plain hclose hquote _ ih => rw [List.cons_append, afterTag_plain hclose hquote, ih]
  | quote hq hinner _ ih =>
    rw [List.cons_append, afterTag_quote hq, List.append_assoc, List.cons_append,
      afterTag_inner hinner, ih]

theorem afterTag_closed {q : UInt8} (h : afterTag (some q) bs = some rest) :
    ∃ inner tail, q ∉ inner ∧ bs = inner ++ q :: tail ∧ afterTag none tail = some rest := by
  induction bs with
  | nil => simp [afterTag] at h
  | cons b bs ih =>
    rw [afterTag] at h
    by_cases hb : b = q
    · rw [if_pos hb] at h
      exact ⟨[], bs, List.not_mem_nil, by simp [hb], h⟩
    · rw [if_neg hb] at h
      obtain ⟨inner, tail, hinner, rfl, htail⟩ := ih h
      exact ⟨b :: inner, tail, by simp [hinner, Ne.symm hb], rfl, htail⟩

theorem afterTag_split (h : afterTag none bs = some rest) :
    ∃ body, Quoted body ∧ bs = body ++ greaterThan :: rest := by
  induction hn : bs.length using Nat.strongRecOn generalizing bs with
  | ind n ih =>
    cases bs with
    | nil => simp [afterTag] at h
    | cons b bs =>
      rw [List.length_cons] at hn
      by_cases hclose : b = greaterThan
      · rw [afterTag, if_pos hclose, Option.some.injEq] at h
        exact ⟨[], .nil, by simp [hclose, h]⟩
      · by_cases hquote : b ∈ quotes
        · rw [afterTag_quote hquote] at h
          obtain ⟨inner, tail, hinner, rfl, htail⟩ := afterTag_closed h
          have hlen : tail.length < n := by
            simp only [List.length_append, List.length_cons] at hn
            omega
          obtain ⟨body, hbody, rfl⟩ := ih tail.length hlen htail rfl
          exact ⟨_, .quote hquote hinner hbody, by simp⟩
        · rw [afterTag_plain hclose hquote] at h
          obtain ⟨body, hbody, rfl⟩ := ih bs.length (by omega) h rfl
          exact ⟨b :: body, .plain hclose hquote hbody, rfl⟩

theorem afterTag_iff :
    afterTag none bs = some rest ↔ ∃ body, Quoted body ∧ bs = body ++ greaterThan :: rest := by
  constructor
  · exact afterTag_split
  · rintro ⟨body, hbody, rfl⟩
    rw [hbody.afterTag_append, afterTag, if_pos rfl]

theorem quoted_iff : Quoted body ↔ afterTag none (body ++ [greaterThan]) = some [] := by
  rw [afterTag_iff]
  exact ⟨fun h => ⟨body, h, rfl⟩, fun ⟨_, h, heq⟩ => List.append_cancel_right heq ▸ h⟩

instance (body : Bytes) : Decidable (Quoted body) := decidable_of_iff _ quoted_iff.symm

end Markup

end ImageProbe
