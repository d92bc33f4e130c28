import ImageProbe.Jpeg
import ImageProbe.Proofs.Bytes

namespace ImageProbe

namespace Jpeg

/-- The markers that begin a frame. Three others between them begin tables, or are reserved. -/
def frames : List UInt8 :=
  [0xc0, 0xc1, 0xc2, 0xc3, 0xc5, 0xc6, 0xc7, 0xc9, 0xca, 0xcb, 0xcd, 0xce, 0xcf]

def restarts : List UInt8 := [0xd0, 0xd1, 0xd2, 0xd3, 0xd4, 0xd5, 0xd6, 0xd7]

def fill (n : Nat) : Bytes := List.replicate (n + 1) 0xff

/-- What may stand behind a marker that is passed over. -/
inductive Segment : UInt8 → Bytes → Prop
  | restart {m : UInt8} (hm : m ∈ restarts) : Segment m []
  | short {m : UInt8} {length : Bytes} (hm : m ≠ 0xd9 ∧ m ∉ restarts) (hlength : length.length = 2)
    (short : bigEndian length ≤ 2) : Segment m length
  | whole {m : UInt8} {length payload : Bytes} (hm : m ≠ 0xd9 ∧ m ∉ restarts)
    (other : m ∉ frames ∧ m ≠ 0xda) (hlength : length.length = 2) (long : 3 ≤ bigEndian length)
    (hpayload : payload.length = bigEndian length - 2) : Segment m (length ++ payload)

/-- What stands behind the marker of a frame, up to its width, and its width and height. -/
inductive Head : UInt8 → Bytes → Nat × Nat → Prop
  | head {m : UInt8} {length height width : Bytes} (hm : m ∈ frames) (hlength : length.length = 2)
    (long : 3 ≤ bigEndian length) (hheight : height.length = 2) (hwidth : width.length = 2) :
    Head m (length ++ 8 :: (height ++ width)) (bigEndian width, bigEndian height)

/-- What may stand before the frame. A zero behind a single `ff` makes no marker. -/
inductive Item : Bytes → Prop
  | stray {b : UInt8} (hb : b ≠ 0xff) : Item [b]
  | stuffed : Item [0xff, 0]
  | segment {n : Nat} {m : UInt8} {body : Bytes} (hm : m ≠ 0xff) (hzero : m = 0 → 0 < n)
    (hbody : Segment m body) : Item (fill n ++ m :: body)

inductive Frame : Bytes → Nat × Nat → Prop
  | frame {n : Nat} {m : UInt8} {body : Bytes} {size : Nat × Nat} (hbody : Head m body size) :
    Frame (fill n ++ m :: body) size

def Leads (text : Bytes) (size : Nat × Nat) : Prop :=
  ∃ (items : List Bytes) (frame tail : Bytes), (∀ item ∈ items, Item item) ∧ Frame frame size ∧
    text = items.flatten ++ (frame ++ tail)

variable {text rest : Bytes} {m : UInt8} {size : Nat × Nat}

theorem leads_iff : Leads text size ↔
    (∃ frame tail, Frame frame size ∧ text = frame ++ tail) ∨
      ∃ item rest, Item item ∧ Leads rest size ∧ text = item ++ rest := by
  constructor
  · rintro ⟨items, frame, tail, hitems, hframe, rfl⟩
    cases items with
    | nil => exact .inl ⟨frame, tail, hframe, rfl⟩
    | cons item items =>
      obtain ⟨hitem, hitems⟩ := List.forall_mem_cons.1 hitems
      refine .inr ⟨item, _, hitem, ⟨items, frame, tail, hitems, hframe, rfl⟩, ?_⟩
      rw [List.flatten_cons, List.append_assoc]
  · rintro (⟨frame, tail, hframe, rfl⟩ | ⟨item, rest, hitem, hrest, rfl⟩)
    · exact ⟨[], frame, tail, List.forall_mem_nil _, hframe, rfl⟩
    · obtain ⟨items, frame, tail, hitems, hframe, rfl⟩ := hrest
      refine ⟨item :: items, frame, tail, List.forall_mem_cons.2 ⟨hitem, hitems⟩, hframe, ?_⟩
      rw [List.flatten_cons, List.append_assoc]

theorem fill_append (n : Nat) (bs : Bytes) :
    fill n ++ bs = 0xff :: (List.replicate n 0xff ++ bs) := rfl

theorem replicate_append_inj {n k : Nat} {m l : UInt8} {xs ys : Bytes} (hm : m ≠ 0xff)
    (hl : l ≠ 0xff) (h : List.replicate n 0xff ++ m :: xs = List.replicate k 0xff ++ l :: ys) :
    n = k ∧ m = l ∧ xs = ys := by
  induction n generalizing k with
  | zero =>
    cases k with
    | zero => exact ⟨rfl, List.cons.inj h⟩
    | succ k => exact absurd (List.cons.inj h).1 hm
  | succ n ih =>
    cases k with
    | zero => exact absurd (List.cons.inj h).1.symm hl
    | succ k =>
      obtain ⟨rfl, hrest⟩ := ih (List.cons.inj h).2
      exact ⟨rfl, hrest⟩

theorem Head.marker_mem {body : Bytes} (h : Head m body size) : m ∈ frames := by
  obtain ⟨hm⟩ := h
  exact hm

theorem leads_stray {b : UInt8} (hb : b ≠ 0xff) : Leads (b :: text) size ↔ Leads text size := by
  constructor
  · intro h
    rcases leads_iff.1 h with ⟨_, tail, ⟨hbody⟩, htext⟩ | ⟨_, rest, hitem, hrest, htext⟩
    · exact absurd (List.cons.inj htext).1 hb
    · cases hitem with
      | stray => exact (List.cons.inj htext).2 ▸ hrest
      | stuffed => exact absurd (List.cons.inj htext).1 hb
      | segment => exact absurd (List.cons.inj htext).1 hb
  · intro h
    exact leads_iff.2 (.inr ⟨[b], text, .stray hb, h, rfl⟩)

theorem fill_append_eq_cons {n : Nat} {b : UInt8} {xs ys : Bytes} (hb : b ≠ 0xff)
    (h : 0xff :: b :: xs = fill n ++ m :: ys) : n = 0 ∧ m = b ∧ ys = xs := by
  cases n with
  | zero =>
    obtain ⟨rfl, rfl⟩ := List.cons.inj (List.cons.inj h).2
    exact ⟨rfl, rfl, rfl⟩
  | succ n => exact absurd (List.cons.inj (List.cons.inj h).2).1 hb

theorem leads_stuffed : Leads (0xff :: 0 :: text) size ↔ Leads text size := by
  constructor
  · intro h
    rcases leads_iff.1 h with ⟨_, tail, ⟨hbody⟩, htext⟩ | ⟨_, rest, hitem, hrest, htext⟩
    · rw [List.append_assoc] at htext
      obtain ⟨-, rfl, -⟩ := fill_append_eq_cons (by decide) htext
      exact absurd hbody.marker_mem (by decide)
    · cases hitem with
      | stray hb => exact absurd (List.cons.inj htext).1.symm hb
      | stuffed => exact (List.cons.inj (List.cons.inj htext).2).2 ▸ hrest
      | segment hm hzero =>
        rw [List.append_assoc] at htext
        obtain ⟨rfl, rfl, -⟩ := fill_append_eq_cons (by decide) htext
        exact absurd (hzero rfl) (Nat.lt_irrefl 0)
  · intro h
    exact leads_iff.2 (.inr ⟨[0xff, 0], text, .stuffed, h, rfl⟩)

def Behind (m : UInt8) (text : Bytes) (size : Nat × Nat) : Prop :=
  (∃ body tail, Head m body size ∧ text = body ++ tail) ∨
    ∃ body rest, Segment m body ∧ Leads rest size ∧ text = body ++ rest

theorem leads_marker {n : Nat} (hm : m ≠ 0xff) (hzero : m = 0 → 0 < n) :
    Leads (fill n ++ m :: text) size ↔ Behind m text size := by
  constructor
  · intro h
    rcases leads_iff.1 h with ⟨_, tail, ⟨hbody⟩, htext⟩ | ⟨_, rest, hitem, hrest, htext⟩
    · rename_i l body
      have hl : l ≠ 0xff := by
        rintro rfl
        exact absurd hbody.marker_mem (by decide)
      rw [List.append_assoc, fill_append, fill_append] at htext
      obtain ⟨-, rfl, rfl⟩ := replicate_append_inj hm hl (List.cons.inj htext).2
      exact .inl ⟨body, tail, hbody, rfl⟩
    · cases hitem with
      | stray hb => exact absurd (List.cons.inj htext).1.symm hb
      | stuffed =>
        obtain ⟨rfl, rfl, -⟩ := fill_append_eq_cons (by decide) htext.symm
        exact absurd (hzero rfl) (Nat.lt_irrefl 0)
      | @segment k l body hl _ hbody =>
        rw [List.append_assoc, fill_append, fill_append] at htext
        obtain ⟨-, rfl, rfl⟩ := replicate_append_inj hm hl (List.cons.inj htext).2
        exact .inr ⟨body, rest, hbody, hrest, rfl⟩
  · rintro (⟨body, tail, hbody, rfl⟩ | ⟨body, rest, hbody, hrest, rfl⟩)
    · refine leads_iff.2 (.inl ⟨_, tail, .frame (n := n) hbody, ?_⟩)
      rw [List.append_assoc, List.cons_append]
    · refine leads_iff.2 (.inr ⟨_, rest, .segment hm hzero hbody, hrest, ?_⟩)
      rw [List.append_assoc, List.cons_append]

theorem behind_restart (hm : m ∈ restarts) : Behind m text size ↔ Leads text size := by
  constructor
  · rintro (⟨_, tail, hbody, -⟩ | ⟨_, rest, hbody, hrest, rfl⟩)
    · have hapart : ∀ l ∈ frames, l ∉ restarts := by decide +kernel
      exact absurd hm (hapart m hbody.marker_mem)
    · cases hbody with
      | restart => exact hrest
      | short plain => exact absurd hm plain.2
      | whole plain => exact absurd hm plain.2
  · intro h
    exact .inr ⟨[], text, .restart hm, h, rfl⟩

theorem not_behind_end : ¬ Behind 0xd9 text size := by
  rintro (⟨_, tail, hbody, -⟩ | ⟨_, rest, hbody, -⟩)
  · exact absurd hbody.marker_mem (by decide)
  · cases hbody with
    | restart hm => exact absurd hm (by decide)
    | short plain => exact absurd rfl plain.1
    | whole plain => exact absurd rfl plain.1

inductive Counted (m : UInt8) (n : Nat) : Bytes → Nat × Nat → Prop
  | short {text : Bytes} {size : Nat × Nat} (short : n ≤ 2) (h : Leads text size) :
    Counted m n text size
  | frame {height width tail : Bytes} (long : 3 ≤ n) (hm : m ∈ frames) (hheight : height.length = 2)
    (hwidth : width.length = 2) :
    Counted m n (8 :: (height ++ (width ++ tail))) (bigEndian width, bigEndian height)
  | whole {payload text : Bytes} {size : Nat × Nat} (long : 3 ≤ n) (other : m ∉ frames ∧ m ≠ 0xda)
    (hpayload : payload.length = n - 2) (h : Leads text size) : Counted m n (payload ++ text) size

theorem behind_counted {length : Bytes} (hm : m ≠ 0xd9 ∧ m ∉ restarts) (hlength : length.length = 2) :
    Behind m (length ++ text) size ↔ Counted m (bigEndian length) text size := by
  constructor
  · rintro (⟨_, tail, hbody, htext⟩ | ⟨_, rest, hbody, hrest, htext⟩)
    · obtain @⟨length', height, width, hframe, hlength', long, hheight, hwidth⟩ := hbody
      rw [List.append_assoc] at htext
      obtain ⟨rfl, rfl⟩ := List.append_inj htext (hlength.trans hlength'.symm)
      rw [List.cons_append, List.append_assoc]
      exact .frame long hframe hheight hwidth
    · cases hbody with
      | restart hrestart => exact absurd hrestart hm.2
      | short _ hlength' short =>
        obtain ⟨rfl, rfl⟩ := List.append_inj htext (hlength.trans hlength'.symm)
        exact .short short hrest
      | whole _ other hlength' long hpayload =>
        rw [List.append_assoc] at htext
        obtain ⟨rfl, rfl⟩ := List.append_inj htext (hlength.trans hlength'.symm)
        exact .whole long other hpayload hrest
  · intro h
    cases h with
    | short short h => exact .inr ⟨length, text, .short hm hlength short, h, rfl⟩
    | @frame height width tail long hframe hheight hwidth =>
      refine .inl ⟨_, tail, .head hframe hlength long hheight hwidth, ?_⟩
      rw [List.append_assoc, List.cons_append, List.append_assoc]
    | @whole payload text _ long other hpayload h =>
      refine .inr ⟨_, text, .whole hm other hlength long hpayload, h, ?_⟩
      rw [List.append_assoc]

variable {n : Nat}

theorem counted_short (h : n ≤ 2) : Counted m n text size ↔ Leads text size := by
  constructor
  · intro hcounted
    cases hcounted with
    | short _ hleads => exact hleads
    | frame => omega
    | whole => omega
  · exact .short h

theorem counted_frame {p : UInt8} {height width tail : Bytes} (long : 3 ≤ n) (hm : m ∈ frames)
    (hheight : height.length = 2) (hwidth : width.length = 2) :
    Counted m n (p :: (height ++ (width ++ tail))) size ↔
      p = 8 ∧ size = (bigEndian width, bigEndian height) := by
  constructor
  · generalize htext : p :: (height ++ (width ++ tail)) = text
    intro hcounted
    cases hcounted with
    | short => omega
    | frame _ _ hheight' hwidth' =>
      obtain ⟨rfl, hfields⟩ := List.cons.inj htext
      obtain ⟨rfl, hbehind⟩ := List.append_inj hfields (hheight.trans hheight'.symm)
      obtain ⟨rfl, -⟩ := List.append_inj hbehind (hwidth.trans hwidth'.symm)
      exact ⟨rfl, rfl⟩
    | whole _ other => exact absurd hm other.1
  · rintro ⟨rfl, rfl⟩
    exact .frame long hm hheight hwidth

theorem not_counted_scan (long : 3 ≤ n) : ¬ Counted 0xda n text size := by
  intro hcounted
  cases hcounted with
  | short => omega
  | frame _ hm => exact absurd hm (by decide)
  | whole _ other => exact other.2 rfl

theorem counted_whole {payload rest : Bytes} (long : 3 ≤ n) (other : m ∉ frames ∧ m ≠ 0xda)
    (hpayload : payload.length = n - 2) :
    Counted m n (payload ++ rest) size ↔ Leads rest size := by
  constructor
  · generalize htext : payload ++ rest = text
    intro hcounted
    cases hcounted with
    | short => omega
    | frame _ hm => exact absurd hm other.1
    | whole _ _ hpayload' hrest =>
      obtain ⟨-, rfl⟩ := List.append_inj htext (hpayload.trans hpayload'.symm)
      exact hrest
  · exact .whole long other hpayload

theorem Counted.length_le (long : 3 ≤ n) (h : Counted m n text size) :
    if m ∈ frames then 5 ≤ text.length else n - 2 ≤ text.length := by
  cases h with
  | short => omega
  | frame _ hm hheight hwidth =>
    rw [if_pos hm]
    simp only [List.length_cons, List.length_append]
    omega
  | whole _ other hpayload =>
    rw [if_neg other.1, List.length_append]
    omega

theorem Behind.length_le (hm : m ≠ 0xd9 ∧ m ∉ restarts) (h : Behind m text size) :
    2 ≤ text.length := by
  rcases h with ⟨_, tail, hbody, rfl⟩ | ⟨_, rest, hbody, hrest, rfl⟩
  · obtain @⟨length, height, width, -, hlength⟩ := hbody
    rw [List.length_append, List.length_append]
    omega
  · cases hbody with
    | restart hrestart => exact absurd hrestart hm.2
    | short _ hlength =>
      rw [List.length_append]
      omega
    | whole _ _ hlength =>
      rw [List.length_append, List.length_append]
      omega

theorem Leads.length_le (h : Leads text size) : 9 ≤ text.length := by
  obtain ⟨items, _, tail, -, ⟨hbody⟩, rfl⟩ := h
  obtain @⟨length, height, width, -, hlength, -, hheight, hwidth⟩ := hbody
  simp only [List.length_append, List.length_cons, fill, List.length_replicate]
  omega

theorem not_leads_fill (n : Nat) : ¬ Leads (fill n) size := by
  rintro ⟨items, _, tail, -, @⟨k, m, body, _, hbody⟩, htext⟩
  have hmem : m ∈ fill n := by
    rw [htext]
    simp only [List.mem_append, List.mem_cons, true_or, or_true]
  obtain rfl : m = 0xff := List.eq_of_mem_replicate hmem
  exact absurd hbody.marker_mem (by decide)

end Jpeg

end ImageProbe
