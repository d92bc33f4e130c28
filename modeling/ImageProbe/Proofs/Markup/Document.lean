import ImageProbe.Proofs.Markup.Ends
import ImageProbe.Proofs.Markup.Names

namespace ImageProbe

namespace Markup

/-- What may stand before the root. -/
inductive Misc : Bytes → Prop
  | blank {text : Bytes} (h : ∀ b ∈ text, isBlank b = true) : Misc text
  | comment {text : Bytes} (h : ¬ ascii "-->" <:+: text) :
    Misc (ascii "<!--" ++ (text ++ ascii "-->"))
  | doctype {keyword text : Bytes} (hkeyword : keyword.map lower = ascii "doctype")
    (hname : ∃ b ∈ text, isSpace b = false) (hnested : Nested text) :
    Misc (ascii "<!" ++ (keyword ++ (text ++ ascii ">")))
  | instruction {text : Bytes} (h : ¬ ascii "?>" <:+: ascii "?" ++ text) :
    Misc (ascii "<?" ++ (text ++ ascii "?>"))

inductive RootTag : Bytes → Prop
  | tag {name tail : Bytes} (hname : RootName name) (htail : Behind tail)
    (hquoted : Quoted (name ++ tail)) : RootTag (ascii "<" ++ (name ++ (tail ++ ascii ">")))

/-- Items that may stand before the root, the tag of the root, and anything behind it. -/
inductive Document : Bytes → Prop
  | root {tag : Bytes} (h : RootTag tag) (rest : Bytes) : Document (tag ++ rest)
  | misc {item text : Bytes} (h : Misc item) (rest : Document text) : Document (item ++ text)

variable {bs rest inner text p : Bytes} {i : Item} {b : UInt8}

section Items

theorem after_comment : after (ascii "-->") bs = some rest ↔
    ∃ text, ¬ ascii "-->" <:+: text ∧ bs = text ++ (ascii "-->" ++ rest) :=
  after_iff (show greaterThan ∉ ascii "--" by decide)

theorem after_instruction : after (ascii "?>") bs = some rest ↔
    ∃ text, ¬ ascii "?>" <:+: text ∧ bs = text ++ (ascii "?>" ++ rest) :=
  after_iff (show greaterThan ∉ ascii "?" by decide)

theorem comment_iff : comment bs = .ok (i, rest) ↔ i = .prolog ∧
    ∃ text, ¬ ascii "-->" <:+: text ∧ bs = ascii "--" ++ (text ++ (ascii "-->" ++ rest)) := by
  constructor
  · intro h
    unfold comment at h
    split at h
    · next hstart =>
      obtain ⟨bs, rfl⟩ := List.isPrefixOf_iff_prefix.1 hstart
      split at h
      · next hafter =>
        cases h
        obtain ⟨text, htext, hbs⟩ := after_comment.1 hafter
        exact ⟨rfl, text, htext, congrArg (ascii "--" ++ ·) hbs⟩
      · cases h
    · cases h
  · rintro ⟨rfl, text, htext, rfl⟩
    have hstart : (ascii "--").isPrefixOf (ascii "--" ++ (text ++ (ascii "-->" ++ rest))) = true :=
      List.isPrefixOf_iff_prefix.2 (List.prefix_append ..)
    have hafter : after (ascii "-->") ((ascii "--" ++ (text ++ (ascii "-->" ++ rest))).drop 2) =
        some rest := after_comment.2 ⟨text, htext, rfl⟩
    rw [comment, if_pos hstart, hafter]

theorem cdata_kind (h : cdata bs = .ok (i, rest)) : i = .cdata := by
  unfold cdata at h
  split at h
  · split at h
    · cases h
      rfl
    · cases h
  · cases h

theorem doctype_iff : doctype bs = .ok (i, rest) ↔ i = .prolog ∧
    ∃ keyword text, keyword.map lower = ascii "doctype" ∧ (∃ b ∈ text, isSpace b = false) ∧
      Nested (keyword ++ text) ∧ bs = keyword ++ (text ++ greaterThan :: rest) := by
  constructor
  · intro h
    unfold doctype at h
    split at h
    · cases h
    · next hafter =>
      obtain ⟨body, hbody, rfl⟩ := afterDoctype_iff.1 hafter
      rw [before_append] at h
      dsimp only at h
      split at h
      · cases h
      · next hkeyword =>
        split at h
        · cases h
        · next hname =>
          cases h
          refine ⟨rfl, body.take 7, body.drop 7, not_not.1 hkeyword, by simpa using hname, ?_, ?_⟩
          · rwa [List.take_append_drop]
          · rw [← List.append_assoc, List.take_append_drop]
  · rintro ⟨rfl, keyword, text, hkeyword, ⟨b, hb, hspace⟩, hnested, rfl⟩
    have hafter : afterDoctype 0 (keyword ++ (text ++ greaterThan :: rest)) = some rest :=
      afterDoctype_iff.2 ⟨keyword ++ text, hnested, (List.append_assoc ..).symm⟩
    have hlength : keyword.length = 7 := by
      rw [← List.length_map lower, hkeyword]
      rfl
    have hname : ¬ text.all isSpace = true := by
      rw [List.all_eq_true]
      exact fun hall => absurd (hall b hb) (by simp [hspace])
    rw [doctype, hafter, ← List.append_assoc]
    dsimp only
    rw [before_append, List.take_left' hlength, List.drop_left' hlength, if_neg (not_not.2 hkeyword),
      if_neg hname]

theorem instruction_iff : instruction bs = .ok (i, rest) ↔ i = .prolog ∧
    ∃ text, ¬ ascii "?>" <:+: ascii "?" ++ text ∧ bs = text ++ (ascii "?>" ++ rest) := by
  -- The question mark in front must not be the one that closes.
  have hfront (text : Bytes) : ascii "?>" <:+: ascii "?" ++ text ↔
      text.head? = some greaterThan ∨ ascii "?>" <:+: text := by
    rw [show ascii "?" ++ text = 0x3f :: text from rfl, List.infix_cons_iff]
    cases text with
    | nil => decide
    | cons c text =>
      simp [show ascii "?>" = [0x3f, greaterThan] from rfl, List.cons_prefix_cons, eq_comm]
  have hhead (text : Bytes) :
      (text ++ (ascii "?>" ++ rest)).head? = some greaterThan ↔ text.head? = some greaterThan := by
    cases text with
    | nil => simp [show ascii "?>" = [0x3f, greaterThan] from rfl, greaterThan]
    | cons c text => simp
  constructor
  · intro h
    unfold instruction at h
    split at h
    · cases h
    · next hopen =>
      split at h
      · next hafter =>
        cases h
        obtain ⟨text, htext, rfl⟩ := after_instruction.1 hafter
        rw [hhead] at hopen
        exact ⟨rfl, text, by simp [hfront, hopen, htext], rfl⟩
      · cases h
  · rintro ⟨rfl, text, htext, rfl⟩
    rw [hfront, not_or] at htext
    rw [instruction, if_neg (by rw [hhead]; exact htext.1), after_instruction.2 ⟨text, htext.2, rfl⟩]

theorem tag_iff : tag bs = .ok (i, rest) ↔
    ∃ body, Quoted body ∧ i = .tag (tagName body) ∧ bs = body ++ greaterThan :: rest := by
  constructor
  · intro h
    unfold tag at h
    split at h
    · next hafter =>
      cases h
      obtain ⟨body, hbody, rfl⟩ := afterTag_iff.1 hafter
      exact ⟨body, hbody, by rw [before_append], rfl⟩
    · cases h
  · rintro ⟨body, hbody, rfl, rfl⟩
    rw [tag, afterTag_iff.2 ⟨body, hbody, rfl⟩]
    dsimp only
    rw [before_append]

theorem lower_eq_d (h : lower b = 0x64) : b = 0x44 ∨ b = 0x64 := by
  unfold lower at h
  split at h
  · exact .inl ((UInt8.add_left_inj 0x20).1 h)
  · exact .inr h

theorem keyword_head {keyword : Bytes} (h : keyword.map lower = ascii "doctype") :
    ∃ b letters, keyword = b :: letters ∧ (b = 0x44 ∨ b = 0x64) := by
  cases keyword with
  | nil => cases h
  | cons b letters => exact ⟨b, letters, rfl, lower_eq_d (List.cons.inj h).1⟩

theorem keyword_plain {keyword : Bytes} (h : keyword.map lower = ascii "doctype") :
    ∀ b ∈ keyword, b ≠ lessThan ∧ b ≠ greaterThan := by
  intro b hb
  have hletter : lower b ∈ ascii "doctype" := h ▸ List.mem_map_of_mem hb
  constructor
  · rintro rfl
    exact absurd hletter (by decide)
  · rintro rfl
    exact absurd hletter (by decide)

theorem mem_kinds (b : UInt8) : b ∈ kinds ↔ b = 0x21 ∨ b = 0x2f ∨ b = 0x3f := by
  simp [show kinds = [0x21, 0x2f, 0x3f] from rfl]

theorem item_tag (hb : b ∉ kinds) (bs : Bytes) : item (b :: bs) = tag (b :: bs) := by
  obtain ⟨hbang, hslash, hquestion⟩ : b ≠ 0x21 ∧ b ≠ 0x2f ∧ b ≠ 0x3f := by
    simpa [mem_kinds] using hb
  unfold item
  split
  · next h => cases h
  · next h => exact absurd (List.cons.inj h).1 hbang
  · next h => exact absurd (List.cons.inj h).1 hslash
  · next h => exact absurd (List.cons.inj h).1 hquestion
  · rfl

theorem misc_of_comment (h : comment bs = .ok (i, rest)) :
    i = .prolog ∧ ∃ p, Misc p ∧ lessThan :: 0x21 :: bs = p ++ rest := by
  obtain ⟨hi, text, htext, rfl⟩ := comment_iff.1 h
  refine ⟨hi, _, .comment htext, ?_⟩
  simp only [List.append_assoc]
  rfl

theorem misc_of_doctype (h : doctype bs = .ok (i, rest)) :
    i = .prolog ∧ ∃ p, Misc p ∧ lessThan :: 0x21 :: bs = p ++ rest := by
  obtain ⟨hi, keyword, text, hkeyword, hname, hnested, rfl⟩ := doctype_iff.1 h
  have htext := (nested_append_iff (keyword_plain hkeyword)).1 hnested
  refine ⟨hi, _, .doctype hkeyword hname htext, ?_⟩
  simp only [List.append_assoc]
  rfl

theorem misc_of_instruction (h : instruction bs = .ok (i, rest)) :
    i = .prolog ∧ ∃ p, Misc p ∧ lessThan :: 0x3f :: bs = p ++ rest := by
  obtain ⟨hi, text, htext, rfl⟩ := instruction_iff.1 h
  refine ⟨hi, _, .instruction htext, ?_⟩
  simp only [List.append_assoc]
  rfl

theorem item_cases (h : item inner = .ok (i, rest)) :
    i = .cdata ∨ (i = .prolog ∧ ∃ p, Misc p ∧ lessThan :: inner = p ++ rest) ∨
      ∃ body, Quoted body ∧ (∀ b ∈ body.head?, b ∉ kinds) ∧ i = .tag (tagName body) ∧
        inner = body ++ greaterThan :: rest := by
  unfold item at h
  split at h
  · cases h
  · split at h
    · exact .inl (cdata_kind h)
    · exact .inr (.inl (misc_of_comment h))
    · exact .inr (.inl (misc_of_doctype h))
    · exact .inr (.inl (misc_of_doctype h))
    · cases h
  · exact absurd h (endTag_ne_ok _ _)
  · exact .inr (.inl (misc_of_instruction h))
  · next hbang hslash hquestion =>
    obtain ⟨body, hbody, hi, rfl⟩ := tag_iff.1 h
    refine .inr (.inr ⟨body, hbody, ?_, hi, rfl⟩)
    intro b hb hkind
    cases body with
    | nil => cases hb
    | cons c body =>
      cases hb
      rcases (mem_kinds b).1 hkind with rfl | rfl | rfl
      · exact hbang _ rfl
      · exact hslash _ rfl
      · exact hquestion _ rfl

end Items

section Root

def verdict : Except MarkupError (Item × Bytes) → Except MarkupError Bool
  | .error e => .error e
  | .ok (.tag name, _) => .ok (localName name = ascii "svg")
  | .ok (.cdata, _) => .ok false
  | .ok (.prolog, rest) => root rest

theorem root_eq (bs : Bytes) : root bs =
    if ! (bs.takeWhile (· ≠ lessThan)).all isBlank then .ok false
    else match bs.dropWhile (· ≠ lessThan) with
      | [] => .ok false
      | _ :: inner => verdict (item inner) := by
  rw [root]
  congr 1
  split
  · next hdrop => rw [hdrop]
  · next inner hdrop =>
    rw [hdrop]
    dsimp only
    split
    · next hitem => rw [hitem, verdict]
    · next hitem => rw [hitem, verdict]
    · next hitem => rw [hitem, verdict]
    · next hitem => rw [hitem, verdict]

theorem root_nil : root [] = .ok false := root_eq []

theorem root_text (hblank : isBlank b = false) (hopen : b ≠ lessThan) (bs : Bytes) :
    root (b :: bs) = .ok false := by
  rw [root_eq, if_pos]
  simp [hopen, hblank]

theorem root_blank (h : isBlank b = true) (bs : Bytes) : root (b :: bs) = root bs := by
  have hopen : b ≠ lessThan := by
    rintro rfl
    exact absurd h (by decide)
  rw [root_eq, root_eq]
  simp [hopen, h]

theorem root_open (inner : Bytes) : root (lessThan :: inner) = verdict (item inner) := by
  rw [root_eq]
  simp

theorem root_misc (h : Misc p) (bs : Bytes) : root (p ++ bs) = root bs := by
  have hpassed {inner : Bytes} (hitem : item inner = .ok (.prolog, bs)) :
      root (lessThan :: inner) = root bs := by
    rw [root_open, hitem, verdict]
  cases h with
  | blank htext =>
    induction p with
    | nil => rfl
    | cons b text ih =>
      obtain ⟨hb, htext⟩ := List.forall_mem_cons.1 htext
      rw [List.cons_append, root_blank hb, ih htext]
  | @comment text htext =>
    simp only [List.append_assoc]
    exact hpassed (comment_iff.2 ⟨rfl, text, htext, rfl⟩)
  | @doctype keyword text hkeyword hname hnested =>
    simp only [List.append_assoc]
    have hread : doctype (keyword ++ (text ++ (ascii ">" ++ bs))) = .ok (.prolog, bs) :=
      doctype_iff.2 ⟨rfl, keyword, text, hkeyword, hname,
        (nested_append_iff (keyword_plain hkeyword)).2 hnested, rfl⟩
    obtain ⟨b, letters, rfl, rfl | rfl⟩ := keyword_head hkeyword
    · exact hpassed hread
    · exact hpassed hread
  | @instruction text htext =>
    simp only [List.append_assoc]
    exact hpassed (instruction_iff.2 ⟨rfl, text, htext, rfl⟩)

theorem root_tag (h : RootTag p) (bs : Bytes) : root (p ++ bs) = .ok true := by
  obtain @⟨name, tail, hname, htail, hquoted⟩ := h
  have htag : tag (name ++ (tail ++ (ascii ">" ++ bs))) = .ok (.tag name, bs) :=
    tag_iff.2 ⟨name ++ tail, hquoted, by rw [tagName_append hname.unbroken hname.unslashed htail],
      (List.append_assoc ..).symm⟩
  have hitem : item (name ++ (tail ++ (ascii ">" ++ bs))) = .ok (.tag name, bs) := by
    obtain ⟨b, letters, rfl, hkind⟩ := hname.head
    exact (item_tag hkind _).trans htag
  simp only [List.append_assoc]
  change root (lessThan :: (name ++ (tail ++ (ascii ">" ++ bs)))) = _
  rw [root_open, hitem, verdict, hname.localName_eq]
  rfl

theorem root_of_document (h : Document text) : root text = .ok true := by
  induction h with
  | root htag rest => exact root_tag htag rest
  | misc hitem _ ih => exact (root_misc hitem _).trans ih

theorem rootTag_of_quoted {body : Bytes} (hbody : Quoted body) (hkind : ∀ b ∈ body.head?, b ∉ kinds)
    (hsvg : localName (tagName body) = ascii "svg") : RootTag (ascii "<" ++ (body ++ ascii ">")) := by
  obtain ⟨⟨tail, htail, hsplit⟩, hspace⟩ := tagName_split body
  have hname : RootName (tagName body) := by
    apply RootName.of_localName hsvg hspace
    intro b hb
    apply hkind
    rw [hsplit, List.head?_append, Option.mem_def.1 hb]
    rfl
  rw [hsplit] at hbody
  have htag := RootTag.tag hname htail hbody
  rwa [← List.append_assoc _ tail, ← hsplit] at htag

theorem document_of_root (h : root bs = .ok true) : Document bs := by
  -- By the length of what is left: a blank or an item is passed over, or the root has been met.
  induction hn : bs.length using Nat.strongRecOn generalizing bs with
  | ind n ih =>
    cases bs with
    | nil =>
      rw [root_nil] at h
      cases h
    | cons b bs =>
      rw [List.length_cons] at hn
      by_cases hblank : isBlank b = true
      · rw [root_blank hblank] at h
        have hitem : Misc [b] := .blank (by simpa using hblank)
        exact .misc hitem (ih bs.length (by omega) h rfl)
      by_cases hopen : b = lessThan
      · subst hopen
        rw [root_open] at h
        rcases hitem : item bs with e | ⟨i, rest⟩
        · rw [hitem] at h
          cases h
        rw [hitem] at h
        have hshort := length_item hitem
        obtain rfl | ⟨rfl, p, hp, hsplit⟩ | ⟨body, hbody, hkind, rfl, rfl⟩ := item_cases hitem
        · cases h
        · rw [hsplit]
          exact .misc hp (ih rest.length (by omega) h rfl)
        · have hsvg : localName (tagName body) = ascii "svg" := by
            simpa [verdict] using h
          have hdocument := Document.root (rootTag_of_quoted hbody hkind hsvg) rest
          rwa [List.append_assoc, List.append_assoc] at hdocument
      · rw [root_text (by simpa using hblank) hopen] at h
        cases h

end Root

section Mark

theorem svgRoot_marked (bs : Bytes) : svgRoot (byteOrderMark ++ bs) = root bs := rfl

theorem svgRoot_unmarked (h : ¬ byteOrderMark <+: bs) : svgRoot bs = root bs := by
  rw [svgRoot, if_neg (by rwa [List.isPrefixOf_iff_prefix])]

theorem isSvg_iff_svgRoot (bs : Bytes) : isSvg bs = true ↔ svgRoot bs = .ok true := by
  rw [isSvg]
  cases svgRoot bs with
  | error e => simp [Except.toOption]
  | ok verdict => simp [Except.toOption]

theorem not_marked_of_root (h : root bs = .ok true) : ¬ byteOrderMark <+: bs := by
  rintro ⟨tail, rfl⟩
  have htext : root (byteOrderMark ++ tail) = .ok false := root_text (by decide) (by decide) _
  rw [htext] at h
  cases h

theorem isSvg_iff (bs : Bytes) :
    isSvg bs = true ↔ ∃ mark text, (mark = [] ∨ mark = byteOrderMark) ∧ Document text ∧
      bs = mark ++ text := by
  rw [isSvg_iff_svgRoot]
  constructor
  · intro h
    by_cases hmark : byteOrderMark <+: bs
    · obtain ⟨text, rfl⟩ := hmark
      rw [svgRoot_marked] at h
      exact ⟨byteOrderMark, text, .inr rfl, document_of_root h, rfl⟩
    · rw [svgRoot_unmarked hmark] at h
      exact ⟨[], bs, .inl rfl, document_of_root h, rfl⟩
  · rintro ⟨_, text, rfl | rfl, htext, rfl⟩
    · have hroot := root_of_document htext
      rwa [svgRoot_unmarked (not_marked_of_root hroot)]
    · exact root_of_document htext

theorem Misc.unmarked (h : Misc p) (hbs : ¬ byteOrderMark <+: bs) : ¬ byteOrderMark <+: p ++ bs := by
  rintro ⟨tail, htail⟩
  cases h with
  | blank htext =>
    cases p with
    | nil => exact hbs ⟨tail, htail⟩
    | cons b text =>
      obtain rfl : 0xef = b := (List.cons.inj htail).1
      exact absurd (htext 0xef List.mem_cons_self) (by decide)
  | comment => exact absurd (List.cons.inj htail).1 (by decide)
  | doctype => exact absurd (List.cons.inj htail).1 (by decide)
  | instruction => exact absurd (List.cons.inj htail).1 (by decide)

theorem not_svg_take (hblank : isBlank b = false) (hopen : b ≠ lessThan) (hmark : b ≠ 0xef)
    (bs : Bytes) (n : Nat) : isSvg ((b :: bs).take n) = false := by
  have hfront : ¬ byteOrderMark <+: (b :: bs).take n := by
    intro hstart
    obtain ⟨tail, htail⟩ := hstart.trans (List.take_prefix n (b :: bs))
    exact hmark (List.cons.inj htail).1.symm
  rw [isSvg, svgRoot_unmarked hfront]
  cases n with
  | zero => rw [List.take_zero, root_nil]; rfl
  | succ n => rw [List.take_succ_cons, root_text hblank hopen]; rfl

theorem isSvg_misc (h : Misc p) (hbs : ¬ byteOrderMark <+: bs) : isSvg (p ++ bs) = isSvg bs := by
  rw [isSvg, isSvg, svgRoot_unmarked (h.unmarked hbs), svgRoot_unmarked hbs, root_misc h]

end Mark

/-- The bytes of an SVG are an optional mark, items that may stand before the root, the tag of the
root, and anything behind it. One more such item in front does not count. -/
theorem isSvg_iff_document (bs : Bytes) :
    (isSvg bs = true ↔ ∃ mark text, (mark = [] ∨ mark = byteOrderMark) ∧ Document text ∧
        bs = mark ++ text) ∧
      ∀ p, Misc p → ¬ byteOrderMark <+: bs → isSvg (p ++ bs) = isSvg bs :=
  ⟨isSvg_iff bs, fun _ hp hbs => isSvg_misc hp hbs⟩

theorem isSvg_iff_document_commented :
    let p := ascii "<!-- -> ?> -->"
    let bs := ascii "<?svg ?> <!DocType a [<!ENTITY b>]><a:svg b='>'/></svg>"
    Misc p ∧ ¬ byteOrderMark <+: bs ∧ isSvg bs = true ∧ isSvg (p ++ bs) = true := by
  intro p bs
  have hmisc : Misc (ascii "<!--" ++ (ascii " -> ?> " ++ ascii "-->")) := .comment (by decide)
  have hmark : ¬ byteOrderMark <+: bs := by decide
  have hinstruction : Misc (ascii "<?" ++ (ascii "svg " ++ ascii "?>")) := .instruction (by decide)
  have hblank : Misc (ascii " ") := .blank (by decide +kernel)
  have hdoctype : Misc (ascii "<!" ++ (ascii "DocType" ++ (ascii " a [<!ENTITY b>]" ++ ascii ">"))) :=
    .doctype (by decide) (by decide) (by decide)
  have htag : RootTag (ascii "<" ++
      (ascii "a" ++ colon :: ascii "svg" ++ (0x20 :: ascii "b='>'/" ++ ascii ">"))) :=
    .tag (.qualified (by decide) (by decide +kernel) (by decide +kernel))
      (.space (by decide +kernel) _) (by decide)
  have hdocument := Document.misc hinstruction <| .misc hblank <| .misc hdoctype <|
    .root htag (ascii "</svg>")
  obtain ⟨hiff, hfront⟩ := isSvg_iff_document bs
  have hsvg : isSvg bs = true := hiff.2 ⟨[], bs, .inl rfl, hdocument, rfl⟩
  exact ⟨hmisc, hmark, hsvg, (hfront p hmisc hmark).trans hsvg⟩

end Markup

end ImageProbe
