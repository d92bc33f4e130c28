import ImageProbe.Markup.Root
import Mathlib.Data.List.Basic
import Mathlib.Data.List.TakeWhile

namespace ImageProbe

namespace Markup

def kinds : Bytes := ascii "!/?"

def colon : UInt8 := 0x3a

def slash : UInt8 := 0x2f

inductive RootName : Bytes → Prop
  | bare : RootName (ascii "svg")
  | qualified {qualifier : Bytes} (hcolon : colon ∉ qualifier)
    (hspace : ∀ b ∈ qualifier, isSpace b = false) (hkind : ∀ b ∈ qualifier.head?, b ∉ kinds) :
    RootName (qualifier ++ colon :: ascii "svg")

inductive Behind : Bytes → Prop
  | nothing : Behind []
  | slash : Behind [slash]
  | space {b : UInt8} (h : isSpace b = true) (rest : Bytes) : Behind (b :: rest)

variable {name tail : Bytes}

theorem localName_bare (h : colon ∉ name) : localName name = name := by
  simp only [colon] at h
  simp [localName, h]

theorem localName_qualified {qualifier : Bytes} (h : colon ∉ qualifier) (rest : Bytes) :
    localName (qualifier ++ colon :: rest) = rest := by
  have hdrop : (qualifier ++ colon :: rest).dropWhile (· ≠ 0x3a) = colon :: rest := by
    rw [List.dropWhile_append_of_pos]
    · exact List.dropWhile_cons_of_neg (by simp [colon])
    · intro b hb
      have hne : b ≠ colon := fun heq => h (heq ▸ hb)
      exact decide_eq_true hne
  rw [localName, hdrop, if_pos (by simp [colon])]
  rfl

namespace RootName

theorem localName_eq (h : RootName name) : localName name = ascii "svg" := by
  cases h with
  | bare => exact localName_bare (by decide)
  | qualified hcolon => exact localName_qualified hcolon _

theorem of_localName (hsvg : localName name = ascii "svg") (hspace : ∀ b ∈ name, isSpace b = false)
    (hkind : ∀ b ∈ name.head?, b ∉ kinds) : RootName name := by
  by_cases hcolon : colon ∈ name
  · obtain ⟨qualifier, rest, rfl, hfirst⟩ := List.eq_append_cons_of_mem hcolon
    rw [localName_qualified hfirst] at hsvg
    subst hsvg
    refine .qualified hfirst (fun b hb => hspace b (List.mem_append_left _ hb)) ?_
    cases qualifier with
    | nil => simp
    | cons b qualifier => simpa using hkind
  · rw [localName_bare hcolon] at hsvg
    rw [hsvg]
    exact .bare

theorem unbroken (h : RootName name) : ∀ b ∈ name, isSpace b = false := by
  cases h with
  | bare => decide +kernel
  | qualified _ hspace =>
    intro b hb
    rcases List.mem_append.1 hb with hb | hb
    · exact hspace b hb
    · have hsvg : ∀ b ∈ colon :: ascii "svg", isSpace b = false := by decide +kernel
      exact hsvg b hb

theorem unslashed (h : RootName name) : name.getLast? ≠ some slash := by
  cases h with
  | bare => decide
  | qualified =>
    rw [List.getLast?_append_of_ne_nil _ (by simp)]
    decide

theorem head (h : RootName name) : ∃ b rest, name = b :: rest ∧ b ∉ kinds := by
  cases h with
  | bare => exact ⟨_, _, rfl, by decide⟩
  | @qualified qualifier _ _ hkind =>
    cases qualifier with
    | nil => exact ⟨colon, _, rfl, by decide⟩
    | cons b qualifier => exact ⟨b, _, rfl, hkind b rfl⟩

end RootName

theorem tagName_slash (body : Bytes) : tagName (body ++ [slash]) = body.takeWhile (! isSpace ·) := by
  simp [tagName, slash]

theorem tagName_plain {body : Bytes} (h : body.getLast? ≠ some slash) :
    tagName body = body.takeWhile (! isSpace ·) := by
  simp only [slash] at h
  simp [tagName, h]

theorem takeWhile_name (hname : ∀ b ∈ name, isSpace b = false) :
    name.takeWhile (! isSpace ·) = name :=
  List.takeWhile_eq_self_iff.2 (by simpa using hname)

theorem takeWhile_space (hname : ∀ b ∈ name, isSpace b = false) {b : UInt8} (h : isSpace b = true)
    (rest : Bytes) : (name ++ b :: rest).takeWhile (! isSpace ·) = name := by
  rw [List.takeWhile_append_of_pos (by simpa using hname),
    List.takeWhile_cons_of_neg (by simpa using h), List.append_nil]

theorem tagName_append (hname : ∀ b ∈ name, isSpace b = false) (hlast : name.getLast? ≠ some slash)
    (htail : Behind tail) : tagName (name ++ tail) = name := by
  cases htail with
  | nothing =>
    rw [List.append_nil, tagName_plain hlast]
    exact takeWhile_name hname
  | slash =>
    rw [tagName_slash]
    exact takeWhile_name hname
  | @space b h rest =>
    -- A slash at the very end is no part of the name either, which the space has ended.
    rcases List.eq_nil_or_concat rest with rfl | ⟨rest, c, rfl⟩
    · have hlast : (name ++ [b]).getLast? ≠ some slash := by
        rw [List.getLast?_concat]
        rintro ⟨rfl⟩
        exact absurd h (by decide)
      rw [tagName_plain hlast]
      exact takeWhile_space hname h []
    · rw [List.concat_eq_append, ← List.cons_append, ← List.append_assoc]
      by_cases hc : c = slash
      · rw [hc, tagName_slash]
        exact takeWhile_space hname h rest
      · have hlast : (name ++ b :: rest ++ [c]).getLast? ≠ some slash := by
          rw [List.getLast?_concat]
          exact fun h => hc (Option.some.inj h)
        rw [tagName_plain hlast, List.append_assoc]
        exact takeWhile_space hname h (rest ++ [c])

theorem takeWhile_split (text : Bytes) :
    (text.takeWhile (! isSpace ·) = text ∨
      ∃ b rest, isSpace b = true ∧ text = text.takeWhile (! isSpace ·) ++ b :: rest) ∧
      ∀ b ∈ text.takeWhile (! isSpace ·), isSpace b = false := by
  induction text with
  | nil => simp
  | cons c text ih =>
    by_cases hc : isSpace c = true
    · exact ⟨.inr ⟨c, text, hc, by simp [hc]⟩, by simp [hc]⟩
    · have htake : (c :: text).takeWhile (! isSpace ·) = c :: text.takeWhile (! isSpace ·) :=
        List.takeWhile_cons_of_pos (by simpa using hc)
      obtain ⟨hsplit, hname⟩ := ih
      rw [htake]
      refine ⟨?_, by simpa using ⟨by simpa using hc, hname⟩⟩
      rcases hsplit with hall | ⟨b, rest, hb, hrest⟩
      · exact .inl (congrArg (c :: ·) hall)
      · exact .inr ⟨b, rest, hb, congrArg (c :: ·) hrest⟩

theorem tagName_split (body : Bytes) :
    (∃ tail, Behind tail ∧ body = tagName body ++ tail) ∧ ∀ b ∈ tagName body, isSpace b = false := by
  by_cases hslash : body.getLast? = some slash
  · obtain ⟨front, rfl⟩ := List.getLast?_eq_some_iff.1 hslash
    rw [tagName_slash]
    obtain ⟨hsplit, hname⟩ := takeWhile_split front
    refine ⟨?_, hname⟩
    rcases hsplit with hall | ⟨b, rest, hb, hrest⟩
    · exact ⟨_, .slash, by rw [hall]⟩
    · refine ⟨b :: (rest ++ [slash]), .space hb _, ?_⟩
      rw [← List.cons_append, ← List.append_assoc, ← hrest]
  · rw [tagName_plain hslash]
    obtain ⟨hsplit, hname⟩ := takeWhile_split body
    refine ⟨?_, hname⟩
    rcases hsplit with hall | ⟨b, rest, hb, hrest⟩
    · exact ⟨[], .nothing, by rw [hall, List.append_nil]⟩
    · exact ⟨b :: rest, .space hb rest, hrest⟩

end Markup

end ImageProbe
