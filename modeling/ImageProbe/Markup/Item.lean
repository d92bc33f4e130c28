import ImageProbe.Bytes.Utf8

/-!
The items of a document, as the event reader of quick-xml 0.37.5 finds them with its default
settings. What `<` begins is told by the next bytes:

* `<!--` begins a comment, which ends with the first `-->` behind it; hyphens within it are allowed.
* `<![CDATA[` begins character data, which end with the first `]]>`.
* `<!d` and `<!D` begin a doctype. It ends where its angle brackets are balanced, quotes or not; it
  has to spell `doctype`, in any case, and to go on with more than space. Any other `<!` is unknown.
* `<?` begins an instruction, which ends with the first `?>` that does not share its question mark.
* `</` begins an end tag, an error before the first element, whose name is told without the space
  behind it.
* Anything else begins a tag. Tags end with the first `>` outside of quotes; the name reaches to the
  first space, and a slash right before the end makes the element an empty one.

An item that is not closed before the end of the document is an error.
-/

namespace ImageProbe

namespace Markup

inductive MarkupError
  | unknownMarkup
  | openInstruction
  | openComment
  | openDoctype
  | openCdata
  | openTag
  | doctypeWithoutName
  | strayEndTag (name : String)
  deriving DecidableEq

def MarkupError.message : MarkupError → String
  | unknownMarkup => "syntax error: unknown or missed symbol in markup"
  | openInstruction => "syntax error: processing instruction or xml declaration not closed: " ++
      "`?>` not found before end of input"
  | openComment => "syntax error: comment not closed: `-->` not found before end of input"
  | openDoctype => "syntax error: DOCTYPE not closed: `>` not found before end of input"
  | openCdata => "syntax error: CDATA not closed: `]]>` not found before end of input"
  | openTag => "syntax error: tag not closed: `>` not found before end of input"
  | doctypeWithoutName => "ill-formed document: `<!DOCTYPE>` declaration does not contain " ++
      "a name of a document type"
  | strayEndTag name => s!"ill-formed document: close tag `</{name}>` does not match any open tag"

/-- What `<` begins: a tag, character data, or something that may stand before the root. -/
inductive Item
  | tag (name : Bytes)
  | cdata
  | prolog
  deriving DecidableEq

def lessThan : UInt8 := 0x3c

def greaterThan : UInt8 := 0x3e

def isSpace (b : UInt8) : Bool := b = 0x20 || b = 9 || b = 10 || b = 13

def isBlank (b : UInt8) : Bool := isSpace b || b = 12

def after (mark : Bytes) : Bytes → Option Bytes
  | [] => none
  | b :: bs =>
    if mark.isPrefixOf (b :: bs) then some ((b :: bs).drop mark.length) else after mark bs

def afterTag : Option UInt8 → Bytes → Option Bytes
  | _, [] => none
  | some quote, b :: bs => afterTag (if b = quote then none else some quote) bs
  | none, b :: bs =>
    if b = greaterThan then some bs
    else afterTag (if b = 0x22 ∨ b = 0x27 then some b else none) bs

def afterDoctype : Nat → Bytes → Option Bytes
  | _, [] => none
  | depth, b :: bs =>
    if b = lessThan then afterDoctype (depth + 1) bs
    else if b = greaterThan then
      match depth with
      | 0 => some bs
      | depth + 1 => afterDoctype depth bs
    else afterDoctype depth bs

def before (rest bs : Bytes) : Bytes := bs.take (bs.length - (rest.length + 1))

def comment (bs : Bytes) : Except MarkupError (Item × Bytes) :=
  if (ascii "--").isPrefixOf bs then
    match after (ascii "-->") (bs.drop 2) with
    | some rest => .ok (.prolog, rest)
    | none => .error .openComment
  else .error .openComment

def cdata (bs : Bytes) : Except MarkupError (Item × Bytes) :=
  if (ascii "[CDATA[").isPrefixOf bs then
    match after (ascii "]]>") bs with
    | some rest => .ok (.cdata, rest)
    | none => .error .openCdata
  else .error .openCdata

def lower (b : UInt8) : UInt8 := if 0x41 ≤ b ∧ b ≤ 0x5a then b + 0x20 else b

def doctype (bs : Bytes) : Except MarkupError (Item × Bytes) :=
  match afterDoctype 0 bs with
  | none => .error .openDoctype
  | some rest =>
    let body := before rest bs
    if (body.take 7).map lower ≠ ascii "doctype" then .error .openDoctype
    else if (body.drop 7).all isSpace then .error .doctypeWithoutName
    else .ok (.prolog, rest)

def instruction (bs : Bytes) : Except MarkupError (Item × Bytes) :=
  if bs.head? = some greaterThan then .error .openInstruction
  else match after (ascii "?>") bs with
    | some rest => .ok (.prolog, rest)
    | none => .error .openInstruction

/-- The name in an end tag: the space behind it is dropped, but all space alone is a name. -/
def endName (body : Bytes) : Bytes :=
  if body.all isSpace then body else (body.reverse.dropWhile isSpace).reverse

def endTag (bs : Bytes) : Except MarkupError (Item × Bytes) :=
  match afterTag none bs with
  | some rest => .error (.strayEndTag ((Utf8.decode? (endName (before rest bs))).getD ""))
  | none => .error .openTag

def tagName (body : Bytes) : Bytes :=
  let body := if body.getLast? = some 0x2f then body.dropLast else body
  body.takeWhile (! isSpace ·)

def tag (bs : Bytes) : Except MarkupError (Item × Bytes) :=
  match afterTag none bs with
  | some rest => .ok (.tag (tagName (before rest bs)), rest)
  | none => .error .openTag

def item : Bytes → Except MarkupError (Item × Bytes)
  | [] => .error .openTag
  | 0x21 :: bs =>
    match bs.head? with
    | some 0x5b => cdata bs
    | some 0x2d => comment bs
    | some 0x44 | some 0x64 => doctype bs
    | _ => .error .unknownMarkup
  | 0x2f :: bs => endTag bs
  | 0x3f :: bs => instruction bs
  | bs => tag bs

theorem length_after {mark bs rest : Bytes} (h : after mark bs = some rest) :
    rest.length ≤ bs.length := by
  induction bs with
  | nil => simp [after] at h
  | cons b bs ih =>
    unfold after at h
    split at h
    · cases h
      simp
    · have := ih h
      simp
      omega

theorem length_afterTag {quote : Option UInt8} {bs rest : Bytes}
    (h : afterTag quote bs = some rest) : rest.length ≤ bs.length := by
  fun_induction afterTag quote bs with
  | case1 => simp at h
  | case2 quote b bs ih => exact Nat.le_succ_of_le (ih h)
  | case3 bs => cases h; simp
  | case4 b bs hb ih => exact Nat.le_succ_of_le (ih h)

theorem length_afterDoctype {depth : Nat} {bs rest : Bytes}
    (h : afterDoctype depth bs = some rest) : rest.length ≤ bs.length := by
  fun_induction afterDoctype depth bs with
  | case1 => simp at h
  | case2 depth bs ih => exact Nat.le_succ_of_le (ih h)
  | case3 bs => cases h; simp
  | case4 bs hb depth ih => exact Nat.le_succ_of_le (ih h)
  | case5 depth b bs hl hg ih => exact Nat.le_succ_of_le (ih h)

theorem length_comment {bs rest : Bytes} {i : Item} (h : comment bs = .ok (i, rest)) :
    rest.length ≤ bs.length := by
  unfold comment at h
  split at h
  · split at h
    · next hr =>
      cases h
      exact Nat.le_trans (length_after hr) (by simp)
    · simp at h
  · simp at h

theorem length_cdata {bs rest : Bytes} {i : Item} (h : cdata bs = .ok (i, rest)) :
    rest.length ≤ bs.length := by
  unfold cdata at h
  split at h
  · split at h
    · next hr =>
      cases h
      exact length_after hr
    · simp at h
  · simp at h

theorem length_doctype {bs rest : Bytes} {i : Item} (h : doctype bs = .ok (i, rest)) :
    rest.length ≤ bs.length := by
  unfold doctype at h
  split at h
  · simp at h
  · next hr =>
    simp only at h
    split at h
    · simp at h
    · split at h
      · simp at h
      · cases h
        exact length_afterDoctype hr

theorem length_instruction {bs rest : Bytes} {i : Item} (h : instruction bs = .ok (i, rest)) :
    rest.length ≤ bs.length := by
  unfold instruction at h
  split at h
  · simp at h
  · split at h
    · next hr =>
      cases h
      exact length_after hr
    · simp at h

theorem endTag_ne_ok (bs : Bytes) (p : Item × Bytes) : endTag bs ≠ .ok p := by
  unfold endTag
  split <;> simp

theorem length_tag {bs rest : Bytes} {i : Item} (h : tag bs = .ok (i, rest)) :
    rest.length ≤ bs.length := by
  unfold tag at h
  split at h
  · next hr =>
    cases h
    exact length_afterTag hr
  · simp at h

theorem length_item {bs rest : Bytes} {i : Item} (h : item bs = .ok (i, rest)) :
    rest.length ≤ bs.length := by
  unfold item at h
  split at h
  · simp at h
  · refine Nat.le_succ_of_le ?_
    split at h
    · exact length_cdata h
    · exact length_comment h
    · exact length_doctype h
    · exact length_doctype h
    · simp at h
  · exact absurd h (endTag_ne_ok _ _)
  · exact Nat.le_succ_of_le (length_instruction h)
  · exact length_tag h

end Markup

end ImageProbe
