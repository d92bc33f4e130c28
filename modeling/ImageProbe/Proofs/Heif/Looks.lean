import ImageProbe.Proofs.Heif.Document

namespace ImageProbe

open Box ByteReader

namespace Heif

variable {brands : BrandRule} {children : Children} {format : ImageFormat} {f : Findings}

def findings : Step Findings Outcome → Findings
  | .more f => f
  | .done o => o.2

theorem findings_visit (h : Header) (look : Script (Step Findings Outcome)) (t : Tape) :
    findings ((h.visit (fun f e => (.error e, f)) look).eval t).1 =
      findings (look.eval (t.clip h.payload)).1 := by
  rcases hlook : (look.eval (t.clip h.payload)).1 with f | o
  · rw [Header.visit_more hlook]
    split
    · rfl
    · rfl
  · rw [Header.visit_done hlook]

/-- A box that the walk looks into, with what comes of its payload. -/
structure Look where
  header : Header
  payload : Bytes

abbrev Journal := Nat → Findings → Tape → List Look

def looksInto (journal : Journal) (h : Header) (f : Findings) (t : Tape) : List Look :=
  ⟨h, t.bytes⟩ ::
    if h.name = ascii "meta" then journal (h.payload - 4) f (t.drop 4)
    else if h.name = ascii "iprp" ∨ h.name = ascii "ipco" then journal h.payload f t
    else []

def holders : List Bytes := [ascii "meta", ascii "iprp", ascii "ipco"]

theorem holders_heeded {name : Bytes} (h : name ∉ heeded) : name ∉ holders := by
  have hsub : holders ⊆ heeded := by decide
  exact fun hmem => h (hsub hmem)

theorem looksInto_metadata {journal : Journal} {h : Header} {t : Tape}
    (hname : h.name = ascii "meta") :
    looksInto journal h f t = ⟨h, t.bytes⟩ :: journal (h.payload - 4) f (t.drop 4) := by
  rw [looksInto, if_pos hname]

theorem looksInto_properties {journal : Journal} {h : Header} {t : Tape}
    (hname : h.name = ascii "iprp" ∨ h.name = ascii "ipco") :
    looksInto journal h f t = ⟨h, t.bytes⟩ :: journal h.payload f t := by
  have hmeta : h.name ≠ ascii "meta" := by
    rcases hname with hname | hname <;> rw [hname] <;> decide
  rw [looksInto, if_neg hmeta, if_pos hname]

theorem looksInto_leaf {journal : Journal} {h : Header} {t : Tape} (hname : h.name ∉ holders) :
    looksInto journal h f t = [⟨h, t.bytes⟩] := by
  simp only [holders, List.mem_cons, List.not_mem_nil, or_false, not_or] at hname
  rw [looksInto, if_neg hname.1, if_neg (not_or.2 hname.2)]

def boxesLooks (brands : BrandRule) (children : Children) (journal : Journal)
    (format : ImageFormat) : Nat → Findings → Tape → List Look
  | 0, _, _ => []
  | most + 1, f, t =>
    let head := (t.haul headLength).bytes
    if head.length < headLength then []
    else match (Box.header format head).run.eval (t.drop headLength) with
      | (.error _, _) => []
      | (.ok h, inside) => looksInto journal h f (inside.clip h.payload) ++
        match (box brands children format head f).eval (t.drop headLength) with
        | (.more f', rest) => boxesLooks brands children journal format most f' rest
        | (.done _, _) => []

def levelLooks (brands : BrandRule) : Nat → Journal
  | 0, _, _, _ => []
  | spare + 1, room, f, t =>
    boxesLooks brands (enclosed (maxDepth - spare) (level brands spare)) (levelLooks brands spare)
      f.errorFormat (room / headLength) f t

/-- All the boxes that a walk over the tape looks into, in the order of the looks. -/
def looks (brands : BrandRule) (t : Tape) : List Look :=
  levelLooks brands (maxDepth + 1) t.bytes.length (.ofBrands brands) t

theorem boxesLooks_empty {journal : Journal} (most : Nat) (f : Findings) {t : Tape}
    (ht : t.bytes = []) : boxesLooks brands children journal format most f t = [] := by
  cases most with
  | zero => rfl
  | succ most =>
    have hshort : (t.haul headLength).bytes.length < headLength := by
      rw [Tape.haul, ht, List.take_nil]
      exact Nat.succ_pos 7
    exact if_pos hshort

theorem levelLooks_empty (spare room : Nat) (f : Findings) {t : Tape} (ht : t.bytes = []) :
    levelLooks brands spare room f t = [] := by
  cases spare with
  | zero => rfl
  | succ spare => exact boxesLooks_empty _ f ht

variable {ρ : Type} [ByteReader ρ]

theorem boxes_short (most : Nat) (f : Findings) {t : Tape}
    (ht : (t.haul headLength).bytes.length < headLength) :
    (boxes brands children format most f).eval t =
      ((levelEnd (t.haul headLength).shortage, f), t.drop headLength) := by
  cases most with
  | zero => rfl
  | succ most =>
    rw [boxes, Script.eval, if_pos ht]
    rfl

theorem boxes_box (most : Nat) (f : Findings) {t : Tape}
    (ht : ¬ (t.haul headLength).bytes.length < headLength) :
    (boxes brands children format (most + 1) f).eval t =
      match (box brands children format (t.haul headLength).bytes f).eval (t.drop headLength) with
      | (.done o, rest) => (o, rest)
      | (.more f', rest) => (boxes brands children format most f').eval rest := by
  rw [boxes, Script.eval, if_neg ht, Script.eval_bind]
  rcases (box brands children format (t.haul headLength).bytes f).eval (t.drop headLength) with
    ⟨f' | o, rest⟩
  · rfl
  · rfl

theorem eval_round (brands : BrandRule) (f : Findings) {t : Tape}
    (ht : ¬ (t.haul headLength).bytes.length < headLength) :
    ((walk brands).turn f).eval t =
      (box brands (enclosed 0 (level brands maxDepth)) (Findings.ofBrands brands).errorFormat
        (t.haul headLength).bytes f).eval (t.drop headLength) := by
  change (turn brands f).eval t = _
  rw [turn, Script.eval, if_neg ht]

theorem eval_round_short (brands : BrandRule) (f : Findings) {t : Tape}
    (ht : (t.haul headLength).bytes.length < headLength) :
    ((walk brands).turn f).eval t =
      (.done (levelEnd (t.haul headLength).shortage, f), t.drop headLength) := by
  change (turn brands f).eval t = _
  rw [turn, Script.eval, if_pos ht]
  rfl

theorem runFrom_short (brands : BrandRule) (f : Findings) {s : Session ρ}
    (hs : ((tape s.reader).haul headLength).bytes.length < headLength) :
    ((walk brands).runFrom .never f s).1 =
      (levelEnd ((tape s.reader).haul headLength).shortage, f) := by
  rw [Walk.runFrom_done (congrArg Prod.fst (eval_round_short brands f hs))]

theorem round_length {most : Nat} {f f' : Findings} {t rest : Tape}
    (hround : ((walk brands).turn f).eval t = (.more f', rest))
    (hlong : ¬ (t.haul headLength).bytes.length < headLength)
    (hmost : t.bytes.length < headLength * (most + 1 + 1)) :
    rest.bytes.length < headLength * (most + 1) := by
  have hlen := Script.eval_length_le (box brands (enclosed 0 (level brands maxDepth))
    (Findings.ofBrands brands).errorFormat (t.haul headLength).bytes f) (t.drop headLength)
  rw [← eval_round brands f hlong, hround, Tape.drop_length] at hlen
  rw [headLength] at hlen hmost ⊢
  simp only at hlen
  omega

theorem runFrom_boxes (brands : BrandRule) {most : Nat} (f : Findings) {s : Session ρ}
    (hmost : (tape s.reader).bytes.length < headLength * (most + 1)) :
    ((walk brands).runFrom .never f s).1 =
      ((boxes brands (enclosed 0 (level brands maxDepth)) (Findings.ofBrands brands).errorFormat
        most f).eval (tape s.reader)).1 := by
  -- Each box takes a head at least, so the bytes run out before the number of boxes does.
  induction most generalizing f s with
  | zero =>
    have hshort : ((tape s.reader).haul headLength).bytes.length < headLength := by
      rw [Tape.haul, List.length_take]
      omega
    rw [boxes_short 0 f hshort, runFrom_short brands f hshort]
  | succ most ih =>
    by_cases hshort : ((tape s.reader).haul headLength).bytes.length < headLength
    · rw [boxes_short (most + 1) f hshort, runFrom_short brands f hshort]
    · rw [boxes_box most f hshort, ← eval_round brands f hshort]
      rcases hround : ((walk brands).turn f).eval (tape s.reader) with ⟨f' | o, rest⟩
      · have hrest := round_length hround hshort hmost
        obtain ⟨rfl, hrun⟩ := Walk.runFrom_more hround
        rw [hrun]
        exact ih f' hrest
      · rw [Walk.runFrom_done (congrArg Prod.fst hround)]

/-- A walk that no check stops comes to what the boxes of the whole tape come to as one level. -/
theorem run_level (brands : BrandRule) (s : Session ρ) :
    ((walk brands).run .never s).1 =
      ((level brands (maxDepth + 1) (tape s.reader).bytes.length (.ofBrands brands)).eval
        (tape s.reader)).1 := by
  refine runFrom_boxes brands (.ofBrands brands) ?_
  rw [headLength]
  omega

end Heif

end ImageProbe
