import ImageProbe.Heif

namespace ImageProbe

namespace Heif

def heeded : List Bytes :=
  [ascii "ftyp", ascii "meta", ascii "hdlr", ascii "iprp", ascii "ipco", ascii "ispe", ascii "irot",
    ascii "mdat"]

theorem name_cases (name : Bytes) :
    name = ascii "ftyp" ∨ name = ascii "meta" ∨ name = ascii "hdlr" ∨
      (name = ascii "iprp" ∨ name = ascii "ipco") ∨ name = ascii "ispe" ∨ name = ascii "irot" ∨
      name = ascii "mdat" ∨ name ∉ heeded := by
  simp only [heeded, List.mem_cons, List.not_mem_nil, or_false]
  grind

def goOn : Outcome → Step Findings Outcome
  | (.ok (), f) => .more f
  | outcome => .done outcome

def heed (f : Findings) : Except ProbeError Unit → Script (Step Findings Outcome)
  | .ok () => pure (.more f)
  | .error e => do
    writeNote (.debug s!"hdlr: {e.message} (ignored)")
    pure (.done (.ok (), f))

def halt (f : Findings) (why : StopReason) : Script (Step Findings Outcome) :=
  .done (.done (.error (.stopped why), f))

variable {brands : BrandRule} {children : Children} {h : Box.Header} {f : Findings}

theorem lookInto_eq (brands : BrandRule) (children : Children) (h : Box.Header) (f : Findings) :
    lookInto brands children h f = .check (halt f) (content brands children h f) := rfl

theorem lookInto_fileType (hname : h.name = ascii "ftyp") :
    lookInto brands children h f = .check (halt f) (reading f (fileType brands h f)) := by
  rw [lookInto_eq, content, if_pos hname]

theorem lookInto_metadata (hname : h.name = ascii "meta") :
    lookInto brands children h f = .check (halt f) (.done <$> metadata children h f) := by
  rw [lookInto_eq, content, hname, if_neg (by decide), if_pos rfl]

theorem lookInto_handler (hname : h.name = ascii "hdlr") :
    lookInto brands children h f = .check (halt f) ((handler h f).run >>= heed f) := by
  rw [lookInto_eq, content, hname, if_neg (by decide), if_neg (by decide), if_pos rfl]
  apply congrArg
  apply congrArg
  funext r
  rcases r with e | u
  · rfl
  · rfl

theorem lookInto_properties (hname : h.name = ascii "iprp" ∨ h.name = ascii "ipco") :
    lookInto brands children h f =
      .check (halt f) (children h.payload f >>= fun o => pure (goOn o)) := by
  have hother : h.name ≠ ascii "ftyp" ∧ h.name ≠ ascii "meta" ∧ h.name ≠ ascii "hdlr" := by
    rcases hname with hname | hname <;> rw [hname] <;> decide
  rw [lookInto_eq, content, if_neg hother.1, if_neg hother.2.1, if_neg hother.2.2, if_pos hname]
  apply congrArg
  apply congrArg
  funext o
  rcases o with ⟨e | u, f'⟩
  · rfl
  · rfl

theorem lookInto_extent (hname : h.name = ascii "ispe") :
    lookInto brands children h f = .check (halt f) (reading f (extent h f)) := by
  rw [lookInto_eq, content, hname, if_neg (by decide), if_neg (by decide), if_neg (by decide),
    if_neg (by decide), if_pos rfl]

theorem lookInto_rotation (hname : h.name = ascii "irot") :
    lookInto brands children h f = .check (halt f) (reading f (rotation h f)) := by
  rw [lookInto_eq, content, hname, if_neg (by decide), if_neg (by decide), if_neg (by decide),
    if_neg (by decide), if_neg (by decide), if_pos rfl]

theorem lookInto_media (hname : h.name = ascii "mdat") :
    lookInto brands children h f =
      .check (halt f) (pure (.done (refusal f .mediaBeforeMeta, f))) := by
  rw [lookInto_eq, content, hname, if_neg (by decide), if_neg (by decide), if_neg (by decide),
    if_neg (by decide), if_neg (by decide), if_neg (by decide), if_pos rfl]

theorem lookInto_other (hname : h.name ∉ heeded) :
    lookInto brands children h f = .check (halt f) (pure (.more f)) := by
  simp only [heeded, List.mem_cons, List.not_mem_nil, or_false, not_or] at hname
  rw [lookInto_eq]
  simp only [content, hname, or_self, if_false]

end Heif

end ImageProbe
