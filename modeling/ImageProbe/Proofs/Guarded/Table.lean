import ImageProbe.Proofs.Guarded.Headers
import ImageProbe.Proofs.Guarded.Heif
import ImageProbe.Proofs.Guarded.Jpeg
import ImageProbe.Proofs.Guarded.Jxl
import ImageProbe.Proofs.Guarded.Webp
import ImageProbe.Proofs.LookAhead.Calls
import ImageProbe.Table.Builtin

namespace ImageProbe

open Guard

variable {ρ : Type} [ByteReader ρ]

namespace Icon

open Reading

def Entry.guardedOfBytes (bs : Bytes) : Option Entry := do
  let width := littleEndian (← part bs 0 1)
  let height := littleEndian (← part bs 1 1)
  let size := littleEndian (← part bs 8 4)
  let offset := littleEndian (← part bs 12 4)
  pure ⟨width, height, size, offset⟩

def guardedEntries : Nat → Option Entry → GuardedReading (Option Entry)
  | 0, best => pure best
  | left + 1, best => do
    checkStop
    let bs ← exactly 16
    guardedEntries left (choose best (← Entry.guardedOfBytes bs))

def guardedDirectory : GuardedReading Entry := do
  let head ← exactly 6
  require .ico ((← part head 0 4) = [0, 0, 1, 0]) .invalidIconDirectory
  match ← guardedEntries (littleEndian (← behind head 4)) none with
  | none => refuse .ico .emptyIconDirectory
  | some e =>
    writeNote (.debug
      s!"best entry: {e.width}x{e.height}, {e.size} bytes at {e.offset}")
    pure e

def guarded : GuardedDecoder :=
  .ofReading ((fun e => ⟨.ico, e.width, e.height⟩) <$> guardedDirectory)

def Entry.Narrow (e : Entry) : Prop := e.size < range32 ∧ e.offset < range32

def Kept (best : Option Entry) : Prop := ∀ e, best = some e → e.Narrow

open GuardedReading

theorem Entry.ofBytes_narrow {bs : Bytes} (h : bs.length = 16) : (ofBytes bs).Narrow := by
  have hsize : littleEndian (slice bs 8 4) < range32 := littleEndian_slice_lt (by omega)
  have hoffset : littleEndian (slice bs 12 4) < range32 := littleEndian_slice_lt (by omega)
  exact ⟨hsize, hoffset⟩

theorem Kept.choose {best : Option Entry} (h : Kept best) {e : Entry} (he : e.Narrow) :
    Kept (choose best e) := by
  intro c hc
  cases best with
  | none => exact Option.some.inj hc ▸ he
  | some b =>
    rw [Icon.choose] at hc
    split at hc
    · exact Option.some.inj hc ▸ he
    · exact h c hc

theorem guardedEntries_sound (left : Nat) {best : Option Entry} (h : Kept best) :
    Sound Kept (guardedEntries left best) (entries left best) := by
  induction left generalizing best with
  | zero => exact .pure h
  | succ left ih =>
    apply Sound.checkStop
    apply (Sound.exactly 16).bind
    intro bs hbs
    have hentry : Entry.guardedOfBytes bs = some (.ofBytes bs) := by
      apply bind_eq (part_eq (by omega))
      apply bind_eq (part_eq (by omega))
      apply bind_eq (part_eq (by omega))
      apply bind_eq (part_eq (by omega))
      rfl
    apply Sound.guard hentry
    exact ih (h.choose (Entry.ofBytes_narrow hbs))

theorem guardedDirectory_sound : Sound Entry.Narrow guardedDirectory directory := by
  apply (Sound.exactly 6).bind
  intro head hhead
  apply Sound.guard (part_eq (by omega))
  apply (Sound.require _ _ _).bind
  intro _ _
  apply Sound.guard (behind_eq (by omega))
  have hnone : Kept none := nofun
  apply (guardedEntries_sound _ hnone).bind
  rintro (_ | e) hkept
  · exact .refuse _ _ _
  · exact .note _ (.pure (hkept e rfl))

theorem guarded_sound : guarded.Sound decoder :=
  .ofReading (guardedDirectory_sound.map (R := fun _ => True) fun _ _ => trivial)

end Icon

namespace LookAhead

def guardedLook (s : LookAhead ρ) (n : Nat) : Option (Except Fault Bytes × LookAhead ρ) := do
  let _ ← add range64 s.handed n
  pure (s.look n)

theorem guardedLook_eq {s : LookAhead ρ} {n : Nat} (hs : s.handed = 0) (hn : n < range64) :
    s.guardedLook n = some (s.look n) := by
  apply bind_eq (add_eq (by omega))
  rfl

end LookAhead

structure GuardedEntry extends Entry where
  guarded : GuardedDecoder

abbrev GuardedTable := List GuardedEntry

namespace GuardedTable

def plain (t : GuardedTable) : Table := t.map (·.toEntry)

def register : GuardedTable → GuardedEntry → GuardedTable
  | [], e => [e]
  | f :: t, e => if e.exactness ≤ f.exactness then f :: register t e else e :: f :: t

def search : GuardedTable → LookAhead ρ →
    Option (Except Fault (Option GuardedEntry) × LookAhead ρ)
  | [], s => pure (.ok none, s)
  | e :: t, s => (s.guardedLook e.pattern.length).bind fun
    | (.error f, s) => some (.error f, s)
    | (.ok bs, s) => if Entry.accepts e.pattern bs then some (.ok (some e), s) else search t s

def probe (table : GuardedTable) (limits : Limits) (stop : Stop) (s : Session (LookAhead ρ)) :
    Option (Except ProbeError ImageInfo × Session (LookAhead ρ)) :=
  (table.search s.reader).bind fun
  | (.error f, reader) => some (.error (.ofFault f), { s with reader })
  | (.ok (some e), reader) =>
    let matched := Note.debug ("matched " ++ e.describe)
    e.guarded.decode stop { s with reader, log := matched :: s.log }
  | (.ok none, reader) => do
    match ← reader.guardedLook limits.svgWindow with
    | (.error f, reader) => pure (.error (.ofFault f), { s with reader })
    | (.ok bs, reader) =>
      let (verdict, s) := (Markup.judge bs).run stop { s with reader }
      pure (if verdict then .ok Markup.svgInfo else .error .unknownFormat, s)

def Sound (t : GuardedTable) : Prop :=
  ∀ e ∈ t, e.guarded.Sound e.decoder ∧ e.pattern.length < range64

theorem search_eq {t : GuardedTable} (ht : t.Sound) {s : LookAhead ρ} (hs : s.handed = 0) :
    ∃ found : Except Fault (Option GuardedEntry),
      t.search s = some (found, (t.plain.search s).2) ∧
      (t.plain.search s).1 = found.map (Option.map (·.toEntry)) ∧
      (∀ e, found = .ok (some e) → e ∈ t) ∧ (t.plain.search s).2.handed = 0 := by
  induction t generalizing s with
  | nil => exact ⟨.ok none, rfl, rfl, nofun, hs⟩
  | cons e t ih =>
    obtain ⟨-, hpattern⟩ := ht e (.head _)
    have hlook := LookAhead.guardedLook_eq hs hpattern
    have hhanded := LookAhead.look_handed s e.pattern.length
    rcases hout : s.look e.pattern.length with ⟨f | bs, s'⟩
    · rw [hout] at hlook hhanded
      have hplain : (plain (e :: t)).search s = (.error f, s') := by
        change (match s.look e.pattern.length with | (.error f, s) => _ | (.ok bs, s) => _) = _
        rw [hout]
      rw [hplain]
      exact ⟨.error f, bind_eq hlook rfl, rfl, nofun, hhanded.trans hs⟩
    rw [hout] at hlook hhanded
    have hplain : (plain (e :: t)).search s =
        if Entry.accepts e.pattern bs then (.ok (some e.toEntry), s') else (plain t).search s' := by
      change (match s.look e.pattern.length with | (.error f, s) => _ | (.ok bs, s) => _) = _
      rw [hout]
      rfl
    rw [hplain]
    by_cases hfits : Entry.accepts e.pattern bs = true
    · rw [if_pos hfits]
      refine ⟨.ok (some e), bind_eq hlook (if_pos hfits), rfl, ?_, hhanded.trans hs⟩
      rintro _ ⟨⟩
      exact .head _
    · rw [if_neg hfits]
      obtain ⟨found, hsearch, hfound, hmem, hkept⟩ :=
        ih (fun f hf => ht f (.tail _ hf)) (hhanded.trans hs)
      refine ⟨found, bind_eq hlook ((if_neg hfits).trans hsearch), hfound, ?_, hkept⟩
      exact fun f hf => .tail _ (hmem f hf)

theorem probe_eq {t : GuardedTable} (ht : t.Sound) {limits : Limits}
    (hwindow : limits.svgWindow < range64) (stop : Stop) {s : Session (LookAhead ρ)}
    (hs : s.reader.handed = 0) :
    t.probe limits stop s = some (t.plain.probe limits stop s) := by
  obtain ⟨found, hsearch, hplain, hmem, hhanded⟩ := search_eq ht hs
  apply bind_eq hsearch
  rw [Table.probe]
  rcases hout : t.plain.search s.reader with ⟨r, reader⟩
  rw [hout] at hplain hhanded
  dsimp only at hplain hhanded
  subst hplain
  rcases found with f | e | e
  · rfl
  · apply bind_eq (LookAhead.guardedLook_eq hhanded hwindow)
    change _ = some
      (match reader.look limits.svgWindow with | (.error f, reader) => _ | (.ok bs, reader) => _)
    rcases reader.look limits.svgWindow with ⟨f | bs, reader'⟩
    · rfl
    · rfl
  · exact (ht e (hmem e rfl)).1 _ stop _

theorem plain_register (t : GuardedTable) (e : GuardedEntry) :
    (register t e).plain = Table.register t.plain e.toEntry := by
  induction t with
  | nil => rfl
  | cons f t ih =>
    unfold register
    change plain _ = if e.exactness ≤ f.exactness then _ else _
    split
    · exact congrArg (f.toEntry :: ·) ih
    · rfl

theorem mem_register {t : GuardedTable} {e f : GuardedEntry} (h : f ∈ register t e) :
    f = e ∨ f ∈ t := by
  induction t with
  | nil => exact .inl (List.mem_singleton.1 h)
  | cons g t ih =>
    unfold register at h
    split at h
    · rcases List.mem_cons.1 h with rfl | htail
      · exact .inr (.head _)
      · exact (ih htail).imp_right (.tail _)
    · exact List.mem_cons.1 h

def formats : List GuardedEntry :=
  [⟨⟨[0xff, 0xd8], Jpeg.decoder⟩, Jpeg.guarded⟩,
    ⟨⟨Jxl.marker, Jxl.decoder⟩, Jxl.guarded⟩,
    ⟨⟨Jxl.signature, Jxl.decoder⟩, Jxl.guarded⟩,
    ⟨⟨pngSignature, png.decoder⟩, .ofReading guardedPng⟩,
    ⟨⟨ascii "RIFF????WEBPVP8", Webp.decoder⟩, .ofReading Webp.guardedReading⟩,
    ⟨⟨ascii "GIF8?a", gif.decoder⟩, .ofReading guardedGif⟩,
    ⟨⟨[0, 0, 1, 0], Icon.decoder⟩, Icon.guarded⟩] ++
  Table.heifBrands.map
    (fun brand => ⟨⟨ascii ("????ftyp" ++ brand), heif⟩, Heif.guarded Heif.heifBrands⟩) ++
  [⟨⟨ascii "BM", Bitmap.decoder⟩, .ofReading Bitmap.guardedReading⟩,
    ⟨⟨[0x49, 0x49, 0x2a, 0], Tiff.decoder⟩, .ofReading Tiff.guardedReading⟩,
    ⟨⟨[0x4d, 0x4d, 0, 0x2a], Tiff.decoder⟩, .ofReading Tiff.guardedReading⟩,
    ⟨⟨ascii "%PDF-", pdf.decoder⟩, .ofReading guardedPdf⟩,
    ⟨⟨ascii "<?xml ", Markup.decoder⟩, .ofReading (liftM Markup.reading)⟩,
    ⟨⟨ascii "<svg", Markup.decoder⟩, .ofReading (liftM Markup.reading)⟩]

def builtin : GuardedTable := formats.foldl register []

theorem plain_builtin : builtin.plain = Table.builtin := by
  have hfold (es t : List GuardedEntry) :
      plain (es.foldl register t) = (es.map (·.toEntry)).foldl Table.register (plain t) := by
    induction es generalizing t with
    | nil => rfl
    | cons e es ih => rw [List.foldl_cons, ih, plain_register, List.map_cons, List.foldl_cons]
  exact hfold formats []

theorem mem_builtin {e : GuardedEntry} (h : e ∈ builtin) : e ∈ formats := by
  have hfold (es t : List GuardedEntry) (h : e ∈ es.foldl register t) : e ∈ t ∨ e ∈ es := by
    induction es generalizing t with
    | nil => exact .inl h
    | cons f es ih =>
      rcases ih _ h with hregistered | hlater
      · rcases mem_register hregistered with rfl | hbefore
        · exact .inr (.head _)
        · exact .inl hbefore
      · exact .inr (.tail _ hlater)
  exact (hfold formats [] h).resolve_left List.not_mem_nil

theorem formats_sound : ∀ e ∈ formats, e.guarded.Sound e.decoder := by
  have hmarkup : (GuardedDecoder.ofReading (liftM Markup.reading)).Sound Markup.decoder :=
    .ofReading (.any Markup.reading)
  simp only [formats, List.forall_mem_append, List.forall_mem_cons, List.forall_mem_map]
  refine ⟨⟨?_, fun _ _ => Heif.guarded_sound Heif.heifBrands⟩, ?_⟩
  · exact ⟨Jpeg.guarded_sound, Jxl.guarded_sound, Jxl.guarded_sound, .ofReading guardedPng_sound,
      .ofReading Webp.guardedReading_sound, .ofReading guardedGif_sound, Icon.guarded_sound, nofun⟩
  · exact ⟨.ofReading Bitmap.guardedReading_sound, .ofReading Tiff.guardedReading_sound,
      .ofReading Tiff.guardedReading_sound, .ofReading guardedPdf_sound, hmarkup, hmarkup, nofun⟩

theorem builtin_sound : builtin.Sound := by
  have hshort : ∀ e ∈ Table.knownFormats, e.pattern.length ≤ 15 := by decide +kernel
  have hrange : 15 < range64 := by decide
  intro e he
  have hformat := mem_builtin he
  refine ⟨formats_sound e hformat, ?_⟩
  exact Nat.lt_of_le_of_lt (hshort e.toEntry (List.mem_map_of_mem hformat)) hrange

end GuardedTable

end ImageProbe
