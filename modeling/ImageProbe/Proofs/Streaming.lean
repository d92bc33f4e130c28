import ImageProbe.Proofs.Prompt.Decoders
import ImageProbe.Proofs.Settled

namespace ImageProbe

open ByteReader Reading

namespace Table

/-- The decoders that need all the bytes that they ask for. -/
def streaming : List Decoder :=
  [Jpeg.decoder, Tiff.decoder, Webp.decoder, Jxl.decoder, Icon.decoder, png.decoder, gif.decoder,
    Bitmap.decoder, pdf.decoder]

theorem streaming_prompt {d : Decoder} (hd : d ∈ streaming) : Walk.Prompt d Lost := by
  have hreading {p : Reading ImageInfo} (hp : Prompt p) : Walk.Prompt (Decoder.ofReading p) Lost :=
    .ofScript hp.lost
  simp only [streaming, List.mem_cons, List.not_mem_nil, or_false] at hd
  rcases hd with rfl | rfl | rfl | rfl | rfl | rfl | rfl | rfl | rfl
  · exact Jpeg.decoder_prompt
  · exact hreading Tiff.reading_prompt
  · exact hreading Webp.reading_prompt
  · exact Jxl.decoder_prompt
  · exact hreading (Icon.directory_prompt.map _)
  · exact hreading png.reading_prompt
  · exact hreading gif.reading_prompt
  · exact hreading Bitmap.reading_prompt
  · exact hreading pdf.reading_prompt

end Table

/-- No streaming decoder reads on, guesses or swallows an end: what it tells rests on the bytes that it
took. -/
theorem streaming_restsOnTaken :
    (∀ d ∈ Table.streaming, RestsOnTaken d) ∧ RestsOnTaken (.ofScript Icon.directory.run) := by
  constructor
  · intro d hd
    exact (Table.streaming_prompt hd).restsOnTaken
  · exact (Walk.Prompt.ofScript Icon.directory_prompt.lost).restsOnTaken

def partedContainer : Tape where
  bytes := Jxl.signature ++ [0, 0, 0, 15] ++ ascii "jxlp" ++ [0, 0, 0, 0, 0xff, 0x0a, 0x13] ++
    [0, 0, 0, 16] ++ ascii "Exif" ++ [0, 0, 0, 0, 73, 73, 42, 0] ++
    [0, 0, 0, 24] ++ ascii "jxlp" ++ [0, 0, 0, 1, 0x1c, 0, 0, 0, 0, 0, 0, 0, 0, 0, 0, 0]

theorem restsOnTaken_partedContainer :
    let fault : Fault := ⟨.other, "reset"⟩
    let before : Tape := ⟨partedContainer.bytes.take 40, some fault⟩
    let behind : Tape := ⟨partedContainer.bytes.take 63, some fault⟩
    (Jxl.decoder.answer .never partedContainer []).1 = .ok ⟨.jxl, 120, 80⟩ ∧
      (Jxl.decoder.answer .never before []).1 = .error (.transport fault) ∧
      taken before (Jxl.decoder.answer .never before []).2.reader = 40 ∧
      (Jxl.decoder.answer .never behind []).1 = .ok ⟨.jxl, 120, 80⟩ := by
  intro fault before behind
  have hok : (Jxl.decoder.answer .never partedContainer []).1 = .ok ⟨.jxl, 120, 80⟩ := by
    decide +kernel
  have htaken : taken partedContainer (Jxl.decoder.answer .never partedContainer []).2.reader = 63 := by
    decide +kernel
  have hjxl : Jxl.decoder ∈ Table.streaming := by
    simp only [Table.streaming, List.mem_cons, true_or, or_true]
  have hrests (r : Tape) := streaming_restsOnTaken.1 Jxl.decoder hjxl .never partedContainer r [] []
    (.inl ⟨_, hok⟩)
  rw [htaken] at hrests
  obtain ⟨-, hcut⟩ := hrests before
  obtain ⟨hlost, hall⟩ := (hcut 40 (by decide)).2 fault (by decide) rfl
  obtain ⟨hsame, -⟩ := hrests behind
  obtain ⟨hbehind, -⟩ := hsame (by decide +kernel)
  exact ⟨hok, hlost, hall, hbehind.trans hok⟩

end ImageProbe
