import Popcorn.Psf.Font

/-!
# Where `locate_char` finds a glyph

`locate_char` answers `Ok` exactly for the characters up to 512 and up to the glyph count,
bounds included, and otherwise an error; it panics only on a PSF 2 header of glyph height
zero (`locateChar_eq_ok_iff`, `locateChar_eq_none_iff`). Its glyph starts at
`header_size + height * stride * c` and is `height * stride` bytes long.

For a PSF 2 font that `try_parse` accepts, whose glyph height divides the glyph size, that is
glyph `c` of the buffer, inside it (`psf2_glyph_within`). A PSF 1 font answers a stride of 8
bytes, eight times its row of one byte, so its glyphs are read 8 glyphs apart, and from the
eighth of the font on they run past the buffer (`psf1_glyph_past_end`).
-/

namespace Popcorn.Psf

theorem Psf1.tryNew_eq_ok {data : List UInt8} {f : Psf1} (h : Psf1.tryNew data = some (.ok f)) :
    f = Psf1.ofBytes data ∧ data.length = Psf1.size + f.charCount * f.charSize.toNat := by
  unfold Psf1.tryNew at h
  dsimp only at h
  split_ifs at h <;> simp only [Option.some.injEq, reduceCtorEq, Except.ok.injEq] at h
  subst h
  exact ⟨rfl, by omega⟩

theorem Psf2.tryNew_eq_ok {addr : ℕ} {data : List UInt8} {f : Psf2}
    (h : Psf2.tryNew addr data = some (.ok f)) :
    f = Psf2.ofBytes data ∧ data.length = Psf2.size + f.charCount * f.charSize := by
  unfold Psf2.tryNew at h
  dsimp only at h
  split_ifs at h <;> simp only [Option.some.injEq, reduceCtorEq, Except.ok.injEq] at h
  subst h
  exact ⟨rfl, by omega⟩

/-- Inversion of `try_parse`: the font is the PSF 1 or the PSF 2 header that accepted the
buffer. -/
theorem tryParse_eq_ok {addr : ℕ} {data : List UInt8} {font : Font}
    (h : tryParse addr data = some (.ok font)) :
    (∃ f, font = .psf1 f ∧ Psf1.tryNew data = some (.ok f)) ∨
      (∃ f, font = .psf2 f ∧ Psf2.tryNew addr data = some (.ok f)) := by
  unfold tryParse at h
  split at h
  · cases h
  · rename_i f hf
    cases h
    exact .inl ⟨f, rfl, hf⟩
  · rename_i hmagic
    obtain ⟨r, hr, hmap⟩ := Option.map_eq_some_iff.mp h
    cases r with
    | error e => cases hmap
    | ok f =>
      cases hmap
      exact .inr ⟨f, rfl, hr⟩
  · cases h

/-- `locate_char` answers `Ok` for the characters up to 512 and up to the glyph count, with
the glyph at `header_size + height * stride * c`. -/
theorem locateChar_eq_ok_iff {font : Font} {c : Char} {ch : PsfChar} :
    font.locateChar c = some (.ok ch) ↔
      c.toNat ≤ 512 ∧ c.toNat ≤ font.charCount ∧ ∃ stride, font.charStride = some stride ∧
        ch = ⟨font.charWidth, font.charHeight, stride,
          font.headerSize + font.charHeight * stride * c.toNat, font.charHeight * stride⟩ := by
  unfold Font.locateChar
  dsimp only
  split_ifs with hu he
  · simp only [Option.some.injEq, reduceCtorEq, false_iff, not_and]
    omega
  · simp only [Option.some.injEq, reduceCtorEq, false_iff, not_and]
    omega
  · simp only [Option.map_eq_some_iff, Except.ok.injEq]
    constructor
    · rintro ⟨stride, hs, rfl⟩
      exact ⟨by omega, by omega, stride, hs, rfl⟩
    · rintro ⟨-, -, stride, hs, rfl⟩
      exact ⟨stride, hs, rfl⟩

/-- `locate_char` panics only where a PSF 2 font of glyph height zero divides by it. -/
theorem locateChar_eq_none_iff {font : Font} {c : Char} :
    font.locateChar c = none ↔
      c.toNat ≤ 512 ∧ c.toNat ≤ font.charCount ∧ font.charStride = none := by
  unfold Font.locateChar
  dsimp only
  split_ifs with hu he
  · simp only [false_iff, not_and]
    omega
  · simp only [false_iff, not_and]
    omega
  · rw [Option.map_eq_none_iff]
    exact ⟨fun h => ⟨by omega, by omega, h⟩, fun h => h.2.2⟩

theorem Font.charStride_eq_none_iff (font : Font) :
    font.charStride = none ↔ ∃ f, font = .psf2 f ∧ f.glyphHeight = 0 := by
  cases font with
  | psf1 f => simp [Font.charStride]
  | psf2 f =>
    simp only [Font.charStride, Psf2.charStride, Font.psf2.injEq, exists_eq_left']
    split_ifs <;> simp_all

/-- Where its guard lets a pixel through and the pixel's byte lies in the slice, `is_set` is
bit `7 - x % 8` of byte `x / 8 + y * stride` of the glyph. -/
theorem PsfChar.isSet_eq_some {ch : PsfChar} {mem : ℕ → UInt8} {x y : ℕ} (hx : x ≤ ch.width)
    (hy : y ≤ ch.height) (hin : x / 8 + y * ch.stride < ch.dataLength) :
    ch.isSet mem x y =
      some ((mem (ch.dataOffset + (x / 8 + y * ch.stride))).toNat.testBit (7 - x % 8)) := by
  unfold PsfChar.isSet
  dsimp only
  rw [if_neg (by omega), if_pos hin, Bytes.and_one_shiftLeft_ne_zero _ (by omega)]

/-- On every glyph that `locate_char` answers, `is_set(x, height)` for `x` up to the width
passes the guard `y > height` and indexes `data[x / 8 + height * stride]`, past the slice of
`height * stride` bytes: it panics. -/
theorem isSet_panics_at_height {font : Font} {c : Char} {ch : PsfChar}
    (h : font.locateChar c = some (.ok ch)) (mem : ℕ → UInt8) {x : ℕ} (hx : x ≤ ch.width) :
    ch.isSet mem x ch.height = none := by
  obtain ⟨-, -, stride, -, rfl⟩ := locateChar_eq_ok_iff.mp h
  dsimp only at hx
  unfold PsfChar.isSet
  dsimp only
  rw [if_neg (by omega), if_neg (by omega)]

/-- On a PSF 2 font that `try_parse` accepts, with a glyph height that divides the glyph
size, the glyph of a character below the glyph count is the `char_size` bytes of that glyph
in the buffer. -/
theorem psf2_glyph_within {addr : ℕ} {data : List UInt8} {f : Psf2}
    (h : tryParse addr data = some (.ok (.psf2 f))) (hpos : 0 < f.glyphHeight)
    (hdvd : f.glyphHeight ∣ f.charSize) {c : Char} (hc : c.toNat < f.glyphCount)
    (hu : c.toNat ≤ 512) :
    ∃ ch, (Font.psf2 f).locateChar c = some (.ok ch) ∧
      ch.dataOffset = Psf2.size + c.toNat * f.charSize ∧ ch.dataLength = f.charSize ∧
      ch.dataOffset + ch.dataLength ≤ data.length := by
  have hlen : data.length = Psf2.size + f.glyphCount * f.charSize := by
    rcases tryParse_eq_ok h with ⟨g, hg, -⟩ | ⟨g, hg, hnew⟩
    · cases hg
    · cases hg
      exact (Psf2.tryNew_eq_ok hnew).2
  have hstride : (Font.psf2 f).charStride = some (f.charSize / f.glyphHeight) := by
    show f.charStride = _
    rw [Psf2.charStride, if_neg (by omega)]
  -- height * stride is the glyph size
  have hsize : f.glyphHeight * (f.charSize / f.glyphHeight) = f.charSize :=
    Nat.mul_div_cancel' hdvd
  refine ⟨_, locateChar_eq_ok_iff.mpr ⟨hu, hc.le, _, hstride, rfl⟩, ?_, hsize, ?_⟩
  · show Psf2.size + f.glyphHeight * (f.charSize / f.glyphHeight) * c.toNat = _
    rw [hsize, Nat.mul_comm]
  · show Psf2.size + f.glyphHeight * (f.charSize / f.glyphHeight) * c.toNat +
      f.glyphHeight * (f.charSize / f.glyphHeight) ≤ data.length
    rw [hsize, hlen]
    have : (c.toNat + 1) * f.charSize ≤ f.glyphCount * f.charSize := Nat.mul_le_mul_right _ hc
    calc Psf2.size + f.charSize * c.toNat + f.charSize
        = Psf2.size + (c.toNat + 1) * f.charSize := by ring
      _ ≤ Psf2.size + f.glyphCount * f.charSize := by omega

/-- A PSF 2 font of two glyphs of 8 by 8 pixels, one byte a row, all blank. -/
def psf2Font : List UInt8 :=
  [0x72, 0xb5, 0x4a, 0x86, 0, 0, 0, 0, 32, 0, 0, 0, 0, 0, 0, 0, 2, 0, 0, 0, 8, 0, 0, 0,
    8, 0, 0, 0, 8, 0, 0, 0] ++ List.replicate 16 0

/-- The second glyph of `psf2Font` is its last eight bytes. -/
theorem psf2_glyph_within_font :
    ∃ ch, (Font.psf2 (Psf2.ofBytes psf2Font)).locateChar (Char.ofNat 1) = some (.ok ch) ∧
      ch.dataOffset = Psf2.size + (Char.ofNat 1).toNat * (Psf2.ofBytes psf2Font).charSize ∧
      ch.dataLength = (Psf2.ofBytes psf2Font).charSize ∧
      ch.dataOffset + ch.dataLength ≤ psf2Font.length :=
  psf2_glyph_within (show tryParse 0 psf2Font = some (.ok (.psf2 (Psf2.ofBytes psf2Font))) by
    decide) (by decide) (by decide) (by decide) (by decide)

/-- On a PSF 1 font that `try_parse` accepts, the glyph of `c` is read `8 * char_size` bytes
long at `4 + 8 * char_size * c`; from the eighth of the font on (`char_count ≤ 8 * (c + 1)`) it
ends past the buffer. -/
theorem psf1_glyph_past_end {addr : ℕ} {data : List UInt8} {f : Psf1}
    (h : tryParse addr data = some (.ok (.psf1 f))) (hsize : 0 < f.charSize.toNat) {c : Char}
    (hc : c.toNat ≤ f.charCount) (hu : c.toNat ≤ 512) (hlate : f.charCount < 8 * (c.toNat + 1)) :
    ∃ ch, (Font.psf1 f).locateChar c = some (.ok ch) ∧
      ch.dataOffset = Psf1.size + 8 * f.charSize.toNat * c.toNat ∧
      ch.dataLength = 8 * f.charSize.toNat ∧ data.length < ch.dataOffset + ch.dataLength := by
  have hlen : data.length = Psf1.size + f.charCount * f.charSize.toNat := by
    rcases tryParse_eq_ok h with ⟨g, hg, hnew⟩ | ⟨g, hg, -⟩
    · cases hg
      exact (Psf1.tryNew_eq_ok hnew).2
    · cases hg
  refine ⟨_, locateChar_eq_ok_iff.mpr ⟨hu, hc, 8, rfl, rfl⟩, ?_, ?_, ?_⟩
  · show Psf1.size + f.charSize.toNat * 8 * c.toNat = _
    ring
  · show f.charSize.toNat * 8 = _
    ring
  · show data.length < Psf1.size + f.charSize.toNat * 8 * c.toNat + f.charSize.toNat * 8
    rw [hlen]
    have : f.charCount * f.charSize.toNat < 8 * (c.toNat + 1) * f.charSize.toNat :=
      Nat.mul_lt_mul_of_pos_right hlate hsize
    calc Psf1.size + f.charCount * f.charSize.toNat
        < Psf1.size + 8 * (c.toNat + 1) * f.charSize.toNat := by omega
      _ = Psf1.size + f.charSize.toNat * 8 * c.toNat + f.charSize.toNat * 8 := by ring

/-- A PSF 1 font of 256 glyphs of one byte each: the header `36 04 00 01`, then 256 zero
bytes. -/
def psf1Font : List UInt8 := [0x36, 0x04, 0x00, 0x01] ++ List.replicate 256 0

set_option maxRecDepth 4000 in
/-- On `psf1Font`, `locate_char('A')` answers a glyph of 8 bytes at offset `4 + 8 * 65` with a
stride of 8, and `locate_char('\u{100}')`, the character at the glyph count, answers `Ok` with
a glyph past the end of the 260-byte buffer. -/
theorem locateChar_psf1_reads_eight_glyphs_apart :
    tryParse 0 psf1Font = some (.ok (.psf1 ⟨[0x36, 0x04], 0, 1⟩)) ∧
      (Font.psf1 ⟨[0x36, 0x04], 0, 1⟩).locateChar 'A' = some (.ok ⟨8, 1, 8, 524, 8⟩) ∧
      (Font.psf1 ⟨[0x36, 0x04], 0, 1⟩).locateChar (Char.ofNat 256) =
        some (.ok ⟨8, 1, 8, 2052, 8⟩) := by
  decide

/-- The glyph of `'A'` on `psf1Font` is one row of 8 bytes, and `is_set(0, 1)` on it panics. -/
theorem isSet_panics_on_psf1_glyph :
    (Font.psf1 ⟨[0x36, 0x04], 0, 1⟩).locateChar 'A' = some (.ok ⟨8, 1, 8, 524, 8⟩) ∧ 0 ≤ 8 ∧
      (⟨8, 1, 8, 524, 8⟩ : PsfChar).isSet (fun i => psf1Font.getD i 0) 0 1 = none := by
  have hglyph : (Font.psf1 ⟨[0x36, 0x04], 0, 1⟩).locateChar 'A' =
      some (.ok ⟨8, 1, 8, 524, 8⟩) := by decide
  exact ⟨hglyph, by decide, isSet_panics_at_height hglyph _ (by decide)⟩

end Popcorn.Psf
