import Popcorn.Elf.File

/-!
# What `File::try_new` checks

`File::try_new` never answers `NoHeader`: a buffer shorter than the header panics on the
slice `elf_data[..64]` before `FileHeader::try_new` can look at its length
(`tryNew_panics_on_short_buffer`, `tryNew_ne_noHeader`). It also panics on a table whose
entry size is zero (`tryNew_panics_on_zero_entry_size`).

What it accepts, it accepts with each table as the header's offset and entry count
(`File.tryNew_eq_ok`), and nothing compares them with the length of the buffer: a header
whose program header table starts at the end of a 64-byte buffer is accepted
(`tryNew_accepts_table_past_end`).
-/

namespace Popcorn.Elf

theorem tryFromPrimitive_eq_error {variants : List ℕ} {invalid : ℕ → Error} {value : ℕ}
    {e : Error} (h : tryFromPrimitive variants invalid value = .error e) : e = invalid value := by
  unfold tryFromPrimitive at h
  split_ifs at h
  cases h
  rfl

/-- A `?` step followed by the rest fails with the error of the step or of the rest. -/
theorem seq_eq_error {ε β : Type} {a : Except ε Unit} {b : Except ε β} {e : ε}
    (h : (a >>= fun _ => b) = .error e) : a = .error e ∨ b = .error e := by
  cases a with
  | error e' =>
    simp only [bind, Except.bind, Except.error.injEq] at h
    rw [h]
    exact .inl rfl
  | ok u => exact .inr (by simpa only [bind, Except.bind] using h)

/-- The checks of the enum fields fail only with the error of a field. -/
theorem checkFields_eq_error {data : List UInt8} {e : Error}
    (h : FileHeader.checkFields data = .error e) :
    ∃ v, e = .invalidWidth v ∨ e = .invalidEndianness v ∨ e = .invalidAbi v ∨
      e = .invalidType v ∨ e = .invalidIsa v := by
  unfold FileHeader.checkFields at h
  rcases seq_eq_error h with h | h
  · exact ⟨_, .inl (tryFromPrimitive_eq_error h)⟩
  rcases seq_eq_error h with h | h
  · exact ⟨_, .inr (.inl (tryFromPrimitive_eq_error h))⟩
  rcases seq_eq_error h with h | h
  · exact ⟨_, .inr (.inr (.inl (tryFromPrimitive_eq_error h)))⟩
  rcases seq_eq_error h with h | h
  · exact ⟨_, .inr (.inr (.inr (.inl (tryFromPrimitive_eq_error h))))⟩
  · exact ⟨_, .inr (.inr (.inr (.inr (tryFromPrimitive_eq_error h))))⟩

/-- On 64 bytes or more, `FileHeader::try_new` fails only on the alignment, a field or the
magic. -/
theorem FileHeader.tryNew_ne_noHeader {addr : ℕ} {data : List UInt8}
    (hlen : FileHeader.size ≤ data.length) : FileHeader.tryNew addr data ≠ .error .noHeader := by
  intro h
  unfold FileHeader.tryNew at h
  rw [if_neg (by omega)] at h
  by_cases halign : addr % FileHeader.align ≠ 0
  · rw [if_pos halign] at h
    cases h
  rw [if_neg halign] at h
  cases hc : FileHeader.checkFields data with
  | error e =>
    rw [hc] at h
    cases h
    -- the error of a field names the field
    obtain ⟨v, hv⟩ := checkFields_eq_error hc
    rcases hv with hv | hv | hv | hv | hv <;> cases hv
  | ok u =>
    rw [hc] at h
    dsimp only at h
    split_ifs at h
    cases h

theorem tryNew_panics_on_short_buffer (addr : ℕ) (elfData : List UInt8)
    (h : elfData.length < FileHeader.size) : File.tryNew addr elfData = none := by
  unfold File.tryNew
  rw [if_pos h]

/-- The empty buffer makes `File::try_new` panic. -/
theorem tryNew_panics_on_empty_buffer :
    ([] : List UInt8).length < FileHeader.size ∧ File.tryNew 0 [] = none :=
  ⟨by decide, tryNew_panics_on_short_buffer 0 [] (by decide)⟩

/-- `File::try_new` never answers `NoHeader`. -/
theorem tryNew_ne_noHeader (addr : ℕ) (elfData : List UInt8) :
    File.tryNew addr elfData ≠ some (.error .noHeader) := by
  intro h
  unfold File.tryNew at h
  split_ifs at h with hshort
  split at h
  · rename_i e he
    cases h
    have hlen : FileHeader.size ≤ (elfData.take FileHeader.size).length := by
      rw [List.length_take]
      omega
    exact FileHeader.tryNew_ne_noHeader hlen he
  · obtain ⟨_, -, hsection⟩ := Option.bind_eq_some_iff.mp h
    obtain ⟨_, -, hok⟩ := Option.map_eq_some_iff.mp hsection
    cases hok

/-- A table is found from its range `start .. start + entry_size * count` as `start` and
`count`, when its entry size is not zero and its first entry is aligned. -/
theorem headerTable_eq_some {addr entrySize entryAlign : ℕ} (start count : ℕ)
    {range : Option (ℕ × ℕ)} {t : ℕ × ℕ}
    (hrange : range = (usizeAdd start (entrySize * count)).map fun e => (start, e))
    (h : headerTable addr range entrySize entryAlign = some t) :
    t = (start, count) ∧ 0 < entrySize ∧ (addr + start) % entryAlign = 0 ∧
      start + entrySize * count < 2 ^ 64 := by
  subst hrange
  unfold headerTable usizeAdd at h
  by_cases hover : start + entrySize * count < 2 ^ 64
  · rw [if_pos hover, Option.map_some, Option.bind_some] at h
    dsimp only at h
    by_cases hzero : entrySize = 0
    · rw [hzero] at h
      simp [usizeDiv] at h
    rw [usizeDiv, if_neg hzero, Option.bind_some] at h
    by_cases halign : (addr + start) % entryAlign = 0
    · rw [if_neg (not_not.mpr halign), Option.some.injEq] at h
      subst h
      refine ⟨?_, Nat.pos_of_ne_zero hzero, halign, hover⟩
      rw [Nat.add_sub_cancel_left, Nat.mul_div_cancel_left _ (Nat.pos_of_ne_zero hzero)]
    · rw [if_pos halign] at h
      cases h
  · rw [if_neg hover, Option.map_none, Option.bind_none] at h
    cases h

theorem headerTable_zero (addr : ℕ) (range : Option (ℕ × ℕ)) (entryAlign : ℕ) :
    headerTable addr range 0 entryAlign = none := by
  cases range with
  | none => rfl
  | some r => simp [headerTable, usizeDiv]

/-- What `File::try_new` accepts: a header `FileHeader::try_new` accepts, each table at the
header's offset with the header's count of entries, of a size that is not zero. -/
theorem File.tryNew_eq_ok {addr : ℕ} {elfData : List UInt8} {f : File}
    (h : File.tryNew addr elfData = some (.ok f)) :
    FileHeader.tryNew addr (elfData.take FileHeader.size) = .ok f.header ∧
      f.programHeader = (f.header.programHeaderOffset, f.header.programHeaderEntryCount) ∧
      0 < f.header.programHeaderEntrySize ∧
      f.sectionHeader = (f.header.sectionHeaderOffset, f.header.sectionHeaderEntryCount) ∧
      0 < f.header.sectionHeaderEntrySize ∧ f.base = 0 ∧ f.data = elfData := by
  unfold File.tryNew at h
  split_ifs at h
  split at h
  · cases h
  · rename_i header hheader
    obtain ⟨programHeader, hprogram, hrest⟩ := Option.bind_eq_some_iff.mp h
    obtain ⟨sectionHeader, hsection, hok⟩ := Option.map_eq_some_iff.mp hrest
    cases hok
    obtain ⟨rfl, hpsize, -, -⟩ :=
      headerTable_eq_some header.programHeaderOffset header.programHeaderEntryCount rfl hprogram
    obtain ⟨rfl, hssize, -, -⟩ :=
      headerTable_eq_some header.sectionHeaderOffset header.sectionHeaderEntryCount rfl hsection
    exact ⟨hheader, rfl, hpsize, rfl, hssize, rfl, rfl⟩

/-- A table of entry size zero makes `File::try_new` divide by zero. -/
theorem tryNew_panics_on_zero_entry_size {addr : ℕ} {elfData : List UInt8} {header : FileHeader}
    (hheader : FileHeader.tryNew addr (elfData.take FileHeader.size) = .ok header)
    (hzero : header.programHeaderEntrySize = 0 ∨ header.sectionHeaderEntrySize = 0) :
    File.tryNew addr elfData = none := by
  have hlen : ¬elfData.length < FileHeader.size := by
    intro hshort
    have : (elfData.take FileHeader.size).length < FileHeader.size := by
      rw [List.length_take]
      omega
    unfold FileHeader.tryNew at hheader
    rw [if_pos this] at hheader
    cases hheader
  unfold File.tryNew
  rw [if_neg hlen, hheader]
  dsimp only
  rcases hzero with hzero | hzero
  · rw [hzero, headerTable_zero, Option.bind_none]
  · rw [hzero, headerTable_zero]
    cases headerTable addr header.programHeader header.programHeaderEntrySize
      programHeaderEntryAlign <;> rfl

/-- A 64-byte buffer holding only an ELF 64 header (little-endian, System V, an executable for
amd64) whose program header table starts at byte 64 with one entry of 56 bytes, and whose
section header table is empty. -/
def elfHeaderOnly : List UInt8 :=
  [0x7f, 0x45, 0x4c, 0x46, 2, 1, 1, 0,  0, 0, 0, 0, 0, 0, 0, 0,
   2, 0, 0x3e, 0, 1, 0, 0, 0,  0, 0, 0, 0, 0, 0, 0, 0,
   0x40, 0, 0, 0, 0, 0, 0, 0,  0, 0, 0, 0, 0, 0, 0, 0,
   0, 0, 0, 0, 0x40, 0, 0x38, 0,  1, 0, 0x40, 0, 0, 0, 0, 0]

set_option maxRecDepth 4000 in
/-- `File::try_new` accepts `elfHeaderOnly` with its program header table at bytes
`64 .. 120`, past the end of the buffer. -/
theorem tryNew_accepts_table_past_end :
    File.tryNew 0 elfHeaderOnly =
        some (.ok ⟨0, ⟨elfHeaderOnly, .w64⟩, (64, 1), (0, 0), elfHeaderOnly⟩) ∧
      elfHeaderOnly.length < 64 + ProgramHeaderEntry64.size := by
  decide

end Popcorn.Elf
