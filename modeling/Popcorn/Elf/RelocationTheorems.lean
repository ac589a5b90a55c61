import Popcorn.Elf.Relocation

/-!
# What relocation does

`relocate` reads all of its entries before its first store. A store never reaches the bytes
that the address lookups read: the program header entries are borrowed by the file, so a store
into them is undefined behaviour (`File.sameLayout_of_store`). So every turn of the loop finds
its target as it would on the input file (`File.SameLayout.relocateOne_eq`). The loop makes,
in turn, the stores its entries compute on the input file (`foldlM_relocateOne`). Where those
stores lie at disjoint places, each relative slot then holds `base + addend`, and every other
byte is as it was (`relocate_stores_base_plus_addend`).

A turn whose lookup panics on the input file panics on every file the loop reaches. So
`relocate` panics as a whole on an entry whose target lies in a segment whose file range
begins inside the file header, wherever in the segment the target is
(`relocate_panics_on_target_in_header_segment`).
-/

namespace Popcorn.Elf

variable {f g : File} {addr base : ℕ}

/-! ## One turn of `relocate` -/

/-- The store a turn computes reads only the address lookup. -/
theorem File.SameLayout.relocationStore_eq (hfg : f.SameLayout g) (base : ℕ)
    (r : RelocationTableEntry) : g.relocationStore base r = f.relocationStore base r := by
  cases r with
  | rel _ => rfl
  | rela r => simp only [File.relocationStore, hfg.dataAtUnrelAddressMut_eq]

/-- A turn on a file with the layout of `f` makes the store the turn computes on `f`. -/
theorem File.SameLayout.relocateOne_eq (hfg : f.SameLayout g) (r : RelocationTableEntry) :
    File.relocateOne addr base g r =
      (f.relocationStore base r).bind fun store =>
        match store with
        | none => some g
        | some (target, bytes) => g.store addr 8 target bytes := by
  unfold File.relocateOne
  rw [hfg.relocationStore_eq]
  rfl

/-- A turn keeps the layout: it stores nothing, or makes a store. -/
theorem File.sameLayout_of_relocateOne {r : RelocationTableEntry}
    (h : File.relocateOne addr base f r = some g) : f.SameLayout g := by
  rw [(File.SameLayout.refl f).relocateOne_eq] at h
  obtain ⟨store, -, h⟩ := Option.bind_eq_some_iff.mp h
  cases store with
  | none =>
    cases h
    exact File.SameLayout.refl f
  | some s => exact File.sameLayout_of_store h

/-- The store of a relative relocation: the `u64` `base + addend` at its target. -/
theorem File.relocationStore_of_relative {rr : RelocationWithAddend} {target : ℕ}
    (htype : (RelocationTableEntry.rela rr).symbolTableType = some .x8664Relative)
    (htarget : f.dataAtUnrelAddressMut rr.offset = some (some target)) :
    f.relocationStore base (.rela rr) =
      some (some (target, Bytes.toLE (wrappingAddSigned base rr.addend) 8)) := by
  simp only [File.relocationStore, htarget, htype]
  rfl

/-- Every store of a turn is eight bytes. -/
theorem File.length_of_relocationStore {r : RelocationTableEntry} {s : ℕ × List UInt8}
    (h : f.relocationStore base r = some (some s)) : s.2.length = 8 := by
  cases r with
  | rel _ => cases h
  | rela rr =>
    simp only [File.relocationStore] at h
    obtain ⟨target?, -, h⟩ := Option.bind_eq_some_iff.mp h
    cases target? with
    | none => cases h
    | some target =>
      obtain ⟨ty, -, h⟩ := Option.bind_eq_some_iff.mp h
      cases ty with
      | x8664Relative =>
        cases h
        exact Bytes.length_toLE _ _
      | x8664JumpSlot => cases h

theorem wrappingAddSigned_lt (base : ℕ) (addend : ℤ) : wrappingAddSigned base addend < 2 ^ 64 := by
  unfold wrappingAddSigned
  omega

/-! ## The loop -/

/-- The loop of `relocate` from a file with the layout of `f`: where none of the stores its
entries compute on `f` is undefined behaviour, it makes them in turn. -/
theorem foldlM_relocateOne :
    ∀ {relocs : List RelocationTableEntry} {stores : List (Option (ℕ × List UInt8))} {g : File},
      relocs.mapM (f.relocationStore base) = some stores →
      (∀ s ∈ stores.reduceOption, (f.store addr 8 s.1 s.2).isSome) → f.SameLayout g →
      relocs.foldlM (File.relocateOne addr base) g =
        some { g with data := Bytes.writeAll g.data stores.reduceOption } := by
  intro relocs
  induction relocs with
  | nil =>
    intro stores g hstores _ _
    cases hstores
    rfl
  | cons r relocs ih =>
    intro stores g hstores hvalid hfg
    obtain ⟨store, stores, hstore, hrest, rfl⟩ := Transition.mapM_cons_eq_some hstores
    rw [List.foldlM_cons, hfg.relocateOne_eq, hstore, Option.bind_some]
    cases store with
    | none =>
      -- a jump slot: the turn leaves the file as it was
      rw [List.reduceOption_cons_of_none] at hvalid ⊢
      exact ih hrest hvalid hfg
    | some s =>
      obtain ⟨place, bytes⟩ := s
      rw [List.reduceOption_cons_of_some] at hvalid ⊢
      -- the store checks as it does on `f`, and so is not undefined behaviour
      have hstore_g : g.store addr 8 place bytes =
          some { g with data := Bytes.write g.data place bytes } := by
        obtain ⟨g', hg'⟩ := Option.isSome_iff_exists.mp (hvalid (place, bytes) List.mem_cons_self)
        rw [hfg.store_eq, hg', Option.map_some]
      have hrest_valid : ∀ s ∈ stores.reduceOption, (f.store addr 8 s.1 s.2).isSome :=
        fun s hs => hvalid s (List.mem_cons_of_mem _ hs)
      simp only [hstore_g, Option.bind_eq_bind, Option.bind_some]
      rw [ih hrest hrest_valid (hfg.trans (File.sameLayout_of_store hstore_g))]
      rfl

/-- `relocate` makes the stores its entries compute on the input file, and records the base. -/
theorem File.relocate_eq_writeAll {relocs : List RelocationTableEntry}
    {stores : List (Option (ℕ × List UInt8))} (hrelocs : f.relocations addr = some relocs)
    (hstores : relocs.mapM (f.relocationStore base) = some stores)
    (hvalid : ∀ s ∈ stores.reduceOption, (f.store addr 8 s.1 s.2).isSome) :
    f.relocate addr base =
      some { f with base := base, data := Bytes.writeAll f.data stores.reduceOption } := by
  unfold File.relocate
  simp only [hrelocs, foldlM_relocateOne hstores hvalid (File.SameLayout.refl f),
    Option.bind_eq_bind, Option.bind_some]
  rfl

/-- The loop of `relocate` ends in a file with the layout of the one it started from. -/
theorem File.sameLayout_of_foldlM_relocateOne {relocs : List RelocationTableEntry}
    (h : relocs.foldlM (File.relocateOne addr base) f = some g) : f.SameLayout g :=
  Transition.foldlM_induction (P := f.SameLayout)
    (fun _ _ _ _ hfg hstep => hfg.trans (File.sameLayout_of_relocateOne hstep)) h
    (File.SameLayout.refl f)

/-! ## What `relocate` does -/

/-- Little-endian fields one after another, each a value and its width in bytes. -/
def layout (fields : List (ℕ × ℕ)) : List UInt8 :=
  fields.flatMap fun field => Bytes.toLE field.1 field.2

/-- An ELF header for a 64-bit shared object whose program header table of `count` entries
follows it, with no section header table. -/
def sharedObjectHeader (count : ℕ) : List UInt8 :=
  layout [(0x464c457f, 4), (2, 1), (1, 1), (1, 1), (0, 1), (0, 8), (3, 2), (0x3e, 2), (1, 4),
    (0, 8), (64, 8), (0, 8), (0, 4), (64, 2), (56, 2), (count, 2), (64, 2), (0, 2), (0, 2)]

/-- A program header entry: its type, file offset, address and size, in file and memory. -/
def programHeaderEntry (segmentType fileOffset vaddr size : ℕ) : List UInt8 :=
  layout [(segmentType, 4), (6, 4), (fileOffset, 8), (vaddr, 8), (vaddr, 8), (size, 8),
    (size, 8), (8, 8)]

/-- A shared object at address `0` with two relative relocations. Its loadable segment holds, at
`0x1000`, the `DT_RELA` table of two entries, for `0x1030` with addend `16` and for `0x1038`
with addend `-8`, and then the two slots. The dynamic segment before it names the table. -/
def relativeImage : List UInt8 :=
  sharedObjectHeader 2 ++ programHeaderEntry 1 224 0x1000 64 ++
    programHeaderEntry 2 176 0x2000 48 ++
    layout [(7, 8), (0x1000, 8), (8, 8), (48, 8), (0, 8), (0, 8)] ++
    layout [(0x1030, 8), (8, 8), (16, 8), (0x1038, 8), (8, 8), (2 ^ 64 - 8, 8), (0, 8), (0, 8)]

/-- The file `File::try_new` makes of `relativeImage`. -/
def relativeExample : File := ⟨0, ⟨relativeImage.take 64, .w64⟩, (64, 2), (0, 0), relativeImage⟩

example : File.tryNew 0 relativeImage = some (.ok relativeExample) := by decide +kernel

/-- The entries `relocations` reads from `relativeExample`. -/
def relativeEntries : List RelocationTableEntry :=
  [.rela ⟨⟨0x1030⟩, 8, 16⟩, .rela ⟨⟨0x1038⟩, 8, -8⟩]

/-- The stores the entries of `relativeExample` compute for the base `0x400000`. -/
def relativeStores : List (Option (ℕ × List UInt8)) :=
  [some (272, Bytes.toLE 0x400010 8), some (280, Bytes.toLE 0x3ffff8 8)]

/-- What `relocate` for `base` leaves in the buffer. Take the stores its entries compute on the
input file, and suppose none is undefined behaviour and they lie at disjoint places. Then the
`u64` at the target of every relative relocation reads `base + addend`, wrapping, every byte no
store covers is as it was, and the file records the base. -/
theorem relocate_stores_base_plus_addend {relocs : List RelocationTableEntry}
    {stores : List (Option (ℕ × List UInt8))} (hrelocs : f.relocations addr = some relocs)
    (hstores : relocs.mapM (f.relocationStore base) = some stores)
    (hvalid : ∀ s ∈ stores.reduceOption, (f.store addr 8 s.1 s.2).isSome)
    (hdisj : stores.reduceOption.Pairwise fun s t => s.1 + 8 ≤ t.1 ∨ t.1 + 8 ≤ s.1) :
    ∃ g, f.relocate addr base = some g ∧ g.base = base ∧
      (∀ rr target, .rela rr ∈ relocs →
        (RelocationTableEntry.rela rr).symbolTableType = some .x8664Relative →
        f.dataAtUnrelAddressMut rr.offset = some (some target) →
        Bytes.field g.data target 8 = wrappingAddSigned base rr.addend) ∧
      ∀ i, (∀ s ∈ stores.reduceOption, i < s.1 ∨ s.1 + 8 ≤ i) → g.data[i]? = f.data[i]? := by
  -- every store is eight bytes inside the buffer
  have hlen : ∀ s ∈ stores.reduceOption, s.2.length = 8 := fun s hs => by
    obtain ⟨r, -, hr⟩ := Transition.exists_of_mem_mapM_eq_some hstores _
      (List.reduceOption_mem_iff.mp hs)
    exact File.length_of_relocationStore hr
  have hfit : ∀ s ∈ stores.reduceOption, s.1 + s.2.length ≤ f.data.length := fun s hs => by
    obtain ⟨g', hg'⟩ := Option.isSome_iff_exists.mp (hvalid s hs)
    exact (File.store_eq_some hg').1
  refine ⟨_, File.relocate_eq_writeAll hrelocs hstores hvalid, rfl, ?_, ?_⟩
  · intro rr target hmem htype htarget
    obtain ⟨store, hmem_store, hstore⟩ := Transition.mem_of_mapM_eq_some hstores _ hmem
    rw [File.relocationStore_of_relative htype htarget] at hstore
    cases hstore
    have hdisj' : stores.reduceOption.Pairwise
        fun s t => s.1 + s.2.length ≤ t.1 ∨ t.1 + t.2.length ≤ s.1 :=
      List.Pairwise.imp_of_mem (fun hs ht hst => by rw [hlen _ hs, hlen _ ht]; exact hst) hdisj
    have hread := Bytes.field_writeAll_of_mem hfit hdisj' (List.reduceOption_mem_iff.mpr hmem_store)
    rw [Bytes.length_toLE, Bytes.ofLE_toLE] at hread
    have hlt : wrappingAddSigned base rr.addend < 256 ^ 8 := by
      have := wrappingAddSigned_lt base rr.addend
      norm_num at this ⊢
      exact this
    rw [hread, Nat.mod_eq_of_lt hlt]
  · intro i hi
    exact Bytes.getElem?_writeAll_of_not_mem hfit fun s hs => by
      rw [hlen s hs]
      exact hi s hs

theorem relativeExample_relocated :
    ∃ g, relativeExample.relocate 0 0x400000 = some g ∧ g.base = 0x400000 ∧
      (∀ rr target, .rela rr ∈ relativeEntries →
        (RelocationTableEntry.rela rr).symbolTableType = some .x8664Relative →
        relativeExample.dataAtUnrelAddressMut rr.offset = some (some target) →
        Bytes.field g.data target 8 = wrappingAddSigned 0x400000 rr.addend) ∧
      ∀ i, (∀ s ∈ relativeStores.reduceOption, i < s.1 ∨ s.1 + 8 ≤ i) →
        g.data[i]? = relativeExample.data[i]? :=
  relocate_stores_base_plus_addend (by decide +kernel) (by decide +kernel) (by decide +kernel)
    (by decide +kernel)

/-- Relocation does not move data: an unrelocated address that both the input file and the
relocated file can look up lies at the same place in the buffer. `relocate` finds each target
at the old base and then records the new one, so every address must keep its place. -/
theorem relocate_keeps_unrelocated_addresses {a : ExecutableAddressUnrelocated}
    {p p' : Option ℕ} (h : f.relocate addr base = some g)
    (hf : f.dataAtUnrelAddress a = some p) (hg : g.dataAtUnrelAddress a = some p') : p = p' := by
  unfold File.relocate at h
  obtain ⟨relocs, -, h⟩ := Option.bind_eq_some_iff.mp h
  obtain ⟨f', hloop, h⟩ := Option.bind_eq_some_iff.mp h
  cases h
  -- the relocated file is laid out as the input, moved to the new base
  have hlayout := (File.sameLayout_of_foldlM_relocateOne hloop).withBase base
  rw [hlayout.dataAtUnrelAddress_eq] at hg
  exact File.dataAtUnrelAddress_moveBy (f := f) (b := f.base) hf hg

/-- `relativeExample` relocated to `0x400000`. -/
def relocatedExample : File :=
  { relativeExample with
    base := 0x400000
    data := Bytes.writeAll relativeImage relativeStores.reduceOption }

theorem relativeExample_keeps_addresses :
    relativeExample.relocate 0 0x400000 = some relocatedExample ∧
      relativeExample.dataAtUnrelAddress ⟨0x1030⟩ = some (some 272) ∧
      relocatedExample.dataAtUnrelAddress ⟨0x1030⟩ = some (some 272) ∧
      (some 272 : Option ℕ) = some 272 := by
  have hrelocate : relativeExample.relocate 0 0x400000 = some relocatedExample := by
    decide +kernel
  have hf : relativeExample.dataAtUnrelAddress ⟨0x1030⟩ = some (some 272) := by decide +kernel
  have hg : relocatedExample.dataAtUnrelAddress ⟨0x1030⟩ = some (some 272) := by decide +kernel
  exact ⟨hrelocate, hf, hg, relocate_keeps_unrelocated_addresses hrelocate hf hg⟩

/-! ## Where `relocate` panics -/

/-- A target in a segment whose file range begins inside the file header cannot be indexed
mutably, wherever in the segment it lies. -/
theorem File.dataAtUnrelAddressMut_eq_none_of_header {a : ExecutableAddressUnrelocated}
    {target : ExecutableAddressRelocated} {segment : ProgramHeaderEntry64} {location : ℕ × ℕ}
    (htarget : a.relocate f.base = some target)
    (hsegment : f.segmentForAddress target = some (some segment))
    (hlocation : segment.fileLocation = some location)
    (hheader : location.1 < FileHeader.size) (hnonempty : location.1 < location.2) :
    f.dataAtUnrelAddressMut a = none := by
  have hoverlap : rangesOverlap location (0, FileHeader.size) = true := by
    simp only [rangesOverlap, Bool.not_eq_true', Bool.or_eq_false_iff, decide_eq_false_iff_not]
    omega
  unfold File.dataAtUnrelAddressMut
  rw [htarget, Option.bind_some]
  exact File.dataAt_eq_none_of_index hsegment hlocation (f.indexDataMut_eq_none_of_overlap hoverlap)

/-- `relocate` panics on an entry whose target lies in a segment whose file range begins inside
the file header, wherever in the segment the target lies and whatever its type. -/
theorem relocate_panics_on_target_in_header_segment {relocs : List RelocationTableEntry}
    {rr : RelocationWithAddend} {target : ExecutableAddressRelocated}
    {segment : ProgramHeaderEntry64} {location : ℕ × ℕ}
    (hrelocs : f.relocations addr = some relocs) (hmem : .rela rr ∈ relocs)
    (htarget : rr.offset.relocate f.base = some target)
    (hsegment : f.segmentForAddress target = some (some segment))
    (hlocation : segment.fileLocation = some location)
    (hheader : location.1 < FileHeader.size) (hnonempty : location.1 < location.2) :
    f.relocate addr base = none := by
  have hlookup := File.dataAtUnrelAddressMut_eq_none_of_header htarget hsegment hlocation
    hheader hnonempty
  -- the turn of `rr` panics on every file the loop reaches
  have hpanic : ∀ g, f.SameLayout g → File.relocateOne addr base g (.rela rr) = none := by
    intro g hfg
    rw [hfg.relocateOne_eq]
    simp only [File.relocationStore, hlookup, Option.bind_eq_bind, Option.bind_none]
  have hloop : relocs.foldlM (File.relocateOne addr base) f = none :=
    Transition.foldlM_eq_none_of_mem (P := f.SameLayout) (f := File.relocateOne addr base)
      (fun _ _ _ hfg h => hfg.trans (File.sameLayout_of_relocateOne h)) hpanic hmem
      (File.SameLayout.refl f)
  unfold File.relocate
  simp only [hrelocs, hloop, Option.bind_eq_bind, Option.bind_some, Option.bind_none]

/-- A shared object at address `0` whose one loadable segment begins at file offset `0`, as
most do: it holds the whole file, headers included. Its `DT_RELA` table at `224` has one
relative relocation, for `272`, far from the headers. -/
def headerSegmentImage : List UInt8 :=
  sharedObjectHeader 2 ++ programHeaderEntry 1 0 0 288 ++ programHeaderEntry 2 176 176 48 ++
    layout [(7, 8), (224, 8), (8, 8), (24, 8), (0, 8), (0, 8)] ++
    layout [(272, 8), (8, 8), (0, 8), (0, 8), (0, 8), (0, 8), (0, 8), (0, 8)]

/-- The file `File::try_new` makes of `headerSegmentImage`. -/
def headerSegmentExample : File :=
  ⟨0, ⟨headerSegmentImage.take 64, .w64⟩, (64, 2), (0, 0), headerSegmentImage⟩

theorem headerSegmentExample_panics : headerSegmentExample.relocate 0 0x400000 = none :=
  relocate_panics_on_target_in_header_segment
    (show headerSegmentExample.relocations 0 = some [.rela ⟨⟨272⟩, 8, 0⟩] by decide +kernel)
    (List.mem_singleton_self _)
    (show (⟨272⟩ : ExecutableAddressUnrelocated).relocate 0 = some ⟨272⟩ by decide)
    (show headerSegmentExample.segmentForAddress ⟨272⟩ =
      some (some ⟨1, 6, 0, 0, 0, 288, 288, 8⟩) by decide +kernel)
    (show ProgramHeaderEntry64.fileLocation ⟨1, 6, 0, 0, 0, 288, 288, 8⟩ = some (0, 288) by
      decide)
    (by decide) (by decide)

end Popcorn.Elf
