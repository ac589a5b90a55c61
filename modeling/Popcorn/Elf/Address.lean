import Popcorn.Elf.DynamicTable
import Popcorn.Lib.Run

/-!
# Addresses in a loaded file

`File::segment_for_address` finds the first segment whose memory holds an address: the range
`vaddr .. vaddr + memory_size`, once `segments()` has moved `vaddr` by the file's base.
`data_at_address` then points into the buffer at the byte the address has: the segment's file
offset plus `addr - vaddr`, reached by indexing the buffer at the segment's file location. It
answers `None` when no segment holds the address. `data_at_address_mut` indexes through
`IndexMut`, and `index_data_mut` first asserts that the location overlaps neither the file
header nor either header table. The `_unrel_` forms add the base to an address before the
lookup.

A pointer is kept as its offset in the buffer. `byte_add` must keep it inside the buffer, or
one past its end; an access through it is checked where it is made. The `u64` sums panic on
overflow: the moved `vaddr`, the end of a memory or file location, and an address plus the
base. So do the slice index and the assert. Each of these is `none`. `segments()` is lazy, so
an overflowing `vaddr + base` panics only once the search reaches its entry.

A store is undefined behaviour unless it is aligned and lies inside the buffer (`File.store`).
It is also undefined behaviour where it writes bytes that the file's own shared references
hold: the file header, the program header entries and the section header slice. The assert
of `index_data_mut` guards those bytes.

Take two files that agree on the base, the header, the header tables, the program header
entries' bytes and the buffer's length. They answer every address alike and check every store
alike (`File.SameLayout`). Every store that is not undefined behaviour keeps these things
(`File.sameLayout_of_store`).
-/

namespace Popcorn.Elf

/-- `ProgramHeaderEntry64::memory_location`, whose end is a `u64` sum. -/
def ProgramHeaderEntry64.memoryLocation (e : ProgramHeaderEntry64) : Option (ℕ × ℕ) :=
  (usizeAdd e.vaddr e.memorySize).map fun end_ => (e.vaddr, end_)

/-- The `find` of `File::segment_for_address` over the entries of `segments()`. -/
def findSegment (addr : ℕ) : List ProgramHeaderEntry64 → Option (Option ProgramHeaderEntry64)
  | [] => some none
  | segment :: segments =>
    -- `entry.vaddr + self.base`, which the `map` of `segments()` computes as `find` reaches it
    if 2 ^ 64 ≤ segment.vaddr then none
    else
      segment.memoryLocation.bind fun location =>
        if location.1 ≤ addr ∧ addr < location.2 then some (some segment)
        else findSegment addr segments

/-- `File::segment_for_address`. -/
def File.segmentForAddress (f : File) (addr : ExecutableAddressRelocated) :
    Option (Option ProgramHeaderEntry64) :=
  f.segments.bind (findSegment addr.val)

/-- `ranges_overlap` of `File::index_data_mut`. -/
def rangesOverlap (a b : ℕ × ℕ) : Bool := !(decide (b.2 ≤ a.1) || decide (a.2 ≤ b.1))

/-- `File::index_data_mut`: `index_data` past the assert that the location overlaps no
header. -/
def File.indexDataMut (f : File) (location : ℕ × ℕ) : Option (List UInt8) :=
  f.header.programHeader.bind fun programHeader =>
    f.header.sectionHeader.bind fun sectionHeader =>
      -- `assert!(.., "Cannot mutably index into headers")`
      if rangesOverlap location (0, FileHeader.size) || rangesOverlap location programHeader ||
          rangesOverlap location sectionHeader then none
      else f.indexData location

/-- `data_at_address` through `index`, the file's `Index` or its `IndexMut`: the offset in the
buffer of the byte at `addr`. -/
def File.dataAt (index : File → ℕ × ℕ → Option (List UInt8)) (f : File)
    (addr : ExecutableAddressRelocated) : Option (Option ℕ) := do
  -- `self.segment_for_address(addr)?`
  let some segment ← f.segmentForAddress addr | pure none
  let location ← segment.fileLocation
  let _slice ← index f location
  -- `.byte_add(addr.0 - segment.vaddr)`, which stays inside the buffer
  let place := location.1 + (addr.val - segment.vaddr)
  if f.data.length < place then none else pure (some place)

/-- `File::data_at_address`. -/
def File.dataAtAddress (f : File) (addr : ExecutableAddressRelocated) : Option (Option ℕ) :=
  f.dataAt File.indexData addr

/-- `File::data_at_address_mut`. -/
def File.dataAtAddressMut (f : File) (addr : ExecutableAddressRelocated) : Option (Option ℕ) :=
  f.dataAt File.indexDataMut addr

/-- `File::data_at_unrel_address`: the lookup of `addr.0 + self.base`. -/
def File.dataAtUnrelAddress (f : File) (addr : ExecutableAddressUnrelocated) :
    Option (Option ℕ) :=
  (addr.relocate f.base).bind f.dataAtAddress

/-- `File::data_at_unrel_address_mut`. -/
def File.dataAtUnrelAddressMut (f : File) (addr : ExecutableAddressUnrelocated) :
    Option (Option ℕ) :=
  (addr.relocate f.base).bind f.dataAtAddressMut

/-! ## Access through a pointer -/

/-- The entries of the program header table, `size_of` apart from its start. -/
def File.programHeaderBytes (f : File) : ℕ × ℕ :=
  (f.programHeader.1, f.programHeader.1 + f.programHeader.2 * ProgramHeaderEntry64.size)

/-- The bytes the file's own references hold for as long as it lives: the file header, the
program header entries, and the section header slice of `section_header.len()` bytes. -/
def File.borrowed (f : File) : List (ℕ × ℕ) :=
  [(0, FileHeader.size), f.programHeaderBytes,
    (f.sectionHeader.1, f.sectionHeader.1 + f.sectionHeader.2)]

/-- A reference to `size` bytes at `place` in the buffer of a file at `addr`, of a type aligned
to `align`: undefined behaviour unless it is aligned and lies inside the buffer. -/
def File.access (f : File) (addr align place size : ℕ) : Option Unit :=
  if (addr + place) % align = 0 ∧ place + size ≤ f.data.length then some () else none

/-- A store `*ptr.cast::<T>() = ..` of `bytes` at `place` in the buffer of a file at `addr`, of
a `T` aligned to `align`. Beyond `access`, it must leave alone the bytes a shared reference of
the file holds, which the Rust reference makes immutable. -/
def File.store (f : File) (addr align place : ℕ) (bytes : List UInt8) : Option File :=
  if (addr + place) % align = 0 ∧ place + bytes.length ≤ f.data.length ∧
      ∀ r ∈ f.borrowed, rangesOverlap (place, place + bytes.length) r = false then
    some { f with data := Bytes.write f.data place bytes }
  else none

/-! ## What a lookup reads -/

/-- Two files alike in all that the address lookups and the store checks read. -/
structure File.SameLayout (f g : File) : Prop where
  base : g.base = f.base
  header : g.header = f.header
  programHeader : g.programHeader = f.programHeader
  sectionHeader : g.sectionHeader = f.sectionHeader
  length : g.data.length = f.data.length
  entries : ∀ i, f.programHeaderBytes.1 ≤ i → i < f.programHeaderBytes.2 → g.data[i]? = f.data[i]?

theorem ProgramHeaderEntry64.ofBytes_congr {data data' : List UInt8} {off : ℕ}
    (h : ∀ i, off ≤ i → i < off + ProgramHeaderEntry64.size → data[i]? = data'[i]?) :
    ProgramHeaderEntry64.ofBytes data off = ProgramHeaderEntry64.ofBytes data' off := by
  have hsize : ProgramHeaderEntry64.size = 56 := rfl
  have hfield : ∀ k w, k + w ≤ 56 → Bytes.field data (off + k) w = Bytes.field data' (off + k) w :=
    fun k w hkw => Bytes.field_congr fun i hlo hhi => h i (by omega) (by omega)
  have hfield0 := hfield 0 4 (by norm_num)
  rw [Nat.add_zero] at hfield0
  unfold ProgramHeaderEntry64.ofBytes
  rw [hfield0, hfield 4 4 (by norm_num), hfield 8 8 (by norm_num), hfield 16 8 (by norm_num),
    hfield 24 8 (by norm_num), hfield 32 8 (by norm_num), hfield 40 8 (by norm_num),
    hfield 48 8 (by norm_num)]

/-- An `Option` whose value is not read: only whether it is there matters. -/
theorem bind_const_congr {α β : Type} {o o' : Option α} (h : o.isSome = o'.isSome)
    (k : Option β) : (o >>= fun _ => k) = (o' >>= fun _ => k) := by
  cases o <;> cases o' <;> first | rfl | cases h

theorem File.indexData_isSome (f : File) (location : ℕ × ℕ) :
    (f.indexData location).isSome =
      decide (location.1 ≤ location.2 ∧ location.2 ≤ f.data.length) := by
  unfold File.indexData
  split_ifs with h <;> simp [h]

namespace File.SameLayout

variable {f g h : File}

theorem refl (f : File) : f.SameLayout f :=
  ⟨rfl, rfl, rfl, rfl, rfl, fun _ _ _ => rfl⟩

theorem trans (hfg : f.SameLayout g) (hgh : g.SameLayout h) : f.SameLayout h where
  base := hgh.base.trans hfg.base
  header := hgh.header.trans hfg.header
  programHeader := hgh.programHeader.trans hfg.programHeader
  sectionHeader := hgh.sectionHeader.trans hfg.sectionHeader
  length := hgh.length.trans hfg.length
  entries i hlo hhi := by
    have hbytes : g.programHeaderBytes = f.programHeaderBytes := by
      unfold programHeaderBytes
      rw [hfg.programHeader]
    rw [hgh.entries i (by rw [hbytes]; exact hlo) (by rw [hbytes]; exact hhi),
      hfg.entries i hlo hhi]

/-- The entries `segments()` reads are the same bytes. -/
theorem segments_eq (hfg : f.SameLayout g) : g.segments = f.segments := by
  unfold File.segments
  rw [hfg.programHeader, hfg.length, hfg.base]
  apply Transition.mapM_congr
  intro i hi
  have hcount : i * ProgramHeaderEntry64.size + ProgramHeaderEntry64.size ≤
      f.programHeader.2 * ProgramHeaderEntry64.size := by
    rw [← Nat.succ_mul]
    exact Nat.mul_le_mul_right _ (List.mem_range.mp hi)
  -- the `i`-th entry lies inside the table
  have hentry : ∀ j, f.programHeader.1 + i * ProgramHeaderEntry64.size ≤ j →
      j < f.programHeader.1 + i * ProgramHeaderEntry64.size + ProgramHeaderEntry64.size →
      g.data[j]? = f.data[j]? := fun j hlo hhi =>
    hfg.entries j (by unfold programHeaderBytes; omega) (by unfold programHeaderBytes; omega)
  simp only [ProgramHeaderEntry64.ofBytes_congr hentry]

theorem indexData_isSome_eq (hfg : f.SameLayout g) (location : ℕ × ℕ) :
    (g.indexData location).isSome = (f.indexData location).isSome := by
  rw [indexData_isSome, indexData_isSome, hfg.length]

theorem indexDataMut_isSome_eq (hfg : f.SameLayout g) (location : ℕ × ℕ) :
    (g.indexDataMut location).isSome = (f.indexDataMut location).isSome := by
  unfold indexDataMut
  rw [hfg.header]
  cases f.header.programHeader with
  | none => rfl
  | some programHeader =>
    cases f.header.sectionHeader with
    | none => rfl
    | some sectionHeader =>
      simp only [Option.bind_some]
      split_ifs
      · rfl
      · exact hfg.indexData_isSome_eq location

/-- A lookup through an index that panics for the same locations in both files. -/
theorem dataAt_eq (hfg : f.SameLayout g) {index : File → ℕ × ℕ → Option (List UInt8)}
    (hindex : ∀ location, (index g location).isSome = (index f location).isSome)
    (addr : ExecutableAddressRelocated) : g.dataAt index addr = f.dataAt index addr := by
  unfold dataAt segmentForAddress
  rw [hfg.segments_eq, hfg.length]
  simp only [bind_const_congr (hindex _)]

theorem dataAtAddress_eq (hfg : f.SameLayout g) (addr : ExecutableAddressRelocated) :
    g.dataAtAddress addr = f.dataAtAddress addr :=
  hfg.dataAt_eq hfg.indexData_isSome_eq addr

theorem dataAtAddressMut_eq (hfg : f.SameLayout g) (addr : ExecutableAddressRelocated) :
    g.dataAtAddressMut addr = f.dataAtAddressMut addr :=
  hfg.dataAt_eq hfg.indexDataMut_isSome_eq addr

theorem dataAtUnrelAddress_eq (hfg : f.SameLayout g) (addr : ExecutableAddressUnrelocated) :
    g.dataAtUnrelAddress addr = f.dataAtUnrelAddress addr := by
  unfold dataAtUnrelAddress
  rw [hfg.base]
  cases addr.relocate f.base with
  | none => rfl
  | some a => exact hfg.dataAtAddress_eq a

theorem dataAtUnrelAddressMut_eq (hfg : f.SameLayout g) (addr : ExecutableAddressUnrelocated) :
    g.dataAtUnrelAddressMut addr = f.dataAtUnrelAddressMut addr := by
  unfold dataAtUnrelAddressMut
  rw [hfg.base]
  cases addr.relocate f.base with
  | none => rfl
  | some a => exact hfg.dataAtAddressMut_eq a

/-- Moving both files to one base keeps them alike. -/
theorem withBase (hfg : f.SameLayout g) (b : ℕ) :
    { f with base := b }.SameLayout { g with base := b } where
  base := rfl
  header := hfg.header
  programHeader := hfg.programHeader
  sectionHeader := hfg.sectionHeader
  length := hfg.length
  entries := hfg.entries

theorem borrowed_eq (hfg : f.SameLayout g) : g.borrowed = f.borrowed := by
  unfold borrowed programHeaderBytes
  rw [hfg.programHeader, hfg.sectionHeader]

/-- A store is checked alike in both files, and writes the same bytes. -/
theorem store_eq (hfg : f.SameLayout g) (addr align place : ℕ) (bytes : List UInt8) :
    g.store addr align place bytes =
      (f.store addr align place bytes).map fun _ => { g with data := Bytes.write g.data place bytes } := by
  unfold store
  rw [hfg.length, hfg.borrowed_eq]
  split_ifs <;> rfl

end File.SameLayout

theorem rangesOverlap_eq_false_iff {a b : ℕ × ℕ} :
    rangesOverlap a b = false ↔ b.2 ≤ a.1 ∨ a.2 ≤ b.1 := by
  simp only [rangesOverlap, Bool.not_eq_false', Bool.or_eq_true, decide_eq_true_eq]

/-- What a store that is not undefined behaviour does: it writes its bytes inside the buffer,
away from every borrowed range. -/
theorem File.store_eq_some {f g : File} {addr align place : ℕ} {bytes : List UInt8}
    (h : f.store addr align place bytes = some g) :
    place + bytes.length ≤ f.data.length ∧
      (∀ r ∈ f.borrowed, r.2 ≤ place ∨ place + bytes.length ≤ r.1) ∧
      g = { f with data := Bytes.write f.data place bytes } := by
  unfold File.store at h
  split_ifs at h with hok
  cases h
  obtain ⟨-, hfit, hfree⟩ := hok
  exact ⟨hfit, fun r hr => rangesOverlap_eq_false_iff.mp (hfree r hr), rfl⟩

/-- A store keeps the layout: the program header entries are borrowed. -/
theorem File.sameLayout_of_store {f g : File} {addr align place : ℕ} {bytes : List UInt8}
    (h : f.store addr align place bytes = some g) : f.SameLayout g := by
  obtain ⟨hfit, hfree, rfl⟩ := File.store_eq_some h
  have hph := hfree f.programHeaderBytes (by simp [File.borrowed])
  exact {
    base := rfl
    header := rfl
    programHeader := rfl
    sectionHeader := rfl
    length := Bytes.length_write hfit
    entries := fun _ hlo hhi => Bytes.getElem?_write_of_not_mem hfit (by omega) }

/-! ## Lookups at another base -/

/-- An entry of the program header table with `vaddr` moved by `b`, as `segments()` answers it. -/
def ProgramHeaderEntry64.moveBy (b : ℕ) (e : ProgramHeaderEntry64) : ProgramHeaderEntry64 :=
  { e with vaddr := e.vaddr + b }

/-- The segments of a file are those at base `0`, moved by its base. -/
theorem File.segments_eq_map (f : File) :
    f.segments = { f with base := 0 }.segments.map (List.map (ProgramHeaderEntry64.moveBy f.base)) := by
  unfold File.segments
  rw [Transition.map_mapM]
  apply Transition.mapM_congr
  intro i _
  dsimp only
  split_ifs <;> rfl

theorem ProgramHeaderEntry64.memoryLocation_eq_some {e : ProgramHeaderEntry64} {location : ℕ × ℕ}
    (h : e.memoryLocation = some location) :
    location = (e.vaddr, e.vaddr + e.memorySize) ∧ e.vaddr + e.memorySize < 2 ^ 64 := by
  unfold memoryLocation usizeAdd at h
  split_ifs at h with hfit
  · cases h
    exact ⟨rfl, hfit⟩
  · cases h

/-- The search for an address moved by a base, over segments moved by it, finds the same entry
at every base where it does not panic. -/
theorem findSegment_moveBy {a b b' : ℕ} :
    ∀ {segments : List ProgramHeaderEntry64} {s s' : Option ProgramHeaderEntry64},
      findSegment (a + b) (segments.map (ProgramHeaderEntry64.moveBy b)) = some s →
      findSegment (a + b') (segments.map (ProgramHeaderEntry64.moveBy b')) = some s' →
      ∃ e : Option ProgramHeaderEntry64,
        s = e.map (ProgramHeaderEntry64.moveBy b) ∧ s' = e.map (ProgramHeaderEntry64.moveBy b') := by
  intro segments
  induction segments with
  | nil =>
    intro s s' h h'
    cases h
    cases h'
    exact ⟨none, rfl, rfl⟩
  | cons e segments ih =>
    intro s s' h h'
    simp only [List.map_cons, findSegment] at h h'
    split_ifs at h with hov
    split_ifs at h' with hov'
    obtain ⟨location, hlocation, h⟩ := Option.bind_eq_some_iff.mp h
    obtain ⟨location', hlocation', h'⟩ := Option.bind_eq_some_iff.mp h'
    obtain ⟨hloc, -⟩ := ProgramHeaderEntry64.memoryLocation_eq_some hlocation
    obtain ⟨hloc', -⟩ := ProgramHeaderEntry64.memoryLocation_eq_some hlocation'
    simp only [ProgramHeaderEntry64.moveBy] at hloc hloc'
    -- the address lies in the moved segment at one base exactly when at the other
    by_cases hin : e.vaddr ≤ a ∧ a < e.vaddr + e.memorySize
    · have hc : location.1 ≤ a + b ∧ a + b < location.2 := by
        rw [hloc]
        omega
      have hc' : location'.1 ≤ a + b' ∧ a + b' < location'.2 := by
        rw [hloc']
        omega
      rw [if_pos hc] at h
      rw [if_pos hc'] at h'
      cases h
      cases h'
      exact ⟨some e, rfl, rfl⟩
    · have hc : ¬(location.1 ≤ a + b ∧ a + b < location.2) := by
        rw [hloc]
        omega
      have hc' : ¬(location'.1 ≤ a + b' ∧ a + b' < location'.2) := by
        rw [hloc']
        omega
      rw [if_neg hc] at h
      rw [if_neg hc'] at h'
      exact ih h h'

/-- Where an address lies in the buffer, through an index that does not read the base, does not
depend on the base, at every base where the lookup does not panic. -/
theorem File.dataAt_moveBy {index : File → ℕ × ℕ → Option (List UInt8)} {f : File}
    (hindex : ∀ b location, index { f with base := b } location = index f location)
    {a b b' : ℕ} {p p' : Option ℕ}
    (h : { f with base := b }.dataAt index ⟨a + b⟩ = some p)
    (h' : { f with base := b' }.dataAt index ⟨a + b'⟩ = some p') : p = p' := by
  unfold File.dataAt File.segmentForAddress at h h'
  rw [File.segments_eq_map] at h h'
  obtain ⟨s, hs, h⟩ := Option.bind_eq_some_iff.mp h
  obtain ⟨s', hs', h'⟩ := Option.bind_eq_some_iff.mp h'
  obtain ⟨segments, hsegments, hs⟩ := Option.bind_eq_some_iff.mp hs
  obtain ⟨segments', hsegments', hs'⟩ := Option.bind_eq_some_iff.mp hs'
  obtain ⟨raw, hraw, rfl⟩ := Option.map_eq_some_iff.mp hsegments
  obtain ⟨raw', hraw', rfl⟩ := Option.map_eq_some_iff.mp hsegments'
  have hsame : raw' = raw := Option.some.inj (hraw'.symm.trans hraw)
  subst hsame
  obtain ⟨e, rfl, rfl⟩ := findSegment_moveBy hs hs'
  cases e with
  | none =>
    cases h
    cases h'
    rfl
  | some e =>
    simp only [Option.map_some, hindex] at h h'
    obtain ⟨location, hlocation, h⟩ := Option.bind_eq_some_iff.mp h
    obtain ⟨location', hlocation', h'⟩ := Option.bind_eq_some_iff.mp h'
    -- moving `vaddr` leaves the file location as it was
    have hsame : location' = location := Option.some.inj (hlocation'.symm.trans hlocation)
    subst hsame
    obtain ⟨_, -, h⟩ := Option.bind_eq_some_iff.mp h
    obtain ⟨_, -, h'⟩ := Option.bind_eq_some_iff.mp h'
    simp only [ProgramHeaderEntry64.moveBy, Nat.add_sub_add_right] at h h'
    split_ifs at h
    split_ifs at h'
    cases h
    cases h'
    rfl

/-- Where an unrelocated address lies in the buffer does not depend on the base, at every base
where its lookup does not panic. -/
theorem File.dataAtUnrelAddress_moveBy {f : File} {a : ExecutableAddressUnrelocated}
    {b b' : ℕ} {p p' : Option ℕ} (h : { f with base := b }.dataAtUnrelAddress a = some p)
    (h' : { f with base := b' }.dataAtUnrelAddress a = some p') : p = p' := by
  unfold File.dataAtUnrelAddress ExecutableAddressUnrelocated.relocate usizeAdd at h h'
  split_ifs at h h' <;> simp only [Option.map_none, Option.map_some, Option.bind_none,
    Option.bind_some, reduceCtorEq] at h h'
  exact File.dataAt_moveBy (fun _ _ => rfl) h h'

/-- A lookup panics where the index of the segment's file location panics. -/
theorem File.dataAt_eq_none_of_index {index : File → ℕ × ℕ → Option (List UInt8)} {f : File}
    {addr : ExecutableAddressRelocated} {segment : ProgramHeaderEntry64} {location : ℕ × ℕ}
    (hsegment : f.segmentForAddress addr = some (some segment))
    (hlocation : segment.fileLocation = some location) (hindex : index f location = none) :
    f.dataAt index addr = none := by
  unfold File.dataAt
  simp only [hsegment, hlocation, hindex, Option.bind_eq_bind, Option.bind_some, Option.bind_none]

/-- A location that overlaps the file header cannot be indexed mutably. -/
theorem File.indexDataMut_eq_none_of_overlap (f : File) {location : ℕ × ℕ}
    (h : rangesOverlap location (0, FileHeader.size) = true) : f.indexDataMut location = none := by
  unfold indexDataMut
  cases f.header.programHeader with
  | none => rfl
  | some programHeader =>
    cases f.header.sectionHeader with
    | none => rfl
    | some sectionHeader => simp [h]

end Popcorn.Elf
