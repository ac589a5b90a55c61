import Popcorn.Amd64.Entry
import Popcorn.Lib.TableWalk

/-!
# The amd64 page tables of the kernel

`hal::arch::amd64::paging2` keeps the tables in physical memory and reaches each one through
the frame it lives in. Physical memory is modelled as the 512 words of the table in each
frame; the `BackingAllocator` the tables take new frames from as the list of frames its
`allocate_one` hands out, in order, answering `Err(AllocError)` once they run out.

Two kinds of table share the code:

* `Amd64TTable`, an address space: a `PML4` whose lower half it manages itself and whose
  upper half points at the kernel's shared `PDPT`s;
* `Amd64KTable`, the kernel half: 256 `PDPT`s in consecutive frames, the one for `PML4`
  index `i` at `tables + (i - 256)`.

Kernel code that panics (an `assert!` or an `expect` that fires, an index out of bounds) is
`none`; an `Err` returned with `?` keeps what was written to memory before it. The
`invlpg` of `unmap_page` flushes the TLB, which is not modelled.
-/

namespace Popcorn
namespace Amd64

/-- Physical memory as the table code reads it: the entries of the table in each frame. -/
abbrev Memory := Frame → Nat → BitVec 64

/-- What the table code runs on: physical memory, and the frames `allocate_one` of its
`BackingAllocator` will hand out, in order. -/
structure Machine where
  mem : Memory
  free : List Frame

/-- Kernel code on the tables: a panic (`none`), or an answer with the machine it leaves. -/
abbrev Outcome (ε α : Type) := Option (Except ε α × Machine)

/-- `kernel_api::bridge::paging::MapPageError`. -/
inductive MapPageError
  | allocError
  | alreadyMapped
  deriving DecidableEq, Repr

/-- The first address of the upper half, where the kernel's half of every table starts. -/
def upperHalfStart : Nat := 0xffff_8000_0000_0000

/-- The entry at index `idx` of the table in frame `table`. -/
def entryAt (mem : Memory) (table : Frame) (idx : Nat) : Amd64Entry := ⟨mem table idx⟩

/-- Where an entry leads a walk down the tables: the frame it points to. -/
def decode (w : BitVec 64) : Option Frame := (Amd64Entry.mk w).pointedFrame

/-- `Table::child_table`. -/
def childTable (mem : Memory) (table : Frame) (idx : Nat) : Option Frame :=
  (entryAt mem table idx).pointedFrame

/-- `Table::empty_with`: `allocate_one`, then `Table::empty()` written over the frame. -/
def emptyWith (m : Machine) : Except AllocError Frame × Machine :=
  match m.free with
  | [] => (.error ⟨⟩, m)
  | tableFrame :: rest => (.ok tableFrame, ⟨TableWalk.fill m.mem tableFrame 0, rest⟩)

/-- The body of the `if` in `Table::child_table_or_new`: a new empty table, and the entry
pointed at it. The `expect("Entry was not present")` cannot fire, as the caller has just
found the entry absent, but is kept as a panic. -/
def newChildTable (table : Frame) (idx : Nat) (m : Machine) : Outcome AllocError Unit :=
  match emptyWith m with
  | (.error e, m') => some (.error e, m')
  | (.ok tableFrame, m') =>
    match (entryAt m'.mem table idx).pointToFrame tableFrame with
    | .error _ => none
    | .ok e => some (.ok (), { m' with mem := TableWalk.write m'.mem table idx e.bits })

/-- `Table::child_table_or_new`; its `expect("Just mapped this entry")` is kept as a panic
as well. -/
def childTableOrNew (table : Frame) (idx : Nat) (m : Machine) : Outcome AllocError Frame :=
  let created :=
    if (childTable m.mem table idx).isNone then newChildTable table idx m
    else some (.ok (), m)
  match created with
  | none => none
  | some (.error e, m') => some (.error e, m')
  | some (.ok (), m') =>
    match childTable m'.mem table idx with
    | none => none
    | some child => some (.ok child, m')

/-- `child_table_or_new(..)?` at each index of `path` in turn, down from `table`. -/
def childTablesOrNew (table : Frame) : List Nat → Machine → Outcome AllocError Frame
  | [], m => some (.ok table, m)
  | idx :: path, m =>
    match childTableOrNew table idx m with
    | none => none
    | some (.error e, m') => some (.error e, m')
    | some (.ok child, m') => childTablesOrNew child path m'

/-- The last line of `map_page`: `point_to_frame` on the `PT` entry, an entry already present
answering `AlreadyMapped`. -/
def pointEntry (pt : Frame) (idx : Nat) (frame : Frame) (m : Machine) :
    Outcome MapPageError Unit :=
  match (entryAt m.mem pt idx).pointToFrame frame with
  | .error _ => some (.error .alreadyMapped, m)
  | .ok e => some (.ok (), { m with mem := TableWalk.write m.mem pt idx e.bits })

/-- The `match` of `unmap_page` on the `PT` entry: a used entry is emptied, an unused one
answers `Err(())`. -/
def clearEntry (pt : Frame) (idx : Nat) (m : Machine) : Outcome Unit Unit :=
  let entry := entryAt m.mem pt idx
  match entry.isUsed, entry.isPresent with
  | true, false => some (.ok (), m)
  | true, true => some (.ok (), { m with mem := TableWalk.write m.mem pt idx Amd64Entry.empty.bits })
  | false, _ => some (.error (), m)

/-! ### What `child_table_or_new` does -/

section ChildTable

variable {m : Machine} {table c a : Frame} {idx : Nat} {rest : List Frame}

/-- On a present entry `child_table_or_new` returns its table and changes nothing. -/
theorem childTableOrNew_of_present (h : childTable m.mem table idx = some c) :
    childTableOrNew table idx m = some (.ok c, m) := by
  simp [childTableOrNew, h]

/-- On an absent entry with no frame left it fails and changes nothing. -/
theorem childTableOrNew_of_absent_nil (h : childTable m.mem table idx = none)
    (hfree : m.free = []) : childTableOrNew table idx m = some (.error ⟨⟩, m) := by
  simp [childTableOrNew, h, newChildTable, emptyWith, hfree]

/-- On an absent entry it takes the allocator's next frame, empties it and points the entry
at it. -/
theorem childTableOrNew_of_absent_cons (h : childTable m.mem table idx = none)
    (hfree : m.free = a :: rest) (ha : a ≠ table) (hlt : a.number < 2 ^ 48) :
    ∃ e, decode e = some a ∧ childTableOrNew table idx m =
      some (.ok a, ⟨TableWalk.write (TableWalk.fill m.mem a 0) table idx e, rest⟩) := by
  -- the entry is read after the fill, which does not touch its table
  have hentry : entryAt (TableWalk.fill m.mem a 0) table idx = entryAt m.mem table idx := by
    simp [entryAt, TableWalk.fill_apply, Ne.symm ha]
  have habsent : (entryAt m.mem table idx).isPresent = false :=
    (Amd64Entry.pointedFrame_eq_none_iff _).mp h
  obtain ⟨e, he⟩ : ∃ e, (entryAt m.mem table idx).pointToFrame a = .ok e := by
    cases hp : (entryAt m.mem table idx).pointToFrame a with
    | error u =>
      have := Amd64Entry.pointToFrame_eq_error_iff.mp ⟨u, hp⟩
      rw [habsent] at this
      cases this
    | ok e => exact ⟨e, rfl⟩
  have hdecode : decode e.bits = some a := Amd64Entry.pointedFrame_of_pointToFrame he hlt
  refine ⟨e.bits, hdecode, ?_⟩
  have hchild : childTable (TableWalk.write (TableWalk.fill m.mem a 0) table idx e.bits) table idx =
      some a := by
    simpa [childTable, entryAt, decode] using hdecode
  simp only [childTableOrNew, h, Option.isNone_none, if_true, newChildTable, emptyWith, hfree,
    hentry, he, hchild]

end ChildTable

/-! ## `Amd64TTable` -/

/-- `Amd64TTable`, by the frame of its `PML4`. -/
structure Amd64TTable where
  pml4 : Frame
  deriving DecidableEq, Repr

namespace Amd64TTable

/-- `<Amd64TTable as KTable>::translate_page`. -/
def translatePage (t : Amd64TTable) (mem : Memory) (page : Page) : Option (Option Frame) :=
  if page.start < upperHalfStart then
    -- `child_table(..)?` at the `PML4`, `PDPT` and `PD` indices, then the `PT` entry's frame
    some ((TableWalk.walk decode mem t.pml4 [page.pml4Index, page.pdptIndex, page.pdIndex]).bind
      fun pt => childTable mem pt page.ptIndex)
  else none

/-- `<Amd64TTable as KTable>::map_page`. -/
def mapPage (t : Amd64TTable) (page : Page) (frame : Frame) (m : Machine) :
    Outcome MapPageError Unit :=
  if page.start < upperHalfStart then
    match childTablesOrNew t.pml4 [page.pml4Index, page.pdptIndex, page.pdIndex] m with
    | none => none
    | some (.error _, m') => some (.error .allocError, m')
    | some (.ok pt, m') => pointEntry pt page.ptIndex frame m'
  else none

/-- `<Amd64TTable as KTable>::unmap_page`. -/
def unmapPage (t : Amd64TTable) (page : Page) (m : Machine) : Outcome Unit Unit :=
  if page.start < upperHalfStart then
    -- `child_table_mut(..).ok_or(())?` at the `PML4`, `PDPT` and `PD` indices
    match TableWalk.walk decode m.mem t.pml4 [page.pml4Index, page.pdptIndex, page.pdIndex] with
    | none => some (.error (), m)
    | some pt => clearEntry pt page.ptIndex m
  else none

end Amd64TTable

/-! ## `Amd64KTable` -/

/-- `Amd64KTable`, by the frame of its first `PDPT` (`KTablePtr`). -/
structure Amd64KTable where
  tables : Frame
  deriving DecidableEq, Repr

namespace Amd64KTable

/-- The `PDPT` at `tables()[i]`: the tables are consecutive frames. Indexing past the 256
tables panics. -/
def pdptAt (k : Amd64KTable) (i : Nat) : Option Frame :=
  if i < 256 then some (k.tables + i) else none

/-- `<Amd64KTable as KTable>::translate_page`. Its `assert!` admits only addresses below the
upper half, whose `PML4` index `pml4_index - 256` then takes below zero unless bit 47 of the
address is set: an overflow panic, or with wrapping arithmetic an index past the 256 tables. -/
def translatePage (k : Amd64KTable) (mem : Memory) (page : Page) : Option (Option Frame) :=
  if page.start < upperHalfStart then
    if 256 ≤ page.pml4Index then
      (k.pdptAt (page.pml4Index - 256)).map fun pdpt =>
        (TableWalk.walk decode mem pdpt [page.pdptIndex, page.pdIndex]).bind
          fun pt => childTable mem pt page.ptIndex
    else none
  else none

/-- `<Amd64KTable as KTable>::map_page`. -/
def mapPage (k : Amd64KTable) (page : Page) (frame : Frame) (m : Machine) :
    Outcome MapPageError Unit :=
  if upperHalfStart ≤ page.start then
    match k.pdptAt (page.pml4Index - 256) with
    | none => none
    | some pdpt =>
      match childTablesOrNew pdpt [page.pdptIndex, page.pdIndex] m with
      | none => none
      | some (.error _, m') => some (.error .allocError, m')
      | some (.ok pt, m') => pointEntry pt page.ptIndex frame m'
  else none

/-- `<Amd64KTable as KTable>::unmap_page`. -/
def unmapPage (k : Amd64KTable) (page : Page) (m : Machine) : Outcome Unit Unit :=
  if upperHalfStart ≤ page.start then
    match k.pdptAt (page.pml4Index - 256) with
    | none => none
    | some pdpt =>
      match TableWalk.walk decode m.mem pdpt [page.pdptIndex, page.pdIndex] with
      | none => some (.error (), m)
      | some pt => clearEntry pt page.ptIndex m
  else none

end Amd64KTable

/-- `KTable::translate_address`, the trait's default method over any `translate_page`: the
page of the address, and the offset into it carried over to the frame. -/
def translateAddress (translatePage : Page → Option (Option Frame)) (addr : Nat) :
    Option (Option Nat) :=
  let aligned := addr / pageSize * pageSize
  let diff := addr - aligned
  (translatePage ⟨aligned / pageSize⟩).map fun physical =>
    physical.map fun frame => frame.start + diff

/-! ## Building the tables -/

/-- The body of the loop of `TTable::new`: entry `256 + i` of the new `PML4` pointed at the
kernel's `PDPT` `ktable.tables + i`. The `expect` panics on an entry already present. -/
def pointKernelEntry (ktable : Amd64KTable) (pml4Frame : Frame) (mem : Option Memory) (i : Nat) :
    Option Memory :=
  mem.bind fun mem =>
    match (entryAt mem pml4Frame (256 + i)).pointToFrame (ktable.tables + i) with
    | .error _ => none
    | .ok e => some (TableWalk.write mem pml4Frame (256 + i) e.bits)

/-- `<Amd64TTable as TTable>::new`: an empty `PML4` whose entries `256 + i` point to the
kernel's `PDPT`s `ktable.tables + i`. -/
def Amd64TTable.new (ktable : Amd64KTable) (m : Machine) : Outcome AllocError Amd64TTable :=
  match emptyWith m with
  | (.error e, m') => some (.error e, m')
  | (.ok pml4Frame, m') =>
    match (List.range 256).foldl (pointKernelEntry ktable pml4Frame) (some m'.mem) with
    | none => none
    | some mem => some (.ok ⟨pml4Frame⟩, { m' with mem := mem })

/-- The loop of `TTable::new` over empty entries does not panic: it points entry `256 + i`
at `ktable.tables + i` for each `i` of the list, and leaves every other entry as it was. -/
theorem foldl_pointKernelEntry (ktable : Amd64KTable) (pml4Frame : Frame) :
    ∀ (is : List Nat) (mem₀ : Memory), is.Nodup → (∀ i ∈ is, mem₀ pml4Frame (256 + i) = 0) →
      ∃ mem, is.foldl (pointKernelEntry ktable pml4Frame) (some mem₀) = some mem ∧
        (∀ b j, (b = pml4Frame → ∀ i ∈ is, j ≠ 256 + i) → mem b j = mem₀ b j) ∧
        ∀ i ∈ is, mem pml4Frame (256 + i) = (Amd64Entry.pointing (ktable.tables + i)).bits := by
  intro is
  induction is with
  | nil => exact fun mem₀ _ _ => ⟨mem₀, rfl, fun _ _ _ => rfl, by simp⟩
  | cons i is ih =>
    intro mem₀ hnodup hzero
    obtain ⟨hi, hnodup'⟩ := List.nodup_cons.mp hnodup
    -- the first iteration writes over an empty entry
    have hempty : entryAt mem₀ pml4Frame (256 + i) = Amd64Entry.empty := by
      simp [entryAt, Amd64Entry.empty, hzero i (by simp)]
    let mem₁ := TableWalk.write mem₀ pml4Frame (256 + i) (Amd64Entry.pointing (ktable.tables + i)).bits
    have hstep : pointKernelEntry ktable pml4Frame (some mem₀) i = some mem₁ := by
      simp [pointKernelEntry, hempty, Amd64Entry.pointToFrame_empty, mem₁]
    have hzero₁ : ∀ i' ∈ is, mem₁ pml4Frame (256 + i') = 0 := by
      intro i' hi'
      have hne : i' ≠ i := fun h => hi (h ▸ hi')
      simp [mem₁, hne, hzero i' (by simp [hi'])]
    obtain ⟨mem, hfold, hkeep, hset⟩ := ih mem₁ hnodup' hzero₁
    refine ⟨mem, by simpa [List.foldl_cons, hstep] using hfold, ?_, ?_⟩
    · intro b j hbj
      rw [hkeep b j (fun hb i' hi' => hbj hb i' (by simp [hi']))]
      simp only [mem₁, TableWalk.write_apply]
      rw [if_neg]
      rintro ⟨rfl, rfl⟩
      exact hbj rfl i (by simp) rfl
    · intro i' hi'
      rcases List.mem_cons.mp hi' with rfl | hi'
      · rw [hkeep _ _ (fun _ i'' hi'' h => hi (by simpa [show i'' = i' by omega] using hi''))]
        simp [mem₁]
      · exact hset i' hi'

/-- `TTable::new` with no frame left fails. -/
theorem Amd64TTable.new_of_nil {ktable : Amd64KTable} {m : Machine} (hfree : m.free = []) :
    Amd64TTable.new ktable m = some (.error ⟨⟩, m) := by
  simp [Amd64TTable.new, emptyWith, hfree]

/-- `TTable::new` does not panic: it empties the allocator's next frame and points its
entries `256 + i` at the kernel's `PDPT`s, leaving every other entry empty. -/
theorem Amd64TTable.new_of_cons (ktable : Amd64KTable) {m : Machine} {a : Frame}
    {rest : List Frame} (hfree : m.free = a :: rest) :
    ∃ mem, Amd64TTable.new ktable m = some (.ok ⟨a⟩, ⟨mem, rest⟩) ∧
      (∀ b j, (b = a → j < 256 ∨ 512 ≤ j) → mem b j = TableWalk.fill m.mem a 0 b j) ∧
      ∀ i < 256, mem a (256 + i) = (Amd64Entry.pointing (ktable.tables + i)).bits := by
  obtain ⟨mem, hfold, hkeep, hset⟩ := foldl_pointKernelEntry ktable a (List.range 256)
    (TableWalk.fill m.mem a 0) List.nodup_range (fun i _ => by simp)
  refine ⟨mem, ?_, ?_, ?_⟩
  · unfold Amd64TTable.new emptyWith
    simp only [hfree]
    rw [hfold]
  · intro b j hbj
    apply hkeep b j
    intro hb i hi
    have := hbj hb
    simp only [List.mem_range] at hi
    omega
  · intro i hi
    exact hset i (List.mem_range.mpr hi)

/-- `construct_tables`: the address space the bootloader left in `CR3`, and the kernel's
`PDPT`s found through its entry 256 (`expect("Invalid TTable")`). -/
def constructTables (mem : Memory) (cr3 : Nat) : Option (Amd64KTable × Amd64TTable) :=
  let ttableBase := cr3 &&& 0xffff_ffff_ffff_f000
  let ttable : Amd64TTable := ⟨⟨ttableBase / pageSize⟩⟩
  ((entryAt mem ttable.pml4 256).pointedFrame).map fun ktableBase => (⟨ktableBase⟩, ttable)

end Amd64
end Popcorn
