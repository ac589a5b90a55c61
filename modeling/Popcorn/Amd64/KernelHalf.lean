import Popcorn.Bootloader.Paging

/-!
# One kernel half in every address space

The kernel's half of the address space is shared: its 256 `PDPT`s are allocated once, by
the bootloader in `PageTable::try_new`, and every `PML4` points its entries `256..512` at
them. `construct_tables` finds them again through entry 256 of the table the bootloader left
in `CR3`, and `TTable::new` points each new address space at them.

The processor reads a table entry with the address field of bits 12 to 51 (`hardwareDecode`,
4 KiB pages only: no entry here sets the page-size bit). The bootloader masks with the same
bits, the kernel with bits 12 to 59; below physical address `2 ^ 52` all three agree on
the entries written here, and `kernel_half_shared` follows.
-/

namespace Popcorn
namespace Amd64

open Bootloader

/-- How the processor reads an entry in a walk: present, and the address in bits 12 to 51. -/
def hardwareDecode (w : BitVec 64) : Option Frame :=
  if w.getLsbD 0 then some ⟨(w &&& 0x000f_ffff_ffff_f000#64).toNat / pageSize⟩ else none

/-- The processor's walk of a page from the `PML4` in `CR3`. -/
def hardwareWalk (mem : Memory) (cr3 : Frame) (page : Page) : Option Frame :=
  TableWalk.walk hardwareDecode mem cr3 page.indices

/-! ## Entries -/

theorem addressMask52_toNat : (0x000f_ffff_ffff_f000#64).toNat = (2 ^ 40 - 1) * 2 ^ 12 := by
  decide

/-- A page-aligned address below `2 ^ 52` passes the processor's mask whole. -/
theorem and_addressMask52 {addr : Nat} (halign : addr % pageSize = 0) (hlt : addr < 2 ^ 52) :
    (BitVec.ofNat 64 addr &&& 0x000f_ffff_ffff_f000#64).toNat = addr := by
  have hsplit : addr = addr / 2 ^ 12 * 2 ^ 12 := by
    simp only [pageSize] at halign
    omega
  have hfield : addr / 2 ^ 12 < 2 ^ 40 := by omega
  rw [BitVec.toNat_and, BitVec.toNat_ofNat, Nat.mod_eq_of_lt (by omega), addressMask52_toNat,
    hsplit, Word.mul_two_pow_and_field hfield, ← hsplit]

/-- The entry the bootloader writes into `TableEntry::new()` for the table at `tab`. -/
def bootEntry (tab : Nat) : BitVec 64 :=
  (TableEntry.new.setPointedFrameUnchecked tab TableEntryFlags.permissive).bits

theorem setPointedFrame_new (tab : Nat) (flags : BitVec 64) :
    TableEntry.new.setPointedFrame tab flags = .ok (TableEntry.new.setPointedFrameUnchecked tab flags) := by
  have hnone : TableEntry.new.pointedFrame = none := by decide
  simp [TableEntry.setPointedFrame, hnone]

/-- The processor follows a bootloader entry to its table, -/
theorem hardwareDecode_bootEntry {tab : Nat} (halign : tab % pageSize = 0) (hlt : tab < 2 ^ 52) :
    hardwareDecode (bootEntry tab) = some (frameOf tab) := by
  have hflags : (TableEntryFlags.permissive ||| TableEntryFlags.present) &&&
      0x000f_ffff_ffff_f000#64 = 0#64 := by decide
  have hfield : bootEntry tab &&& 0x000f_ffff_ffff_f000#64 =
      BitVec.ofNat 64 tab &&& 0x000f_ffff_ffff_f000#64 :=
    Word.or_and_not_and_eq hflags
  have hpresent : (bootEntry tab).getLsbD 0 = true := by
    simp [bootEntry, TableEntry.setPointedFrameUnchecked, TableEntryFlags.present]
  rw [hardwareDecode, if_pos hpresent, hfield, and_addressMask52 halign hlt]
  rfl

/-- and so does the kernel, with its wider mask. -/
theorem pointedFrame_bootEntry {tab : Nat} (halign : tab % pageSize = 0) (hlt : tab < 2 ^ 52) :
    (Amd64Entry.mk (bootEntry tab)).pointedFrame = some (frameOf tab) := by
  have hflags : (TableEntry.new.bits &&& ~~~TableEntry.addressMask) &&& Amd64Entry.address = 0#64 := by
    decide
  have hflags' : (TableEntryFlags.permissive ||| TableEntryFlags.present) &&&
      Amd64Entry.address = 0#64 := by decide
  have hmask : TableEntry.addressMask &&& Amd64Entry.address = TableEntry.addressMask := by decide
  have hfield : bootEntry tab &&& Amd64Entry.address =
      BitVec.ofNat 64 tab &&& 0x000f_ffff_ffff_f000#64 := by
    simp only [bootEntry, TableEntry.setPointedFrameUnchecked, BitVec.and_or_distrib_right,
      hflags, hflags', BitVec.and_assoc, hmask, BitVec.zero_or, BitVec.or_zero]
    rfl
  have hpresent : (Amd64Entry.mk (bootEntry tab)).isPresent = true := by
    rw [Amd64Entry.isPresent_iff]
    simp [bootEntry, TableEntry.setPointedFrameUnchecked, TableEntryFlags.present]
  unfold Amd64Entry.pointedFrame
  rw [hpresent]
  simp only [Bool.not_true, Bool.false_eq_true, if_false, hfield, and_addressMask52 halign hlt]
  rfl

/-- The processor follows an entry `point_to_frame` wrote into an empty one. -/
theorem hardwareDecode_pointing {frame : Frame} (hlt : frame.number < 2 ^ 40) :
    hardwareDecode (Amd64Entry.pointing frame).bits = some frame := by
  have hflags : (Amd64Entry.present ||| Amd64Entry.writable) &&& 0x000f_ffff_ffff_f000#64 = 0#64 := by
    decide
  have hmask : Amd64Entry.address &&& 0x000f_ffff_ffff_f000#64 = 0x000f_ffff_ffff_f000#64 := by
    decide
  have hfield : (Amd64Entry.pointing frame).bits &&& 0x000f_ffff_ffff_f000#64 =
      BitVec.ofNat 64 frame.start &&& 0x000f_ffff_ffff_f000#64 := by
    simp only [Amd64Entry.pointing, BitVec.or_assoc, BitVec.and_or_distrib_right, hflags,
      BitVec.and_assoc, hmask, BitVec.or_zero]
  have hpresent : (Amd64Entry.pointing frame).bits.getLsbD 0 = true := by
    simp [Amd64Entry.pointing, Amd64Entry.present]
  have halign : frame.start % pageSize = 0 := by simp [Frame.start]
  have hstart : frame.start < 2 ^ 52 := by
    simp only [Frame.start, pageSize]
    omega
  rw [hardwareDecode, if_pos hpresent, hfield, and_addressMask52 halign hstart]
  simp [Frame.start, pageSize]

/-! ## Building the tables -/

/-- The loop of `try_new`, over kernel tables outside the `Level4` table's frame, does not
panic: it points entry `i + 256` at the `i`-th table, and leaves the other entries of the
`Level4` table as they were. -/
theorem foldl_initKernelTable (table l3 : Nat) :
    ∀ (is : List Nat) (mem₀ : Memory), is.Nodup →
      (∀ i ∈ is, frameOf (l3 + i * pageSize) ≠ frameOf table) →
      (∀ i ∈ is, mem₀ (frameOf table) (i + 256) = TableEntry.new.bits) →
      ∃ mem, is.foldl (initKernelTable table l3) (some mem₀) = some mem ∧
        (∀ j, (∀ i ∈ is, j ≠ i + 256) → mem (frameOf table) j = mem₀ (frameOf table) j) ∧
        ∀ i ∈ is, mem (frameOf table) (i + 256) = bootEntry (l3 + i * pageSize) := by
  intro is
  induction is with
  | nil => exact fun mem₀ _ _ _ => ⟨mem₀, rfl, fun _ _ => rfl, by simp⟩
  | cons i is ih =>
    intro mem₀ hnodup hframes hnew
    obtain ⟨hi, hnodup'⟩ := List.nodup_cons.mp hnodup
    have hne : frameOf (l3 + i * pageSize) ≠ frameOf table := hframes i (by simp)
    -- the first iteration empties its table, which is not the `Level4` one
    let filled := TableWalk.fill mem₀ (frameOf (l3 + i * pageSize)) TableEntry.new.bits
    have hfilled : ∀ j, filled (frameOf table) j = mem₀ (frameOf table) j := by
      intro j
      simp [filled, TableWalk.fill_apply, Ne.symm hne]
    let mem₁ := TableWalk.write filled (frameOf table) (i + 256) (bootEntry (l3 + i * pageSize))
    have hstep : initKernelTable table l3 (some mem₀) i = some mem₁ := by
      have hentry : TableEntry.mk (filled (frameOf table) (i + 256)) = TableEntry.new := by
        rw [hfilled, hnew i (by simp)]
      simp only [initKernelTable, Option.bind_some]
      rw [show TableWalk.fill mem₀ (frameOf (l3 + i * pageSize)) TableEntry.new.bits = filled
        from rfl, hentry, setPointedFrame_new]
      rfl
    have hmem₁ : ∀ j, j ≠ i + 256 → mem₁ (frameOf table) j = mem₀ (frameOf table) j := by
      intro j hj
      simp [mem₁, hj, hfilled]
    obtain ⟨mem, hfold, hkeep, hset⟩ := ih mem₁ hnodup'
      (fun i' hi' => hframes i' (by simp [hi']))
      (fun i' hi' => by
        rw [hmem₁ _ (fun h => hi (by rw [show i' = i by omega] at hi'; exact hi'))]
        exact hnew i' (by simp [hi']))
    refine ⟨mem, by simpa [List.foldl_cons, hstep] using hfold, ?_, ?_⟩
    · intro j hj
      rw [hkeep j (fun i' hi' => hj i' (by simp [hi'])), hmem₁ j (hj i (by simp))]
    · intro i' hi'
      rcases List.mem_cons.mp hi' with rfl | hi'
      · rw [hkeep _ (fun i'' hi'' h => hi (by rw [show i'' = i' by omega] at hi''; exact hi''))]
        simp [mem₁]
      · exact hset i' hi'

/-- `try_new` with two allocations that do not overlap, the first aligned and not null, does
not panic, and points entry `i + 256` of its `Level4` table at the `i`-th kernel table. -/
theorem tryNew_eq {ε : Type} {allocate : Nat → Except ε Nat} (mem₀ : Memory) {A B : Nat}
    (h1 : allocate 1 = .ok A) (hA : A % 8 = 0) (hA0 : 0 < A) (h256 : allocate 256 = .ok B)
    (hdisjoint : ∀ i < 256, frameOf (B + i * pageSize) ≠ frameOf A) :
    ∃ mem, tryNew allocate mem₀ = some (.ok (A, mem)) ∧
      ∀ i < 256, mem (frameOf A) (i + 256) = bootEntry (B + i * pageSize) := by
  obtain ⟨mem, hfold, -, hset⟩ := foldl_initKernelTable A B (List.range 256)
    (TableWalk.fill mem₀ (frameOf A) TableEntry.new.bits) List.nodup_range
    (fun i hi => hdisjoint i (List.mem_range.mp hi)) (fun i _ => by simp)
  refine ⟨mem, ?_, fun i hi => hset i (List.mem_range.mpr hi)⟩
  have halloc : tryNewAllocations (fun (s : Unit) n => (allocate n, s)) () =
      some (.ok (A, B), ()) :=
    tryNewAllocations_eq_ok (by rw [h1]) hA hA0 (by rw [h256])
  rw [tryNew, halloc, Option.bind_some]
  dsimp only
  rw [hfold]
  rfl

/-- `construct_tables` on the table the bootloader left in `CR3` finds the kernel's `PDPT`s
where its entry 256 points. -/
theorem constructTables_eq (mem : Memory) {A tab : Nat} (hA : A % pageSize = 0)
    (hAlt : A < 2 ^ 64) (htab : tab % pageSize = 0) (htablt : tab < 2 ^ 52)
    (h256 : mem (frameOf A) 256 = bootEntry tab) :
    constructTables mem A = some (⟨frameOf tab⟩, ⟨frameOf A⟩) := by
  -- masking `CR3` keeps a page-aligned address
  have hbase : A &&& 0xffff_ffff_ffff_f000 = A := by
    have hsplit : A = A / 2 ^ 12 * 2 ^ 12 := by
      simp only [pageSize] at hA
      omega
    rw [show (0xffff_ffff_ffff_f000 : Nat) = (2 ^ 52 - 1) * 2 ^ 12 by norm_num, hsplit,
      Word.mul_two_pow_and_field (by omega), ← hsplit]
  have hentry : entryAt mem ⟨A / pageSize⟩ 256 = ⟨bootEntry tab⟩ := by
    rw [entryAt, ← h256]
    rfl
  simp only [constructTables, hbase]
  rw [hentry, pointedFrame_bootEntry htab htablt]
  rfl

/-- The kernel's `PDPT` for a `PML4` index of the upper half. -/
theorem pdptAt_eq (k : Amd64KTable) {page : Page} (h : 256 ≤ page.pml4Index) :
    k.pdptAt (page.pml4Index - 256) = some (k.tables + (page.pml4Index - 256)) := by
  have hlt := Page.index_lt Level.pml4 page
  rw [Amd64KTable.pdptAt, if_pos (by rw [Page.pml4Index] at h ⊢; omega)]

/-- Every address space shares the bootloader's kernel half. The table `try_new` builds,
from two page-aligned allocations below physical address `2 ^ 52` that do not overlap, the
first not null as its `debug_assert!` asks, leads `construct_tables` to the 256 kernel `PDPT`s the bootloader allocated; the processor
follows its `PML4` entry for every upper-half page to the kernel table's `PDPT` for that
page, and so it does in every table `TTable::new` builds; and from any `PML4` whose entry so
points, the processor's walk of an upper-half page goes on through that `PDPT` alone, so that
a mapping made or removed there is seen from every `CR3` alike. -/
theorem kernel_half_shared {ε : Type} (allocate : Nat → Except ε Nat) (mem₀ : Memory)
    (A B : Nat) (h1 : allocate 1 = .ok A) (h256 : allocate 256 = .ok B) (hA : A % pageSize = 0)
    (hA0 : 0 < A) (hB : B % pageSize = 0) (hAlt : A < 2 ^ 52) (hBlt : B + 256 * pageSize ≤ 2 ^ 52)
    (hdisjoint : A / pageSize < B / pageSize ∨ B / pageSize + 256 ≤ A / pageSize) :
    ∃ mem₁ k t, tryNew allocate mem₀ = some (.ok (A, mem₁)) ∧
      constructTables mem₁ A = some (k, t) ∧ k.tables = frameOf B ∧ t.pml4 = frameOf A ∧
      (∀ page : Page, 256 ≤ page.pml4Index →
        hardwareDecode (mem₁ t.pml4 page.pml4Index) = k.pdptAt (page.pml4Index - 256)) ∧
      (∀ (m m' : Machine) (t' : Amd64TTable), Amd64TTable.new k m = some (.ok t', m') →
        ∀ page : Page, 256 ≤ page.pml4Index →
          hardwareDecode (m'.mem t'.pml4 page.pml4Index) = k.pdptAt (page.pml4Index - 256)) ∧
      (∀ (mem : Memory) (root : Frame) (page : Page), 256 ≤ page.pml4Index →
        hardwareDecode (mem root page.pml4Index) = k.pdptAt (page.pml4Index - 256) →
        hardwareWalk mem root page = (k.pdptAt (page.pml4Index - 256)).bind fun pdpt =>
          TableWalk.walk hardwareDecode mem pdpt [page.pdptIndex, page.pdIndex, page.ptIndex]) := by
  -- the `i`-th kernel table is the frame `i` past the first
  have hframe : ∀ i, frameOf (B + i * pageSize) = frameOf B + i := by
    intro i
    simp only [frameOf, Frame.eq_iff, Frame.number_add]
    rw [Nat.add_mul_div_right _ _ (by decide : 0 < pageSize)]
  have hdisjoint' : ∀ i < 256, frameOf (B + i * pageSize) ≠ frameOf A := by
    intro i hi h
    rw [hframe, Frame.eq_iff, Frame.number_add] at h
    simp only [frameOf] at h
    omega
  have hA8 : A % 8 = 0 := by
    simp only [pageSize] at hA
    omega
  obtain ⟨mem₁, htry, hentries⟩ := tryNew_eq mem₀ h1 hA8 hA0 h256 hdisjoint'
  have htab : ∀ i < 256, (B + i * pageSize) % pageSize = 0 ∧ B + i * pageSize < 2 ^ 52 := by
    intro i hi
    refine ⟨by rw [Nat.add_mul_mod_self_right]; exact hB, ?_⟩
    simp only [pageSize] at hBlt ⊢
    omega
  have hconstruct := constructTables_eq mem₁ hA (by omega) (htab 0 (by omega)).1
    (htab 0 (by omega)).2 (by simpa using hentries 0 (by omega))
  simp only [Nat.zero_mul, Nat.add_zero] at hconstruct
  -- the kernel half of a `PML4` is its entries `256 + i`, `i < 256`
  have hupper : ∀ page : Page, 256 ≤ page.pml4Index → page.pml4Index - 256 < 256 := by
    intro page _
    have := Page.index_lt Level.pml4 page
    unfold Page.pml4Index
    omega
  refine ⟨mem₁, ⟨frameOf B⟩, ⟨frameOf A⟩, htry, hconstruct, rfl, rfl, ?_, ?_, ?_⟩
  · intro page hpage
    have hi := hupper page hpage
    have hidx : page.pml4Index = (page.pml4Index - 256) + 256 := by omega
    rw [pdptAt_eq _ hpage, hidx, hentries _ hi,
      hardwareDecode_bootEntry (htab _ hi).1 (htab _ hi).2, hframe, ← hidx]
  · intro m m' t' hnew page hpage
    have hi := hupper page hpage
    cases hfree : m.free with
    | nil => simp [Amd64TTable.new_of_nil hfree] at hnew
    | cons a rest =>
      obtain ⟨mem, hnew', -, hset⟩ := Amd64TTable.new_of_cons ⟨frameOf B⟩ hfree
      rw [hnew', Option.some.injEq, Prod.mk.injEq, Except.ok.injEq] at hnew
      obtain ⟨rfl, rfl⟩ := hnew
      have hidx : page.pml4Index = 256 + (page.pml4Index - 256) := by omega
      dsimp only
      rw [pdptAt_eq _ hpage, hidx, hset _ hi, ← hidx]
      apply hardwareDecode_pointing
      simp only [frameOf, Frame.number_add, pageSize] at hBlt ⊢
      omega
  · intro mem root page _ hroot
    rw [hardwareWalk, show page.indices = page.pml4Index :: [page.pdptIndex, page.pdIndex,
      page.ptIndex] from rfl, TableWalk.walk_cons, hroot]

/-- The bootloader's allocations at `0x1000` and `0x100000`, through the theorem. -/
theorem kernel_half_shared_at_boot :
    ∃ mem₁ k t, tryNew (fun n => if n = 1 then (.ok 0x1000 : Except Unit Nat) else .ok 0x100000)
        (fun _ _ => 0) = some (.ok (0x1000, mem₁)) ∧
      constructTables mem₁ 0x1000 = some (k, t) ∧ k.tables = ⟨0x100⟩ := by
  obtain ⟨mem₁, k, t, htry, hconstruct, hk, -⟩ := kernel_half_shared
    (fun n => if n = 1 then (.ok 0x1000 : Except Unit Nat) else .ok 0x100000) (fun _ _ => 0)
    0x1000 0x100000 rfl rfl (by decide) (by decide) (by decide) (by decide) (by decide)
    (by decide)
  exact ⟨mem₁, k, t, htry, hconstruct, hk⟩

end Amd64
end Popcorn
