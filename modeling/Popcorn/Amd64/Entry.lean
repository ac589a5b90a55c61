import Popcorn.Lib.Word
import Popcorn.Memory.Frame

/-!
# Page-table entries and page indices on amd64

`hal::arch::amd64::paging::Amd64Entry` is a 64-bit entry whose bit 0 says it is present and
whose bits 12 to 59 (`ADDRESS`) hold the address of the frame it points to.
`paging2::table::PageIndices` cuts the index into each of the four levels of tables out of a
page's start address with a mask and a shift.

The lemmas of this file say what the tables need of them: an entry written by
`point_to_frame` points to the frame it was given (`pointedFrame_of_pointToFrame`), and a
page is determined by its four indices (`Page.eq_of_indices_eq`) within the 48 bits of
address a walk covers.
-/

namespace Popcorn

/-- `Amd64Entry`: a page-table entry as the kernel reads the word in memory. -/
structure Amd64Entry where
  bits : BitVec 64
  deriving DecidableEq, Repr

namespace Amd64Entry

/-- `Amd64Entry::PRESENT`. -/
def present : BitVec 64 := 1#64 <<< 0

/-- `Amd64Entry::WRITABLE`. -/
def writable : BitVec 64 := 1#64 <<< 1

/-- `Amd64Entry::ADDRESS`. -/
def address : BitVec 64 := 0x0fff_ffff_ffff_f000#64

/-- `Entry::empty`. -/
def empty : Amd64Entry := ⟨0⟩

/-- `Entry::is_present`: the `bitflags` `contains(PRESENT)`. -/
def isPresent (e : Amd64Entry) : Bool := e.bits &&& present == present

/-- `Amd64Entry::is_used`. -/
def isUsed (e : Amd64Entry) : Bool := e.isPresent

/-- `Entry::pointed_frame`. -/
def pointedFrame (e : Amd64Entry) : Option Frame :=
  if !e.isPresent then none
  else
    let addr := e.bits &&& address
    some ⟨addr.toNat / pageSize⟩

/-- `Entry::point_to_frame`: refuses an entry already present. -/
def pointToFrame (e : Amd64Entry) (frame : Frame) : Except Unit Amd64Entry :=
  if e.isPresent then .error ()
  else
    let emptyEntry := e.bits &&& ~~~address
    let maskedAddr := BitVec.ofNat 64 frame.start &&& address
    .ok ⟨emptyEntry ||| maskedAddr ||| present ||| writable⟩

theorem address_toNat : address.toNat = (2 ^ 48 - 1) * 2 ^ 12 := by decide

theorem isPresent_iff (e : Amd64Entry) : e.isPresent = true ↔ e.bits.getLsbD 0 = true := by
  unfold isPresent present
  constructor
  · intro h
    have h' := congrArg (fun x => x.getLsbD 0) (beq_iff_eq.mp h)
    simpa using h'
  · intro h
    rw [beq_iff_eq]
    apply BitVec.eq_of_getLsbD_eq
    intro i hi
    by_cases hi0 : i = 0
    · subst hi0
      simp [h]
    · simp [hi0]

@[simp] theorem isPresent_empty : empty.isPresent = false := by decide

theorem pointedFrame_eq_none_iff (e : Amd64Entry) : e.pointedFrame = none ↔ e.isPresent = false := by
  unfold pointedFrame
  cases e.isPresent <;> simp

@[simp] theorem pointedFrame_empty : empty.pointedFrame = none := by decide

/-- The frame an entry points to, read from its address field. -/
theorem pointedFrame_eq_some {e : Amd64Entry} (h : e.isPresent = true) :
    e.pointedFrame = some ⟨e.bits.toNat / 2 ^ 12 % 2 ^ 48⟩ := by
  unfold pointedFrame
  rw [h]
  simp only [Bool.not_true, Bool.false_eq_true, if_false, Option.some.injEq, Frame.mk.injEq]
  rw [BitVec.toNat_and, address_toNat, Word.and_field_eq, pageSize]
  exact Nat.mul_div_cancel _ (Nat.two_pow_pos 12)

theorem pointToFrame_eq_ok {e e' : Amd64Entry} {frame : Frame}
    (h : e.pointToFrame frame = .ok e') :
    e.isPresent = false ∧
      e'.bits = (e.bits &&& ~~~address) ||| (BitVec.ofNat 64 frame.start &&& address) |||
        present ||| writable := by
  unfold pointToFrame at h
  split at h
  · cases h
  · rename_i hp
    cases h
    exact ⟨by simpa using hp, rfl⟩

/-- An entry `point_to_frame` writes is present, -/
theorem isPresent_of_pointToFrame {e e' : Amd64Entry} {frame : Frame}
    (h : e.pointToFrame frame = .ok e') : e'.isPresent = true := by
  rw [isPresent_iff, (pointToFrame_eq_ok h).2]
  simp [present, writable]

/-- and points to the frame it was given, when its address fits the address field. -/
theorem pointedFrame_of_pointToFrame {e e' : Amd64Entry} {frame : Frame}
    (h : e.pointToFrame frame = .ok e') (hframe : frame.number < 2 ^ 48) :
    e'.pointedFrame = some frame := by
  have hflags : (present ||| writable) &&& address = 0#64 := by decide
  have hfield : e'.bits &&& address = BitVec.ofNat 64 frame.start &&& address := by
    rw [(pointToFrame_eq_ok h).2, BitVec.or_assoc]
    exact Word.or_and_not_and_eq hflags
  unfold pointedFrame
  rw [isPresent_of_pointToFrame h, hfield]
  have hstart : frame.start = frame.number * 2 ^ 12 := rfl
  have hlt : frame.number * 2 ^ 12 < 2 ^ 64 := by
    calc frame.number * 2 ^ 12 < 2 ^ 48 * 2 ^ 12 := by
          exact Nat.mul_lt_mul_of_pos_right hframe (by norm_num)
      _ = 2 ^ 60 := by norm_num
      _ < 2 ^ 64 := by norm_num
  simp only [Bool.not_true, Bool.false_eq_true, if_false, Option.some.injEq]
  have hdiv : frame.number * 2 ^ 12 / pageSize = frame.number :=
    Nat.mul_div_cancel _ (Nat.two_pow_pos 12)
  rw [BitVec.toNat_and, BitVec.toNat_ofNat, hstart, Nat.mod_eq_of_lt hlt, address_toNat,
    Word.mul_two_pow_and_field hframe, hdiv]

/-- The entry `point_to_frame` writes over an empty one. -/
def pointing (frame : Frame) : Amd64Entry :=
  ⟨(BitVec.ofNat 64 frame.start &&& address) ||| present ||| writable⟩

theorem pointToFrame_empty (frame : Frame) : empty.pointToFrame frame = .ok (pointing frame) := by
  unfold pointToFrame
  rw [isPresent_empty]
  simp [empty, pointing]

/-- `point_to_frame` fails exactly on a present entry. -/
theorem pointToFrame_eq_error_iff {e : Amd64Entry} {frame : Frame} :
    (∃ u, e.pointToFrame frame = .error u) ↔ e.isPresent = true := by
  unfold pointToFrame
  split
  · rename_i hp
    exact ⟨fun _ => hp, fun _ => ⟨(), rfl⟩⟩
  · rename_i hp
    simp [hp]

end Amd64Entry

/-! ## Page indices -/

namespace Amd64

/-- The four levels of tables (`paging2::table::{PML4, PDPT, PD, PT}`). -/
inductive Level
  | pml4
  | pdpt
  | pd
  | pt
  deriving DecidableEq, Repr

namespace Level

/-- `Level::MASK`. -/
def mask : Level → Nat
  | pml4 => 0o777_000_000_000_0000
  | pdpt => 0o777_000_000_0000
  | pd => 0o777_000_0000
  | pt => 0o777_0000

/-- `Level::SHIFT`. -/
def shift : Level → Nat
  | pml4 => 12 + 9 * 3
  | pdpt => 12 + 9 * 2
  | pd => 12 + 9 * 1
  | pt => 12 + 9 * 0

/-- Each mask is nine bits in place at its shift. -/
theorem mask_eq (level : Level) : level.mask = (2 ^ 9 - 1) * 2 ^ level.shift := by
  cases level <;> rfl

/-- How far up the page number a level's index sits. -/
def pageShift : Level → Nat
  | pml4 => 27
  | pdpt => 18
  | pd => 9
  | pt => 0

theorem shift_eq (level : Level) : level.shift = level.pageShift + 12 := by
  cases level <;> rfl

end Level

end Amd64

namespace Page

open Amd64

/-- `PageIndices for Page`: the index into a level's table, cut from the start address. -/
def index (level : Level) (page : Page) : Nat :=
  (page.start &&& level.mask) >>> level.shift

/-- `PageIndices::pml4_index`. -/
def pml4Index (page : Page) : Nat := page.index .pml4

/-- `PageIndices::pdpt_index`. -/
def pdptIndex (page : Page) : Nat := page.index .pdpt

/-- `PageIndices::pd_index`. -/
def pdIndex (page : Page) : Nat := page.index .pd

/-- `PageIndices::pt_index`. -/
def ptIndex (page : Page) : Nat := page.index .pt

/-- The index at a level is nine bits of the page number. -/
theorem index_eq (level : Level) (page : Page) :
    page.index level = page.number / 2 ^ level.pageShift % 2 ^ 9 := by
  unfold index
  have hstart : page.start / 2 ^ level.shift = page.number / 2 ^ level.pageShift := by
    rw [Level.shift_eq, Nat.pow_add, Nat.mul_comm, ← Nat.div_div_eq_div_mul]
    congr 1
    exact Nat.mul_div_cancel _ (Nat.two_pow_pos 12)
  rw [Level.mask_eq, Word.and_field_shiftRight, hstart]

theorem index_lt (level : Level) (page : Page) : page.index level < 512 := by
  rw [index_eq]
  exact Nat.mod_lt _ (by norm_num)

/-- The four indices of a walk, from the `PML4` down. -/
def indices (page : Page) : List Nat :=
  [page.pml4Index, page.pdptIndex, page.pdIndex, page.ptIndex]

/-- A page below the 48 bits of address a walk covers is determined by its indices. -/
theorem eq_of_indices_eq {p q : Page} (hp : p.number < 2 ^ 36) (hq : q.number < 2 ^ 36)
    (h : p.indices = q.indices) : p = q := by
  simp only [indices, pml4Index, pdptIndex, pdIndex, ptIndex, index_eq, Level.pageShift,
    List.cons.injEq, and_true] at h
  rw [Page.eq_iff]
  omega

/-- Two pages in the same window of `2 ^ 36` pages are determined by their indices. -/
theorem eq_of_indices_eq_of_window {p q : Page} {base : Nat} (hp : base ≤ p.number)
    (hp' : p.number < base + 2 ^ 36) (hq : base ≤ q.number) (hq' : q.number < base + 2 ^ 36)
    (h : p.indices = q.indices) : p = q := by
  simp only [indices, pml4Index, pdptIndex, pdIndex, ptIndex, index_eq, Level.pageShift,
    List.cons.injEq, and_true] at h
  rw [Page.eq_iff]
  omega

end Page

end Popcorn
