import Mathlib

/-!
# Segment and gate descriptors

How an x86-64 processor reads the descriptors of its GDT and IDT. A code or data segment
descriptor is eight bytes; a system descriptor of 64-bit mode (a TSS) and an interrupt or trap
gate are sixteen. A descriptor is read as one little-endian number, so each of its fields is
a slice of bits (`extractLsb'`), and a base or an offset split over several slices is put back
together by appending them.

Descriptors are built by or-ing each field, shifted to its place, into a word (`packFields`).
When each field lies above what is already in the word and inside its width (`FitsFrom`), the
or adds: the word is the sum of the fields at their places (`toNat_packFields`), and a slice
of it at a field's place is that field.
-/

namespace X86

/-! ## Reading descriptors -/

/-- A code or data segment descriptor, as the processor reads it. `system` is set when the
descriptor-type flag `S` is clear. -/
structure Segment where
  base : BitVec 32
  limit : BitVec 20
  type : BitVec 4
  system : Bool
  dpl : BitVec 2
  present : Bool
  long : Bool
  defaultSize : Bool
  granularity : Bool
  deriving DecidableEq, Repr

/-- The eight bytes of a segment descriptor, read as the processor reads them. -/
def Segment.decode (d : BitVec 64) : Segment where
  base := d.extractLsb' 56 8 ++ d.extractLsb' 32 8 ++ d.extractLsb' 16 16
  limit := d.extractLsb' 48 4 ++ d.extractLsb' 0 16
  type := d.extractLsb' 40 4
  system := !d.getLsbD 44
  dpl := d.extractLsb' 45 2
  present := d.getLsbD 47
  long := d.getLsbD 53
  defaultSize := d.getLsbD 54
  granularity := d.getLsbD 55

/-- A present code segment of 64-bit mode: executable, with `L` set and `D` clear. -/
def Segment.isLongCode (s : Segment) : Bool :=
  s.present && !s.system && s.type.getLsbD 3 && s.long && !s.defaultSize

/-- A present writable data segment. -/
def Segment.isWritableData (s : Segment) : Bool :=
  s.present && !s.system && !s.type.getLsbD 3 && s.type.getLsbD 1

/-- A system descriptor of 64-bit mode, such as a TSS descriptor: sixteen bytes, the second
eight holding the upper half of the base. -/
structure SystemSegment where
  base : BitVec 64
  limit : BitVec 20
  type : BitVec 4
  system : Bool
  dpl : BitVec 2
  present : Bool
  deriving DecidableEq, Repr

/-- The sixteen bytes of a system descriptor, the low eight first. -/
def SystemSegment.decode (low high : BitVec 64) : SystemSegment where
  base := high.extractLsb' 0 32 ++ (Segment.decode low).base
  limit := (Segment.decode low).limit
  type := (Segment.decode low).type
  system := (Segment.decode low).system
  dpl := (Segment.decode low).dpl
  present := (Segment.decode low).present

/-- The type of an available 64-bit TSS. -/
def availableTss : BitVec 4 := 0x9

/-- A gate descriptor of the IDT in 64-bit mode. -/
structure Gate where
  offset : BitVec 64
  selector : BitVec 16
  ist : BitVec 3
  type : BitVec 4
  dpl : BitVec 2
  present : Bool
  deriving DecidableEq, Repr

/-- The sixteen bytes of a gate descriptor, read as the processor reads them. -/
def Gate.decode (d : BitVec 128) : Gate where
  offset := d.extractLsb' 64 32 ++ d.extractLsb' 48 16 ++ d.extractLsb' 0 16
  selector := d.extractLsb' 16 16
  ist := d.extractLsb' 32 3
  type := d.extractLsb' 40 4
  dpl := d.extractLsb' 45 2
  present := d.getLsbD 47

/-- The type of a 64-bit interrupt gate, through which delivery clears `IF`. -/
def interruptGate : BitVec 4 := 0xE

/-- The index in the descriptor table that a selector names. -/
def selectorIndex (selector : BitVec 16) : ℕ := selector.toNat / 8

/-- The segment descriptor a selector of the GDT names, in a table of eight-byte words whose
GDTR limit is `limit`; `none` when the selector names the LDT or a descriptor past the
limit. -/
def segmentAt (table : List (BitVec 64)) (limit selector : BitVec 16) : Option Segment :=
  if selector.getLsbD 2 = false ∧ 8 * selectorIndex selector + 7 ≤ limit.toNat then
    table[selectorIndex selector]?.map Segment.decode
  else none

/-- The sixteen-byte system descriptor a selector of the GDT names. -/
def systemSegmentAt (table : List (BitVec 64)) (limit selector : BitVec 16) :
    Option SystemSegment :=
  if selector.getLsbD 2 = false ∧ 8 * selectorIndex selector + 15 ≤ limit.toNat then do
    let low ← table[selectorIndex selector]?
    let high ← table[selectorIndex selector + 1]?
    pure (SystemSegment.decode low high)
  else none

/-! ## Building descriptors -/

section Pack

variable {w : ℕ}

/-- A word built as `data |= field << place` for each field and place in turn, from `0`. -/
def packFields (fields : List (BitVec w × ℕ)) : BitVec w :=
  fields.foldl (fun data f => data ||| f.1 <<< f.2) 0

/-- The sum of the fields at their places. -/
def packValue : List (BitVec w × ℕ) → ℕ
  | [] => 0
  | (f, k) :: fs => f.toNat * 2 ^ k + packValue fs

/-- The fields fit over a word of value `n`: each lies at its place above what is already
there, and inside the width. -/
def FitsFrom (n : ℕ) : List (BitVec w × ℕ) → Prop
  | [] => True
  | (f, k) :: fs => n < 2 ^ k ∧ n + f.toNat * 2 ^ k < 2 ^ w ∧ FitsFrom (n + f.toNat * 2 ^ k) fs

theorem toNat_append_eq {m n : ℕ} (x : BitVec m) (y : BitVec n) :
    (x ++ y).toNat = x.toNat * 2 ^ n + y.toNat := by
  rw [BitVec.toNat_append, ← Nat.shiftLeft_add_eq_or_of_lt y.isLt, Nat.shiftLeft_eq]

/-- Or-ing a field in above a word adds it. -/
theorem toNat_or_shiftLeft {x y : BitVec w} {k : ℕ} (hx : x.toNat < 2 ^ k)
    (hy : x.toNat + y.toNat * 2 ^ k < 2 ^ w) :
    (x ||| y <<< k).toNat = x.toNat + y.toNat * 2 ^ k := by
  have hlt : y.toNat * 2 ^ k < 2 ^ w := by omega
  rw [BitVec.toNat_or, BitVec.toNat_shiftLeft, Nat.shiftLeft_eq, Nat.mod_eq_of_lt hlt,
    Nat.lor_comm, ← Nat.shiftLeft_eq, ← Nat.shiftLeft_add_eq_or_of_lt hx, Nat.shiftLeft_eq]
  omega

/-- A mask of the low `k` bits keeps the value modulo `2 ^ k`. -/
theorem toNat_and_ofNat (x : BitVec w) {m k : ℕ} (hm : m + 1 = 2 ^ k) (hk : k ≤ w) :
    (x &&& BitVec.ofNat w m).toNat = x.toNat % 2 ^ k := by
  have hle : 2 ^ k ≤ 2 ^ w := Nat.pow_le_pow_right (by norm_num) hk
  rw [BitVec.toNat_and, BitVec.toNat_ofNat, Nat.mod_eq_of_lt (by omega),
    show m = 2 ^ k - 1 by omega, Nat.and_two_pow_sub_one_eq_mod]

theorem toNat_foldl_or (fields : List (BitVec w × ℕ)) (data : BitVec w)
    (h : FitsFrom data.toNat fields) :
    (fields.foldl (fun data f => data ||| f.1 <<< f.2) data).toNat = data.toNat + packValue fields := by
  induction fields generalizing data with
  | nil => simp [packValue]
  | cons f fs ih =>
    obtain ⟨hlo, hw, hfs⟩ := h
    -- the first field adds its value; the rest fit over the sum
    have hor := toNat_or_shiftLeft (y := f.1) hlo hw
    rw [List.foldl_cons, ih _ (hor ▸ hfs), hor, packValue]
    omega

/-- A word whose fields fit is the sum of its fields at their places. -/
theorem toNat_packFields {fields : List (BitVec w × ℕ)} (h : FitsFrom 0 fields) :
    (packFields fields).toNat = packValue fields := by
  have := toNat_foldl_or fields 0 (by simpa using h)
  simpa [packFields] using this

/-- Bit `i` of a word, from its value. -/
theorem getLsbD_eq_decide (x : BitVec w) (i : ℕ) : x.getLsbD i = decide (x.toNat / 2 ^ i % 2 = 1) := by
  rw [← BitVec.testBit_toNat, Nat.testBit_eq_decide_div_mod_eq]

end Pack

end X86
