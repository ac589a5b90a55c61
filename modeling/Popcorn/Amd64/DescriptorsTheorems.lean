import Popcorn.Amd64.Descriptors

/-!
# The descriptors the kernel builds, as the processor reads them

Each descriptor is read through the value of its bytes: an IDT entry's bytes are its fields
at the places `repr(C)` gives them (`Idt.Entry.toNat_bits`), and a GDT word built by
`packFields` is the sum of its fields (`newFromTss_low_toNat`), so every field the processor
reads is a quotient and a remainder of that value, which `omega` computes.

`Entry::new_ptr` panics exactly on an IST index above 7, and otherwise builds an entry the
processor reads as a gate to the function through selector 8, with the IST index, type and
privilege it was given (`newPtr_round_trip`). `init_idt` never panics, and gives the gate of
every vector the stub of that vector, through the kernel code segment of `early_init`'s GDT
(`initIdt_routes_vectors`). That GDT holds, at the selectors `Gdt::load` and `Gdt::load_tss`
load, a ring-0 64-bit code segment, a ring-0 data segment and a descriptor of the TSS at its
address, whatever that address (`earlyInitGdt_loads`).
-/

namespace Popcorn.Amd64

open X86

/-! ## Reading an IDT entry -/

/-- The value of an entry's bytes: its fields at their places. -/
theorem Idt.Entry.toNat_bits (e : Idt.Entry) :
    e.bits.toNat = e.pointerLow.toNat + e.segmentSelector.toNat * 2 ^ 16 +
      e.istByte.toNat * 2 ^ 32 + e.attributes.toNat * 2 ^ 40 + e.pointerMiddle.toNat * 2 ^ 48 +
      e.pointerHigh.toNat * 2 ^ 64 + e.reserved.toNat * 2 ^ 96 := by
  simp only [Idt.Entry.bits, toNat_append_eq]
  ring

/-- The gate an entry's bytes hold: its fields, as the processor takes them apart. -/
theorem Idt.Entry.decode_bits (e : Idt.Entry) :
    Gate.decode e.bits = ⟨e.pointerHigh ++ e.pointerMiddle ++ e.pointerLow, e.segmentSelector,
      e.istByte.setWidth 3, e.attributes.setWidth 4, e.attributes.extractLsb' 5 2,
      e.attributes.getLsbD 7⟩ := by
  have hbits := e.toNat_bits
  have hlow := e.pointerLow.isLt
  have hsel := e.segmentSelector.isLt
  have hist := e.istByte.isLt
  have hattr := e.attributes.isLt
  have hmid := e.pointerMiddle.isLt
  have hhigh := e.pointerHigh.isLt
  simp only [Gate.decode, Gate.mk.injEq]
  -- each field is a slice of the value: a quotient and a remainder of it
  refine ⟨?_, ?_, ?_, ?_, ?_, ?_⟩
  · apply BitVec.eq_of_toNat_eq
    simp only [toNat_append_eq, BitVec.extractLsb'_toNat, Nat.shiftRight_eq_div_pow, hbits]
    omega
  · apply BitVec.eq_of_toNat_eq
    simp only [BitVec.extractLsb'_toNat, Nat.shiftRight_eq_div_pow, hbits]
    omega
  · apply BitVec.eq_of_toNat_eq
    simp only [BitVec.extractLsb'_toNat, BitVec.toNat_setWidth, Nat.shiftRight_eq_div_pow, hbits]
    omega
  · apply BitVec.eq_of_toNat_eq
    simp only [BitVec.extractLsb'_toNat, BitVec.toNat_setWidth, Nat.shiftRight_eq_div_pow, hbits]
    omega
  · apply BitVec.eq_of_toNat_eq
    simp only [BitVec.extractLsb'_toNat, Nat.shiftRight_eq_div_pow, hbits]
    omega
  · rw [getLsbD_eq_decide, getLsbD_eq_decide, hbits, decide_eq_decide]
    omega

/-- The function's address, split into the three pointer fields, reads back whole. -/
theorem offset_split (f : BitVec 64) :
    (f >>> 32).setWidth 32 ++ (f >>> 16).setWidth 16 ++ f.setWidth 16 = f := by
  apply BitVec.eq_of_toNat_eq
  simp only [toNat_append_eq, BitVec.toNat_setWidth, BitVec.toNat_ushiftRight,
    Nat.shiftRight_eq_div_pow]
  omega

/-- The attributes byte holds the gate's type in its low four bits, the privilege above them,
and the present flag on top. -/
theorem Attributes.new_fields (ty : GateType) {dpl : BitVec 8} (hdpl : dpl < 4) :
    (Attributes.new ty dpl).setWidth 4 = ty.constU8.setWidth 4 ∧
      (Attributes.new ty dpl).extractLsb' 5 2 = dpl.setWidth 2 ∧
      (Attributes.new ty dpl).getLsbD 7 = true := by
  -- two types and four privileges: the byte is computed in each case
  have hd : dpl = 0 ∨ dpl = 1 ∨ dpl = 2 ∨ dpl = 3 := by bv_omega
  rcases hd with rfl | rfl | rfl | rfl <;> cases ty <;> decide

/-- `Entry::new_ptr` panics exactly on an IST index above 7. -/
theorem newPtr_eq_none_iff {f : BitVec 64} {istIdx : Option NonZeroU8} {dpl : BitVec 8}
    {ty : GateType} :
    Idt.Entry.newPtr f istIdx dpl ty = none ↔ ∃ ist, istIdx = some ist ∧ 7 < ist.val := by
  unfold Idt.Entry.newPtr
  cases istIdx with
  | none => simp
  | some ist => simp

/-- The entry `Entry::new_ptr` builds when it does not panic. -/
theorem newPtr_eq_some {f : BitVec 64} {istIdx : Option NonZeroU8} {dpl : BitVec 8}
    {ty : GateType} {e : Idt.Entry} (h : Idt.Entry.newPtr f istIdx dpl ty = some e) :
    e = ⟨f.setWidth 16, 8, istIdx, Attributes.new ty dpl, (f >>> 16).setWidth 16,
      (f >>> 32).setWidth 32, 0⟩ := by
  unfold Idt.Entry.newPtr at h
  split at h
  · cases h
  · exact (Option.some.inj h).symm

/-- The gate the entry of `Entry::new_ptr` reads as: the function, selector 8, and the IST
index, type and privilege it was given. -/
theorem decode_newPtr_entry (f : BitVec 64) (istIdx : Option NonZeroU8) (ty : GateType)
    {dpl : BitVec 8} (hdpl : dpl < 4) :
    Gate.decode (Idt.Entry.mk (f.setWidth 16) 8 istIdx (Attributes.new ty dpl)
        ((f >>> 16).setWidth 16) ((f >>> 32).setWidth 32) 0).bits =
      ⟨f, 8, ((istIdx.map Subtype.val).getD 0).setWidth 3, ty.constU8.setWidth 4, dpl.setWidth 2,
        true⟩ := by
  obtain ⟨hty, hdpl', hp⟩ := Attributes.new_fields ty hdpl
  rw [Idt.Entry.decode_bits]
  simp only [offset_split, hty, hdpl', hp, Gate.mk.injEq, true_and, and_true]
  cases istIdx <;> rfl

/-- `Entry::new_ptr` panics exactly on an IST index above 7; otherwise the processor reads
its entry as a present gate to the function through selector 8, with the IST index, type and
privilege it was given. -/
theorem newPtr_round_trip (f : BitVec 64) (istIdx : Option NonZeroU8) {dpl : BitVec 8}
    (ty : GateType) (hdpl : dpl < 4) :
    (Idt.Entry.newPtr f istIdx dpl ty = none ↔ ∃ ist, istIdx = some ist ∧ 7 < ist.val) ∧
      ∀ e, Idt.Entry.newPtr f istIdx dpl ty = some e →
        (Gate.decode e.bits).offset = f ∧ (Gate.decode e.bits).selector = 8 ∧
        (Gate.decode e.bits).ist.toNat = ((istIdx.map Subtype.val).getD 0).toNat ∧
        (Gate.decode e.bits).type.toNat = ty.constU8.toNat ∧
        (Gate.decode e.bits).dpl.toNat = dpl.toNat ∧ (Gate.decode e.bits).present = true := by
  refine ⟨newPtr_eq_none_iff, fun e h => ?_⟩
  -- the entry was built, so its IST index, if any, is at most 7
  have hist : ∀ ist, istIdx = some ist → ist.val ≤ 7 := fun ist hi => by
    by_contra hgt
    rw [newPtr_eq_none_iff.mpr ⟨ist, hi, by bv_omega⟩] at h
    cases h
  rw [newPtr_eq_some h, decode_newPtr_entry f istIdx ty hdpl]
  refine ⟨rfl, rfl, ?_, ?_, ?_, rfl⟩
  · cases istIdx with
    | none => rfl
    | some ist =>
      have hle := hist ist rfl
      simp only [Option.map_some, Option.getD_some, BitVec.toNat_setWidth]
      bv_omega
  · cases ty <;> rfl
  · simp only [BitVec.toNat_setWidth]
    bv_omega

/-- The gate of `#BP`, of privilege 3, to a stub at `0xFFFF800000001234`. -/
theorem newPtr_round_trip_breakpoint :
    (3 : BitVec 8) < 4 ∧
      (Idt.Entry.newPtr 0xFFFF800000001234 none 3 .interruptGate = none ↔
          ∃ ist, (none : Option NonZeroU8) = some ist ∧ 7 < ist.val) ∧
        ∀ e, Idt.Entry.newPtr 0xFFFF800000001234 none 3 .interruptGate = some e →
          (Gate.decode e.bits).offset = 0xFFFF800000001234 ∧ (Gate.decode e.bits).selector = 8 ∧
          (Gate.decode e.bits).ist.toNat = (((none : Option NonZeroU8).map Subtype.val).getD 0).toNat ∧
          (Gate.decode e.bits).type.toNat = GateType.interruptGate.constU8.toNat ∧
          (Gate.decode e.bits).dpl.toNat = (3 : BitVec 8).toNat ∧ (Gate.decode e.bits).present = true :=
  ⟨by decide, newPtr_round_trip 0xFFFF800000001234 none .interruptGate (by decide)⟩

/-! ## `init_idt` -/

/-- The entry `init_idt` gives vector `n`, whose stub is at `stub n`. -/
def gateEntry (stub : ℕ → BitVec 64) (n : ℕ) : Idt.Entry :=
  ⟨(stub n).setWidth 16, 8, idtIst n, Attributes.new .interruptGate (idtDpl n),
    (stub n >>> 16).setWidth 16, (stub n >>> 32).setWidth 32, 0⟩

/-- No line of `init_idt` panics: the only IST index is 1. -/
theorem idtEntry_eq (stub : ℕ → BitVec 64) (table : Idt) (n : ℕ) :
    idtEntry stub table n = some (table.set n (gateEntry stub n)) := by
  have hnew : Idt.Entry.newPtr (stub n) (idtIst n) (idtDpl n) .interruptGate =
      some (gateEntry stub n) := by
    unfold Idt.Entry.newPtr idtIst
    split_ifs <;> simp_all [gateEntry, idtIst]
  rw [idtEntry, hnew, Option.map_some]

/-- After the lines of the first `m` vectors, their entries are set and the rest are empty. -/
theorem foldlM_idtEntry (stub : ℕ → BitVec 64) :
    ∀ m ≤ 256, (List.range m).foldlM (idtEntry stub) Idt.new =
      some ⟨(List.range m).map (gateEntry stub) ++ List.replicate (256 - m) .empty⟩
  | 0, _ => rfl
  | m + 1, hm => by
    have hlen : ((List.range m).map (gateEntry stub)).length = m := by simp
    -- the line of vector `m` sets the first empty entry
    have hrest : 256 - m = (256 - (m + 1)) + 1 := by omega
    rw [List.range_succ, List.foldlM_append, foldlM_idtEntry stub m (by omega),
      Option.bind_eq_bind, Option.bind_some, List.foldlM_cons, idtEntry_eq, Option.bind_eq_bind,
      Option.bind_some, List.foldlM_nil, Option.pure_def, hrest, List.replicate_succ, Idt.set,
      List.set_append_right _ _ (by omega), hlen, Nat.sub_self, List.set_cons_zero, List.map_append,
      List.map_singleton, List.append_assoc, List.singleton_append]

/-- `init_idt`'s table: the entry of every vector. -/
theorem initIdt_eq (stub : ℕ → BitVec 64) :
    initIdt stub = some ⟨(List.range 256).map (gateEntry stub)⟩ := by
  rw [initIdt, foldlM_idtEntry stub 256 le_rfl, Nat.sub_self, List.replicate_zero,
    List.append_nil]

/-! ## `early_init`'s GDT -/

/-- The words of `early_init`'s GDT: the TSS's address is only in the last two. -/
theorem earlyInitGdt_words (tss : BitVec 64) :
    (earlyInitGdt tss).words =
      [0, (Gdt.Entry.new .ring0 true true).data, (Gdt.Entry.new .ring0 false true).data, 0,
        (Gdt.Entry.new .ring3 false true).data, (Gdt.Entry.new .ring3 true true).data,
        (Gdt.SystemEntry.newFromTss tss).low, (Gdt.SystemEntry.newFromTss tss).high] := rfl

/-- `Gdt::load` does not panic: the GDT is 64 bytes. -/
theorem load_eq : Gdt.load = some ⟨63, 8, 16, 16, 16⟩ := by decide

/-- The kernel code segment, at selector 8: flat, ring 0, 64-bit, execute and read. -/
theorem segmentAt_kernelCode (tss : BitVec 64) :
    segmentAt (earlyInitGdt tss).words 63 8 =
      some ⟨0, 0xFFFFF, 0xA, false, 0, true, true, false, true⟩ := by
  rw [earlyInitGdt_words]
  rfl

/-- The kernel data segment, at selector 16: flat, ring 0, read and write. -/
theorem segmentAt_kernelData (tss : BitVec 64) :
    segmentAt (earlyInitGdt tss).words 63 16 =
      some ⟨0, 0xFFFFF, 0x2, false, 0, true, true, false, true⟩ := by
  rw [earlyInitGdt_words]
  rfl

/-- The value of the low word of the TSS's descriptor: the limit, the address's low 32 bits
in their three places, the access byte and the long-mode bit. -/
theorem newFromTss_low_toNat (tss : BitVec 64) :
    (Gdt.SystemEntry.newFromTss tss).low.toNat =
      103 + tss.toNat % 2 ^ 16 * 2 ^ 16 + tss.toNat / 2 ^ 16 % 2 ^ 8 * 2 ^ 32 + 0x89 * 2 ^ 40 +
        2 ^ 53 + tss.toNat / 2 ^ 24 % 2 ^ 8 * 2 ^ 56 := by
  have hm16 : ∀ x : BitVec 64, (x &&& 0xFFFF).toNat = x.toNat % 2 ^ 16 := fun x =>
    toNat_and_ofNat x (k := 16) rfl (by norm_num)
  have hm8 : ∀ x : BitVec 64, (x &&& 0xFF).toNat = x.toNat % 2 ^ 8 := fun x =>
    toNat_and_ofNat x (k := 8) rfl (by norm_num)
  have hm4 : ∀ x : BitVec 64, (x &&& 0xF).toNat = x.toNat % 2 ^ 4 := fun x =>
    toNat_and_ofNat x (k := 4) rfl (by norm_num)
  have hlimit : (BitVec.ofNat 64 Tss.size - 1).toNat = 103 := rfl
  have hc : (137 : BitVec 64).toNat = 137 ∧ (1 : BitVec 64).toNat = 1 := ⟨rfl, rfl⟩
  have htss := tss.isLt
  simp only [Gdt.SystemEntry.newFromTss]
  -- the fields fit, so the word is their sum
  rw [toNat_packFields]
  · simp only [packValue, hm16, hm8, hm4, BitVec.toNat_ushiftRight, Nat.shiftRight_eq_div_pow,
      hlimit, hc.1, hc.2]
    omega
  · simp only [FitsFrom, hm16, hm8, hm4, BitVec.toNat_ushiftRight, Nat.shiftRight_eq_div_pow,
      hlimit, hc.1, hc.2, and_true]
    omega

/-- The processor reads the TSS's descriptor as an available 64-bit TSS at the TSS's address,
whatever it is, with the TSS's size as its limit. -/
theorem decode_newFromTss (tss : BitVec 64) :
    SystemSegment.decode (Gdt.SystemEntry.newFromTss tss).low
        (Gdt.SystemEntry.newFromTss tss).high =
      ⟨tss, BitVec.ofNat 20 (Tss.size - 1), availableTss, true, 0, true⟩ := by
  have hlow := newFromTss_low_toNat tss
  have hhigh : (Gdt.SystemEntry.newFromTss tss).high.toNat = tss.toNat / 2 ^ 32 := by
    simp [Gdt.SystemEntry.newFromTss, Nat.shiftRight_eq_div_pow]
  have htss := tss.isLt
  simp only [SystemSegment.decode, Segment.decode, SystemSegment.mk.injEq]
  -- each field is a slice of the low word's value, which `hlow` gives
  refine ⟨?_, ?_, ?_, ?_, ?_, ?_⟩
  · -- the base: the upper half from the second word, the lower from three slices of the first
    have h16 : (Gdt.SystemEntry.newFromTss tss).low.toNat / 2 ^ 16 % 2 ^ 16 = tss.toNat % 2 ^ 16 := by
      omega
    have h32 : (Gdt.SystemEntry.newFromTss tss).low.toNat / 2 ^ 32 % 2 ^ 8 =
        tss.toNat / 2 ^ 16 % 2 ^ 8 := by
      omega
    have h56 : (Gdt.SystemEntry.newFromTss tss).low.toNat / 2 ^ 56 % 2 ^ 8 =
        tss.toNat / 2 ^ 24 % 2 ^ 8 := by
      omega
    apply BitVec.eq_of_toNat_eq
    simp only [toNat_append_eq, BitVec.extractLsb'_toNat, Nat.shiftRight_eq_div_pow, Nat.pow_zero,
      Nat.div_one, h16, h32, h56, hhigh]
    clear h16 h32 h56 hlow
    omega
  · have h0 : (Gdt.SystemEntry.newFromTss tss).low.toNat % 2 ^ 16 = 103 := by omega
    have h48 : (Gdt.SystemEntry.newFromTss tss).low.toNat / 2 ^ 48 % 2 ^ 4 = 0 := by omega
    apply BitVec.eq_of_toNat_eq
    simp only [toNat_append_eq, BitVec.extractLsb'_toNat, Nat.shiftRight_eq_div_pow, Nat.pow_zero,
      Nat.div_one, h0, h48]
    rfl
  · have h40 : (Gdt.SystemEntry.newFromTss tss).low.toNat / 2 ^ 40 % 2 ^ 4 = 9 := by omega
    apply BitVec.eq_of_toNat_eq
    simp only [BitVec.extractLsb'_toNat, Nat.shiftRight_eq_div_pow, h40]
    rfl
  · have h44 : (Gdt.SystemEntry.newFromTss tss).low.toNat / 2 ^ 44 % 2 = 0 := by omega
    rw [getLsbD_eq_decide, h44]
    rfl
  · have h45 : (Gdt.SystemEntry.newFromTss tss).low.toNat / 2 ^ 45 % 2 ^ 2 = 0 := by omega
    apply BitVec.eq_of_toNat_eq
    simp only [BitVec.extractLsb'_toNat, Nat.shiftRight_eq_div_pow, h45]
    rfl
  · have h47 : (Gdt.SystemEntry.newFromTss tss).low.toNat / 2 ^ 47 % 2 = 1 := by omega
    rw [getLsbD_eq_decide, h47]
    rfl

/-- The TSS's descriptor, at selector 48. -/
theorem systemSegmentAt_tss (tss : BitVec 64) :
    systemSegmentAt (earlyInitGdt tss).words 63 48 =
      some ⟨tss, BitVec.ofNat 20 (Tss.size - 1), availableTss, true, 0, true⟩ := by
  rw [earlyInitGdt_words, ← decode_newFromTss tss]
  rfl

/-! ## The IDT and the GDT together -/

/-- `init_idt` never panics, and the processor reads the gate of every vector `n` as a present
interrupt gate to `amd64_irq_handler_n`, of privilege 3 for `#BP` and 0 otherwise, on the
first IST stack for `#DF` and the current stack otherwise; its selector names, in the GDT of
`early_init` as `Gdt::load` loads it, the ring-0 64-bit code segment. -/
theorem initIdt_routes_vectors (stub : ℕ → BitVec 64) (tss : BitVec 64) :
    ∃ idt, initIdt stub = some idt ∧ ∃ regs, Gdt.load = some regs ∧
      ∀ n < 256, ∃ e, idt.entries[n]? = some e ∧
        Gate.decode e.bits = ⟨stub n, 8, if n = 8 then 1 else 0, interruptGate,
          if n = 3 then 3 else 0, true⟩ ∧
        segmentAt (earlyInitGdt tss).words regs.gdtrLimit (Gate.decode e.bits).selector =
          some ⟨0, 0xFFFFF, 0xA, false, 0, true, true, false, true⟩ := by
  refine ⟨_, initIdt_eq stub, _, load_eq, fun n hn => ⟨gateEntry stub n, ?_, ?_, ?_⟩⟩
  · rw [List.getElem?_map, List.getElem?_range hn, Option.map_some]
  · have hdpl : idtDpl n < 4 := by
      unfold idtDpl
      split_ifs <;> decide
    rw [gateEntry, decode_newPtr_entry _ _ _ hdpl]
    -- vectors 3 and 8 are the lines of their own
    by_cases h3 : n = 3
    · subst h3
      rfl
    by_cases h8 : n = 8
    · subst h8
      rfl
    simp only [idtIst, idtDpl, h3, h8, if_false]
    rfl
  · have hdpl : idtDpl n < 4 := by
      unfold idtDpl
      split_ifs <;> decide
    rw [gateEntry, decode_newPtr_entry _ _ _ hdpl]
    exact segmentAt_kernelCode tss

/-- For every address of the TSS, `Gdt::load` and `Gdt::load_tss` do not panic, and the
selectors they load name, within the GDTR's limit: in `cs` a flat ring-0 64-bit code segment,
in `ds`, `es` and `ss` a flat ring-0 writable data segment, and in the task register an
available 64-bit TSS at the TSS's address whose limit is the TSS's size. -/
theorem earlyInitGdt_loads (tss : BitVec 64) :
    ∃ regs, Gdt.load = some regs ∧
      segmentAt (earlyInitGdt tss).words regs.gdtrLimit regs.cs =
        some ⟨0, 0xFFFFF, 0xA, false, 0, true, true, false, true⟩ ∧
      (∀ sel ∈ [regs.ds, regs.es, regs.ss], segmentAt (earlyInitGdt tss).words regs.gdtrLimit sel =
        some ⟨0, 0xFFFFF, 0x2, false, 0, true, true, false, true⟩) ∧
      ∃ tr, (earlyInitGdt tss).loadTss = some tr ∧
        systemSegmentAt (earlyInitGdt tss).words regs.gdtrLimit tr =
          some ⟨tss, BitVec.ofNat 20 (Tss.size - 1), availableTss, true, 0, true⟩ := by
  refine ⟨_, load_eq, segmentAt_kernelCode tss, ?_, 48, ?_, systemSegmentAt_tss tss⟩
  · intro sel hsel
    simp only [List.mem_cons, List.not_mem_nil, or_false, or_self] at hsel
    rw [hsel]
    exact segmentAt_kernelData tss
  · -- the TSS's descriptor is present, so it is not the default
    have hne : (earlyInitGdt tss).tss ≠ .default := by
      intro h
      have hlow := newFromTss_low_toNat tss
      have h0 : (Gdt.SystemEntry.newFromTss tss).low = 0 := congrArg Gdt.SystemEntry.low h
      rw [h0] at hlow
      simp at hlow
      omega
    simp [Gdt.loadTss, hne, Gdt.offsetOfTss]

end Popcorn.Amd64
