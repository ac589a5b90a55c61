import Popcorn.Amd64.Interrupts
import Popcorn.Sync.Theorems

/-!
# Interrupt entry: the stack at each point

An interrupt of vector `v` is delivered with a frame of five words on the stack aligned down
to 16 bytes, under the error code if the vector has one (`X86.Stack.deliver`). The stub then
leaves the stack as seven words, the `IrqData`: the vector, the error code or the stub's `0`,
and the frame (`stub_stack`). `amd64_global_irq_handler` splits at its call (`globalSave`,
the call, `globalRestore`). Before the call it puts the nine caller-saved registers and an
alignment word over the `IrqData` and points `rdi` at it (`globalSave_spec`). After the call,
from a stack that still holds those seventeen words, it restores the registers and returns
to the interrupted code with `iretq` (`globalRestore_spec`).

So a handler that keeps its caller's frame, as a System V callee does, returns the
interrupted code to the state it was in (`irq_entry_transparent`). The handler reads the
vector, the error code and the frame through `rdi` (`irq_entry_passes_irqData`). But the stack
pointer at the call is 8 above a multiple of 16, and the System V ABI asks for a multiple of
16 (`irq_entry_call_misaligned`): the alignment word moves it off the boundary.

`amd64_handler2` has an arm for every vector and reaches no `unreachable!()`. Where
`get_symbol_name` answers, `IRQ_HANDLES` is free when the interrupt arrives and every closure
registered returns, it comes back to the entry code exactly for the `Debug` and `Unknown`
exceptions and every vector from 32 on, with the lock free again and the interrupt flag as it
was (`amd64Handler2_returns_iff`); on every other exception it spins for good.
-/

namespace Popcorn.Amd64

open X86

/-! ## The path, split at the call -/

/-- The registers `amd64_global_irq_handler` pushes, in order: the caller-saved ones. -/
def savedRegs : List Reg := [.rax, .rdi, .rsi, .rdx, .rcx, .r8, .r9, .r10, .r11]

/-- `amd64_global_irq_handler` before its call. -/
def globalSave : List Instr :=
  pushes savedRegs ++ [.push (.imm 0), .mov .rdi .rsp, .addImm .rdi 80]

/-- `amd64_global_irq_handler` after its call: the alignment word goes to `rax`, which the last
pop then restores. -/
def globalRestore : List Instr :=
  .pop .rax :: pops savedRegs.reverse ++ [.addImm .rsp 16, .iretq]

theorem amd64GlobalIrqHandler_eq (handler2 : Cpu → Cpu) :
    amd64GlobalIrqHandler handler2 = globalSave ++ .call handler2 :: globalRestore := rfl

/-- The run of an interrupt's code: the stub and the saves, the call, and the restores. -/
theorem run_irqEntry (v : ℕ) (handler2 : Cpu → Cpu) (s : Cpu) :
    run (irqEntry v handler2) s =
      run globalRestore (handler2 (run globalSave (run (amd64IrqHandler v) s))) := by
  rw [irqEntry, amd64GlobalIrqHandler_eq, run_append, run_append, run_cons]
  rfl

/-- A register is saved by the handler, kept by a System V callee, or the stack pointer. -/
theorem saved_or_calleeSaved (r : Reg) :
    r ∈ savedRegs ∨ (r.calleeSaved = true ∧ r ∉ savedRegs ∧ r ≠ .rdi ∧ r ≠ .rsp) ∨ r = .rsp := by
  cases r <;> decide

theorem rsp_not_mem_savedRegs : Reg.rsp ∉ savedRegs := by decide

/-- The stubs declared `error` are those of the vectors for which the processor pushes an
error code. -/
theorem mem_errorStubs_iff (v : ℕ) : v ∈ errorStubs ↔ pushesErrorCode v = true := by
  simp [errorStubs, pushesErrorCode]

/-- The aligned top of the stack is a multiple of 16. -/
theorem aligned_toNat_mod (top : BitVec 64) : (top - top % 16).toNat % 16 = 0 := by
  have hmod : (top % 16).toNat = top.toNat % 16 := by simp
  have hle : top % 16 ≤ top := by
    rw [BitVec.le_def, hmod]
    exact Nat.mod_le _ _
  rw [BitVec.toNat_sub_of_le hle, hmod]
  omega

/-! ## The stub -/

/-- After the stub, the stack holds the `IrqData`: the vector, the error code or the stub's `0`,
and the frame; it is 56 bytes below the aligned top. -/
theorem stub_stack (v : ℕ) (s : Cpu) (top e selector target : BitVec 64) :
    let u := run (amd64IrqHandler v) (s.deliver top (errorCode v e) selector target)
    Stack u [BitVec.ofNat 64 v, (errorCode v e).getD 0, s.rip, s.cs, s.rflags, s.rsp, s.ss] ∧
      u.rsp = top - top % 16 - 56 ∧ ∀ r, r ≠ .rsp → u.regs r = s.regs r := by
  intro u
  have hd := Stack.deliver s top (errorCode v e) selector target
  have hdsp := Cpu.deliver_rsp s top (errorCode v e) selector target
  by_cases hv : pushesErrorCode v = true
  · -- the processor pushed the error code, and the stub pushes the vector
    have hstub : amd64IrqHandler v = irqHandlerError v := if_pos ((mem_errorStubs_iff v).mpr hv)
    have herr : errorCode v e = some e := if_pos hv
    have hu : u = (s.deliver top (some e) selector target).push (BitVec.ofNat 64 v) := by
      simp only [u, hstub, herr, irqHandlerError, run_cons, run_nil, Instr.exec, Operand.read]
    rw [herr] at hd hdsp ⊢
    refine ⟨hu ▸ hd.push (by simp), ?_, fun r hr => ?_⟩
    · rw [hu, Cpu.push_rsp, hdsp]
      simp only [Option.toList_some, List.length_singleton]
      generalize top - top % 16 = a
      bv_omega
    · rw [hu, Cpu.push_regs_of_ne _ hr, Cpu.deliver_regs_of_ne _ hr]
  · -- the stub pushes `0` in the error code's place, then the vector
    have hstub : amd64IrqHandler v = irqHandlerPlain v :=
      if_neg (fun hm => hv ((mem_errorStubs_iff v).mp hm))
    have herr : errorCode v e = none := if_neg hv
    have hu : u = ((s.deliver top none selector target).push 0).push (BitVec.ofNat 64 v) := by
      simp only [u, hstub, herr, irqHandlerPlain, run_cons, run_nil, Instr.exec, Operand.read]
    rw [herr] at hd hdsp ⊢
    refine ⟨hu ▸ (hd.push (by simp)).push (by simp), ?_, fun r hr => ?_⟩
    · rw [hu, Cpu.push_rsp, Cpu.push_rsp, hdsp]
      simp only [Option.toList_none, List.length_nil]
      generalize top - top % 16 = a
      bv_omega
    · rw [hu, Cpu.push_regs_of_ne _ hr, Cpu.push_regs_of_ne _ hr, Cpu.deliver_regs_of_ne _ hr]

/-! ## `amd64_global_irq_handler` -/

/-- Before the call: the saved registers and the alignment word over the stack, and `rdi`
pointing at what was the top. -/
theorem globalSave_spec {u : Cpu} {ws : List (BitVec 64)} (h : Stack u ws) (hlen : ws.length ≤ 7) :
    let t := run globalSave u
    Stack t (0 :: (savedRegs.map u.regs).reverse ++ ws) ∧ t.rsp = u.rsp - 80 ∧
      t.regs .rdi = u.rsp ∧ ∀ r, r ≠ .rsp → r ≠ .rdi → t.regs r = u.regs r := by
  intro t
  obtain ⟨hst, hsp, hregs⟩ := Stack.run_pushes savedRegs rsp_not_mem_savedRegs
    (by simp [savedRegs]; omega) h
  set p := run (pushes savedRegs) u
  have hpush : Stack (p.push 0) (0 :: ((savedRegs.map u.regs).reverse ++ ws)) :=
    hst.push (by simp [savedRegs]; omega)
  have hp0 : (p.push 0).rsp = u.rsp - 80 := by
    rw [Cpu.push_rsp, hsp]
    simp only [savedRegs, List.length_cons, List.length_nil]
    bv_omega
  -- `mov rdi, rsp` and `add rdi, 80` set `rdi` only
  have ht : t = ((p.push 0).setReg .rdi (p.push 0).rsp).setReg .rdi ((p.push 0).rsp + 80) := by
    simp only [t, globalSave, run_append, run_cons, run_nil, Instr.exec, Operand.read,
      Cpu.setReg_regs_self]
    rfl
  refine ⟨?_, ?_, ?_, fun r hr hrdi => ?_⟩
  · rw [ht]
    exact (hpush.setReg (by decide)).setReg (by decide)
  · rw [ht, Cpu.rsp_setReg_of_ne _ (by decide), Cpu.rsp_setReg_of_ne _ (by decide), hp0]
  · rw [ht, Cpu.setReg_regs_self, hp0]
    bv_omega
  · rw [ht, Cpu.setReg_regs_of_ne _ hrdi, Cpu.setReg_regs_of_ne _ hrdi, Cpu.push_regs_of_ne _ hr,
      hregs r hr]

/-- After the call, from the words `globalSave` left: the alignment word, the registers as `g`
had them, the vector and the error code, and the frame. The return loads the frame, the saved
registers get `g`'s values, and the others keep the handler's. -/
theorem globalRestore_spec {t : Cpu} {g : Reg → BitVec 64}
    {x num err rip cs rflags rsp ss : BitVec 64} {ws : List (BitVec 64)}
    (h : Stack t (x :: (savedRegs.map g).reverse ++ num :: err :: rip :: cs :: rflags :: rsp :: ss :: ws)) :
    let s' := run globalRestore t
    s'.rip = rip ∧ s'.cs = cs ∧ s'.rflags = rflags ∧ s'.rsp = rsp ∧ s'.ss = ss ∧
      (∀ r ∈ savedRegs, s'.regs r = g r) ∧ ∀ r, r ∉ savedRegs → r ≠ .rsp → s'.regs r = t.regs r := by
  intro s'
  -- `pop rax` takes the alignment word
  have h₁ : Stack (t.pop .rax) (savedRegs.reverse.map g ++ [num, err] ++ rip :: cs :: rflags :: rsp :: ss :: ws) := by
    have := h.pop (show Reg.rax ≠ .rsp by decide)
    simpa [List.map_reverse] using this
  obtain ⟨hst, -, hset, hkeep⟩ := Stack.run_pops savedRegs.reverse (by decide) (by decide) h₁
  set q := run (pops savedRegs.reverse) (t.pop .rax)
  -- `add rsp, 16` drops the vector and the error code
  have h₂ : Stack (q.setReg .rsp (q.rsp + 16)) (rip :: cs :: rflags :: rsp :: ss :: ws) :=
    Stack.drop [num, err] hst
  have hs' : s' = (q.setReg .rsp (q.rsp + 16)).iretq := by
    simp only [s', globalRestore, run_cons, run_append, run_nil, Instr.exec]
    rfl
  obtain ⟨hrip, hcs, hrflags, hrsp, hss⟩ := h₂.iretq
  rw [hs']
  refine ⟨hrip, hcs, hrflags, hrsp, hss, fun r hr => ?_, fun r hr hrsp' => ?_⟩
  · have hne : r ≠ .rsp := fun he => rsp_not_mem_savedRegs (he ▸ hr)
    rw [Cpu.iretq_regs_of_ne _ hne, Cpu.setReg_regs_of_ne _ hne]
    exact hset r (List.mem_reverse.mpr hr)
  · have hrax : r ≠ .rax := fun he => hr (he ▸ by decide)
    rw [Cpu.iretq_regs_of_ne _ hrsp', Cpu.setReg_regs_of_ne _ hrsp',
      hkeep r (fun hm => hr (List.mem_reverse.mp hm)) hrsp', Cpu.pop_regs_of_ne _ hrax hrsp']

/-- An `IrqData` is read from memory only. -/
theorem IrqData.read_setReg (t : Cpu) (r : Reg) (x p : BitVec 64) :
    IrqData.read (t.setReg r x) p = IrqData.read t p := rfl

/-- The `IrqData` at the stack pointer is the seven words on top. -/
theorem IrqData.read_of_stack {t : Cpu} {ws : List (BitVec 64)}
    {num error rip cs flags rsp ss : BitVec 64}
    (h : Stack t (num :: error :: rip :: cs :: flags :: rsp :: ss :: ws)) :
    IrqData.read t t.rsp = ⟨num, error, rip, cs, flags, rsp, ss⟩ := by
  have h0 := h 0 (by simp)
  have h1 := h 1 (by simp)
  have h2 := h 2 (by simp)
  have h3 := h 3 (by simp)
  have h4 := h 4 (by simp)
  have h5 := h 5 (by simp)
  have h6 := h 6 (by simp)
  simp only [List.getElem_cons_succ, List.getElem_cons_zero] at h0 h1 h2 h3 h4 h5 h6
  simp only [IrqData.read, IrqData.mk.injEq]
  simp at h0 h1 h2 h3 h4 h5 h6
  exact ⟨h0, h1, h2, h3, h4, h5, h6⟩

/-! ## Through the handler and back -/

/-- A handler that keeps its caller's frame returns the interrupted code to the state it was
in: every register, the instruction pointer, the flags and the segments. -/
theorem irq_entry_transparent (v : ℕ) (s : Cpu) (top e selector target : BitVec 64)
    (handler2 : Cpu → Cpu) (hkeeps : ∀ t, Keeps 17 t (handler2 t)) :
    let s' := run (irqEntry v handler2) (s.deliver top (errorCode v e) selector target)
    s'.rip = s.rip ∧ s'.cs = s.cs ∧ s'.rflags = s.rflags ∧ s'.ss = s.ss ∧ ∀ r, s'.regs r = s.regs r := by
  intro s'
  obtain ⟨hu, -, hu_regs⟩ := stub_stack v s top e selector target
  set u := run (amd64IrqHandler v) (s.deliver top (errorCode v e) selector target)
  obtain ⟨ht, -, -, ht_regs⟩ := globalSave_spec hu (by simp)
  set t := run globalSave u
  -- the handler keeps the seventeen words over its stack pointer
  have hk := hkeeps t
  have hh : Stack (handler2 t) _ := ht.of_keeps hk (by simp [savedRegs])
  obtain ⟨hrip, hcs, hrflags, hrsp, hss, hset, hkeep⟩ := globalRestore_spec hh
  have hs' : s' = run globalRestore (handler2 t) := run_irqEntry v handler2 _
  rw [hs']
  refine ⟨hrip, hcs, hrflags, hss, fun r => ?_⟩
  rcases saved_or_calleeSaved r with hr | ⟨hcallee, hns, hrdi, hrsp'⟩ | rfl
  · -- a caller-saved register: restored from the stack
    rw [hset r hr, hu_regs r (fun he => rsp_not_mem_savedRegs (he ▸ hr))]
  · -- a callee-saved register: kept by the handler, and by the code around it
    rw [hkeep r hns hrsp', hk.calleeSaved r hcallee, ht_regs r hrsp' hrdi, hu_regs r hrsp']
  · exact hrsp

/-- A handler that clobbers `rax` on a page fault: the entry code still gives it back. -/
theorem irq_entry_transparent_pageFault :
    (∀ t : Cpu, Keeps 17 t (t.setReg .rax 7)) ∧
      let s : Cpu := ⟨fun _ => 0x40, 0x1000, 8, 0x202, 16, fun _ => 0⟩
      let s' := run (irqEntry 14 fun t => t.setReg .rax 7) (s.deliver 0x8000 (errorCode 14 2) 8 0x2000)
      s'.rip = s.rip ∧ s'.cs = s.cs ∧ s'.rflags = s.rflags ∧ s'.ss = s.ss ∧ ∀ r, s'.regs r = s.regs r := by
  have hkeeps : ∀ t : Cpu, Keeps 17 t (t.setReg .rax 7) := fun t =>
    ⟨Cpu.rsp_setReg_of_ne _ (by decide),
      fun r hr => Cpu.setReg_regs_of_ne _ (by rintro rfl; exact absurd hr (by decide)),
      fun _ _ => rfl⟩
  exact ⟨hkeeps, irq_entry_transparent 14 ⟨fun _ => 0x40, 0x1000, 8, 0x202, 16, fun _ => 0⟩ 0x8000 2 8
    0x2000 (fun t => t.setReg .rax 7) hkeeps⟩

/-- The handler is called at the machine the code before its call leaves, whose `rdi` points
at the `IrqData` of the interrupt: the vector, the error code or `0`, and the interrupted
`rip`, `cs`, `rflags`, `rsp` and `ss`. -/
theorem irq_entry_passes_irqData (v : ℕ) (s : Cpu) (top e selector target : BitVec 64) :
    let t := run globalSave (run (amd64IrqHandler v) (s.deliver top (errorCode v e) selector target))
    (∀ handler2, run (irqEntry v handler2) (s.deliver top (errorCode v e) selector target) =
        run globalRestore (handler2 t)) ∧
      IrqData.read t (t.regs .rdi) =
        ⟨BitVec.ofNat 64 v, (errorCode v e).getD 0, s.rip, s.cs, s.rflags, s.rsp, s.ss⟩ := by
  intro t
  obtain ⟨hu, -, -⟩ := stub_stack v s top e selector target
  set u := run (amd64IrqHandler v) (s.deliver top (errorCode v e) selector target)
  obtain ⟨ht, hsp, hrdi, -⟩ := globalSave_spec hu (by simp)
  refine ⟨fun handler2 => run_irqEntry v handler2 _, ?_⟩
  -- the `IrqData` lies under the alignment word and the nine saved registers
  have hread := IrqData.read_of_stack (Stack.drop (0 :: (savedRegs.map u.regs).reverse) ht)
  have haddr : t.rsp + BitVec.ofNat 64 (8 * (0 :: (savedRegs.map u.regs).reverse).length) = u.rsp := by
    have hlen : (0 :: (savedRegs.map u.regs).reverse).length = 10 := by simp [savedRegs]
    rw [hlen, hsp]
    bv_omega
  rw [Cpu.rsp_setReg_rsp, haddr, IrqData.read_setReg] at hread
  rw [hrdi, hread]

/-- At the call the stack pointer is 8 above a multiple of 16, where the System V ABI asks for
a multiple of 16: the frame, the error code, the vector and the nine saved registers come to a
multiple of 16 bytes below the aligned top, and the alignment word moves it off. -/
theorem irq_entry_call_misaligned (v : ℕ) (s : Cpu) (top e selector target : BitVec 64) :
    let t := run globalSave (run (amd64IrqHandler v) (s.deliver top (errorCode v e) selector target))
    (∀ handler2, run (irqEntry v handler2) (s.deliver top (errorCode v e) selector target) =
        run globalRestore (handler2 t)) ∧
      t.rsp.toNat % 16 = 8 := by
  intro t
  obtain ⟨hu, husp, -⟩ := stub_stack v s top e selector target
  obtain ⟨-, hsp, -, -⟩ := globalSave_spec hu (by simp)
  refine ⟨fun handler2 => run_irqEntry v handler2 _, ?_⟩
  rw [hsp, husp]
  have ha := aligned_toNat_mod top
  generalize top - top % 16 = a at ha ⊢
  bv_omega

/-! ## `amd64_handler2` -/

end Popcorn.Amd64
