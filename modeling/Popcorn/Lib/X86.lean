import Mathlib

/-!
# A subset of x86-64

The registers, the stack and the instructions of an interrupt entry stub in 64-bit mode:
`push` (of a register or an immediate), `pop`, `mov` between registers, `add` of an
immediate, `call` and `iretq`, and the delivery of an interrupt through an interrupt gate.
Memory maps an address to the 8-byte word stored there: every access here is a whole word at
the stack pointer. `add` also sets the arithmetic flags, which nothing here reads before
`iretq` reloads the flags from the stack, so they are left as they were.

A `call` is seen from its call site: the callee is a function of the machine at the call, and
what a System V callee keeps (`Keeps`) is the stack pointer, the callee-saved registers and
the words of its caller's frame.

`Stack s ws` says that the words from the stack pointer up are `ws`, the top first. A `push`
adds a word on top (`Stack.push`) and a `pop` takes it off into a register (`Stack.pop`);
pushing a list of registers and popping them back in reverse order restores them
(`Stack.run_pushes`, `Stack.run_pops`).
-/

namespace X86

/-- The general-purpose registers. -/
inductive Reg where
  | rax | rbx | rcx | rdx | rsi | rdi | rbp | rsp | r8 | r9 | r10 | r11 | r12 | r13 | r14 | r15
  deriving DecidableEq, Repr

/-- The registers a System V callee keeps. -/
def Reg.calleeSaved : Reg → Bool
  | .rbx | .rbp | .r12 | .r13 | .r14 | .r15 => true
  | _ => false

/-- A processor in 64-bit mode: the general-purpose registers, the instruction pointer, the
code and stack segment selectors, the flags, and memory. -/
structure Cpu where
  regs : Reg → BitVec 64
  rip : BitVec 64
  cs : BitVec 64
  rflags : BitVec 64
  ss : BitVec 64
  mem : BitVec 64 → BitVec 64

namespace Cpu

variable (s : Cpu) {r r' : Reg} {v : BitVec 64}

/-- The stack pointer. -/
def rsp : BitVec 64 := s.regs .rsp

/-- `r` set to `v`. -/
def setReg (r : Reg) (v : BitVec 64) : Cpu := { s with regs := Function.update s.regs r v }

/-- `push v`: the stack pointer moves down a word, and `v` is stored there. -/
def push (v : BitVec 64) : Cpu :=
  { s.setReg .rsp (s.rsp - 8) with mem := Function.update s.mem (s.rsp - 8) v }

/-- `pop r`: the word at the stack pointer goes to `r`, and the stack pointer moves up a
word. -/
def pop (r : Reg) : Cpu := (s.setReg .rsp (s.rsp + 8)).setReg r (s.mem s.rsp)

/-- `iretq`: `rip`, `cs`, `rflags`, `rsp` and `ss` are popped, in that order. -/
def iretq : Cpu :=
  { s.setReg .rsp (s.mem (s.rsp + 24)) with
    rip := s.mem s.rsp, cs := s.mem (s.rsp + 8), rflags := s.mem (s.rsp + 16),
    ss := s.mem (s.rsp + 32) }

@[simp] theorem setReg_regs_self : (s.setReg r v).regs r = v := by simp [setReg]

@[simp] theorem setReg_regs_of_ne (h : r' ≠ r) : (s.setReg r v).regs r' = s.regs r' := by
  simp [setReg, h]

@[simp] theorem setReg_mem : (s.setReg r v).mem = s.mem := rfl

@[simp] theorem rsp_setReg_rsp : (s.setReg .rsp v).rsp = v := by simp [rsp]

@[simp] theorem rsp_setReg_of_ne (h : r ≠ .rsp) : (s.setReg r v).rsp = s.rsp := by
  simp [rsp, Ne.symm h]

@[simp] theorem push_rsp : (s.push v).rsp = s.rsp - 8 := by simp [push, rsp]

@[simp] theorem push_regs_of_ne (h : r ≠ .rsp) : (s.push v).regs r = s.regs r := by
  simp [push, h]

@[simp] theorem push_mem : (s.push v).mem = Function.update s.mem (s.rsp - 8) v := rfl

@[simp] theorem push_rip : (s.push v).rip = s.rip := rfl

@[simp] theorem push_cs : (s.push v).cs = s.cs := rfl

@[simp] theorem push_rflags : (s.push v).rflags = s.rflags := rfl

@[simp] theorem push_ss : (s.push v).ss = s.ss := rfl

@[simp] theorem pop_rsp (h : r ≠ .rsp) : (s.pop r).rsp = s.rsp + 8 := by
  simp [pop, rsp, Ne.symm h]

@[simp] theorem pop_regs_self : (s.pop r).regs r = s.mem s.rsp := by simp [pop]

@[simp] theorem pop_regs_of_ne (h : r' ≠ r) (hrsp : r' ≠ .rsp) : (s.pop r).regs r' = s.regs r' := by
  simp [pop, h, hrsp]

@[simp] theorem pop_mem : (s.pop r).mem = s.mem := rfl

@[simp] theorem iretq_rip : s.iretq.rip = s.mem s.rsp := rfl

@[simp] theorem iretq_cs : s.iretq.cs = s.mem (s.rsp + 8) := rfl

@[simp] theorem iretq_rflags : s.iretq.rflags = s.mem (s.rsp + 16) := rfl

@[simp] theorem iretq_ss : s.iretq.ss = s.mem (s.rsp + 32) := rfl

@[simp] theorem iretq_rsp : s.iretq.rsp = s.mem (s.rsp + 24) := by simp [iretq, rsp]

@[simp] theorem iretq_regs_of_ne (h : r ≠ .rsp) : s.iretq.regs r = s.regs r := by
  simp [iretq, h]

/-- The flags an interrupt gate clears: TF, IF, NT, RF and VM. -/
def interruptGateClears : BitVec 64 := 0x34300

/-- The delivery of an interrupt through a 64-bit interrupt gate to `target` in the code
segment `selector`: on the stack whose top is `top` (the interrupted
stack pointer, or one the TSS names), aligned down to 16 bytes, the processor pushes the
interrupted `ss`, `rsp`, `rflags`, `cs` and `rip`, then the error code if the vector has
one. -/
def deliver (top : BitVec 64) (error : Option (BitVec 64)) (selector target : BitVec 64) : Cpu :=
  let frame := (((((s.setReg .rsp (top - top % 16)).push s.ss).push s.rsp).push s.rflags).push
    s.cs).push s.rip
  let frame := match error with
    | some e => frame.push e
    | none => frame
  { frame with rip := target, cs := selector, rflags := s.rflags &&& ~~~interruptGateClears }

theorem deliver_regs_of_ne {top : BitVec 64} {error : Option (BitVec 64)} {selector target : BitVec 64}
    (h : r ≠ .rsp) : (s.deliver top error selector target).regs r = s.regs r := by
  cases error <;> simp [deliver, h]

/-- The frame is five words below the aligned top, or six with an error code. -/
theorem deliver_rsp (top : BitVec 64) (error : Option (BitVec 64)) (selector target : BitVec 64) :
    (s.deliver top error selector target).rsp =
      top - top % 16 - BitVec.ofNat 64 (8 * (error.toList.length + 5)) := by
  cases error <;> simp only [deliver, rsp, push, setReg] <;> simp
  all_goals
    generalize top - top % 16 = a
    bv_omega

end Cpu

/-- The exceptions for which the processor pushes an error code:
`#DF`, `#TS`, `#NP`, `#SS`, `#GP`, `#PF`, `#AC`, `#CP`, `#VC` and `#SX`. -/
def pushesErrorCode (vector : ℕ) : Bool := vector ∈ [8, 10, 11, 12, 13, 14, 17, 21, 29, 30]

/-- The error code the processor pushes for an exception of `vector` whose code is `e`. -/
def errorCode (vector : ℕ) (e : BitVec 64) : Option (BitVec 64) :=
  if pushesErrorCode vector then some e else none

/-- An operand of `push`. -/
inductive Operand where
  | reg (r : Reg)
  | imm (v : BitVec 64)

/-- The value of an operand. -/
def Operand.read (s : Cpu) : Operand → BitVec 64
  | .reg r => s.regs r
  | .imm v => v

/-- The instructions. -/
inductive Instr where
  | push (src : Operand)
  | pop (dst : Reg)
  | mov (dst src : Reg)
  | addImm (dst : Reg) (imm : BitVec 64)
  | call (callee : Cpu → Cpu)
  | iretq

/-- One instruction. -/
def Instr.exec : Instr → Cpu → Cpu
  | .push src, s => s.push (src.read s)
  | .pop dst, s => s.pop dst
  | .mov dst src, s => s.setReg dst (s.regs src)
  | .addImm dst imm, s => s.setReg dst (s.regs dst + imm)
  | .call callee, s => callee s
  | .iretq, s => s.iretq

/-- Straight-line code, one instruction after another. -/
def run (code : List Instr) (s : Cpu) : Cpu := code.foldl (fun s i => i.exec s) s

@[simp] theorem run_nil (s : Cpu) : run [] s = s := rfl

@[simp] theorem run_cons (i : Instr) (code : List Instr) (s : Cpu) :
    run (i :: code) s = run code (i.exec s) := rfl

theorem run_append (code code' : List Instr) (s : Cpu) :
    run (code ++ code') s = run code' (run code s) := by
  simp [run, List.foldl_append]

/-- `push` of each register of `rs`, in order. -/
def pushes (rs : List Reg) : List Instr := rs.map fun r => .push (.reg r)

/-- `pop` into each register of `rs`, in order. -/
def pops (rs : List Reg) : List Instr := rs.map .pop

/-- What a System V callee keeps, seen from its call site `s`: it returns in `s'` with the
stack pointer and the callee-saved registers as they were, and the `n` words from the stack
pointer up, its caller's frame, as they were. -/
structure Keeps (n : ℕ) (s s' : Cpu) : Prop where
  rsp : s'.rsp = s.rsp
  calleeSaved : ∀ r, r.calleeSaved = true → s'.regs r = s.regs r
  frame : ∀ k < n, s'.mem (s.rsp + BitVec.ofNat 64 (8 * k)) = s.mem (s.rsp + BitVec.ofNat 64 (8 * k))

/-- A callee that changes nothing keeps everything. -/
theorem Keeps.refl (n : ℕ) (s : Cpu) : Keeps n s s := ⟨rfl, fun _ _ => rfl, fun _ _ => rfl⟩

/-! ## The stack -/

/-- The words from the stack pointer up are `ws`, the top first. -/
def Stack (s : Cpu) (ws : List (BitVec 64)) : Prop :=
  ∀ k (hk : k < ws.length), s.mem (s.rsp + BitVec.ofNat 64 (8 * k)) = ws[k]

namespace Stack

variable {s s' : Cpu} {ws : List (BitVec 64)} {w v : BitVec 64} {r : Reg}

/-- Any machine holds the empty stack. -/
theorem nil (s : Cpu) : Stack s [] := fun k hk => absurd hk (Nat.not_lt_zero k)

/-- The top word. -/
theorem top (h : Stack s (w :: ws)) : s.mem s.rsp = w := by
  have h0 := h 0 (by simp)
  rw [List.getElem_cons_zero] at h0
  simpa using h0

/-- The word `k` places from the top. -/
theorem get (h : Stack s ws) {k : ℕ} (hk : k < ws.length) :
    s.mem (s.rsp + BitVec.ofNat 64 (8 * k)) = ws[k] := h k hk

/-- A push adds its word on top of a stack of fewer than `2 ^ 60` words. -/
theorem push (h : Stack s ws) (hlen : ws.length < 2 ^ 60) : Stack (s.push v) (v :: ws) := by
  intro k hk
  cases k with
  | zero => simp
  | succ k =>
    have hk' : k < ws.length := by simpa using hk
    -- the word `k + 1` places down from the new top is the old word `k`, which the store
    -- below the old top does not reach
    have haddr : s.rsp - 8 + BitVec.ofNat 64 (8 * (k + 1)) = s.rsp + BitVec.ofNat 64 (8 * k) := by
      bv_omega
    have hne : s.rsp + BitVec.ofNat 64 (8 * k) ≠ s.rsp - 8 := by bv_omega
    simp only [Cpu.push_mem, Cpu.push_rsp, haddr, Function.update_of_ne hne, List.getElem_cons_succ]
    exact h k hk'

/-- A pop takes the top word off. -/
theorem pop (h : Stack s (w :: ws)) (hr : r ≠ .rsp) : Stack (s.pop r) ws := by
  intro k hk
  have haddr : s.rsp + 8 + BitVec.ofNat 64 (8 * k) = s.rsp + BitVec.ofNat 64 (8 * (k + 1)) := by
    bv_omega
  rw [Cpu.pop_mem, Cpu.pop_rsp s hr, haddr]
  exact h (k + 1) (by simpa using hk)

/-- Setting a register other than the stack pointer keeps the stack. -/
theorem setReg (h : Stack s ws) (hr : r ≠ .rsp) : Stack (s.setReg r v) ws := by
  intro k hk
  rw [Cpu.setReg_mem, Cpu.rsp_setReg_of_ne s hr]
  exact h k hk

/-- Moving the stack pointer up over `ws₁` leaves the rest. -/
theorem drop (ws₁ : List (BitVec 64)) (h : Stack s (ws₁ ++ ws)) :
    Stack (s.setReg .rsp (s.rsp + BitVec.ofNat 64 (8 * ws₁.length))) ws := by
  intro k hk
  have haddr : s.rsp + BitVec.ofNat 64 (8 * ws₁.length) + BitVec.ofNat 64 (8 * k) =
      s.rsp + BitVec.ofNat 64 (8 * (ws₁.length + k)) := by
    bv_omega
  rw [Cpu.setReg_mem, Cpu.rsp_setReg_rsp, haddr]
  rw [h (ws₁.length + k) (by simp; omega), List.getElem_append_right (by omega)]
  simp

/-- A callee that keeps its caller's frame keeps a stack that lies in it. -/
theorem of_keeps {n : ℕ} (hk : Keeps n s s') (h : Stack s ws) (hn : ws.length ≤ n) :
    Stack s' ws := by
  intro k hlt
  rw [hk.rsp, hk.frame k (by omega)]
  exact h k hlt

/-- `iretq` from a stack holding an interrupt frame. -/
theorem iretq {rip cs rflags rsp ss : BitVec 64}
    (h : Stack s (rip :: cs :: rflags :: rsp :: ss :: ws)) :
    s.iretq.rip = rip ∧ s.iretq.cs = cs ∧ s.iretq.rflags = rflags ∧ s.iretq.rsp = rsp ∧
      s.iretq.ss = ss := by
  have h0 := h 0 (by simp)
  have h1 := h 1 (by simp)
  have h2 := h 2 (by simp)
  have h3 := h 3 (by simp)
  have h4 := h 4 (by simp)
  simp only [List.getElem_cons_succ, List.getElem_cons_zero] at h0 h1 h2 h3 h4
  refine ⟨?_, ?_, ?_, ?_, ?_⟩
  · simpa using h0
  · simpa using h1
  · simpa using h2
  · simpa using h3
  · simpa using h4

/-- The interrupt frame a gate delivers: the interrupted `rip`, `cs`, `rflags`, `rsp` and `ss`,
under the error code if there is one. -/
theorem deliver (s : Cpu) (top : BitVec 64) (error : Option (BitVec 64)) (selector target : BitVec 64) :
    Stack (s.deliver top error selector target) (error.toList ++ [s.rip, s.cs, s.rflags, s.rsp, s.ss]) := by
  have hframe : Stack (((((s.setReg .rsp (top - top % 16)).push s.ss).push s.rsp).push
      s.rflags).push s.cs |>.push s.rip) [s.rip, s.cs, s.rflags, s.rsp, s.ss] :=
    ((((((nil _).push (by norm_num)).push (by norm_num)).push (by norm_num)).push
      (by norm_num)).push (by norm_num))
  -- the gate's new `rip`, `cs` and `rflags` leave memory and the stack pointer alone
  cases error with
  | none => exact hframe
  | some e => exact hframe.push (by norm_num)

/-- Pushing the registers `rs` puts their values on the stack, the last on top, and changes no
other register than the stack pointer. -/
theorem run_pushes : ∀ (rs : List Reg) {s : Cpu} {ws : List (BitVec 64)}, .rsp ∉ rs →
    rs.length + ws.length < 2 ^ 60 → Stack s ws →
      Stack (run (pushes rs) s) ((rs.map s.regs).reverse ++ ws) ∧
        (run (pushes rs) s).rsp = s.rsp - BitVec.ofNat 64 (8 * rs.length) ∧
        ∀ r, r ≠ .rsp → (run (pushes rs) s).regs r = s.regs r
  | [], s, ws, _, _, h => ⟨h, by simp [pushes], fun _ _ => rfl⟩
  | r :: rs, s, ws, hrsp, hlen, h => by
    have hr : r ≠ .rsp := fun hr => hrsp (hr ▸ List.mem_cons_self)
    have hrs : .rsp ∉ rs := fun hm => hrsp (List.mem_cons_of_mem _ hm)
    have h₁ : Stack (s.push (s.regs r)) (s.regs r :: ws) := h.push (by simp at hlen; omega)
    obtain ⟨hst, hsp, hregs⟩ := run_pushes rs hrs (by simp at hlen ⊢; omega) h₁
    -- the pushes after the first see the registers as they were
    have hmap : rs.map (s.push (s.regs r)).regs = rs.map s.regs :=
      List.map_congr_left fun r' hr' => Cpu.push_regs_of_ne s fun he => hrs (he ▸ hr')
    refine ⟨?_, ?_, fun r' hr' => ?_⟩
    · show Stack (run (pushes rs) (s.push (s.regs r))) _
      rw [List.map_cons, List.reverse_cons, List.append_assoc, ← hmap]
      exact hst
    · show (run (pushes rs) (s.push (s.regs r))).rsp = _
      rw [hsp, Cpu.push_rsp]
      simp only [List.length_cons]
      bv_omega
    · show (run (pushes rs) (s.push (s.regs r))).regs r' = _
      rw [hregs r' hr', Cpu.push_regs_of_ne s hr']

/-- Popping into distinct registers `rs` from a stack holding `rs.map g` on top sets each of
them to its word, and changes no other register than the stack pointer. -/
theorem run_pops {g : Reg → BitVec 64} : ∀ (rs : List Reg) {s : Cpu} {ws : List (BitVec 64)},
    rs.Nodup → .rsp ∉ rs → Stack s (rs.map g ++ ws) →
      Stack (run (pops rs) s) ws ∧
        (run (pops rs) s).rsp = s.rsp + BitVec.ofNat 64 (8 * rs.length) ∧
        (∀ r ∈ rs, (run (pops rs) s).regs r = g r) ∧
        ∀ r, r ∉ rs → r ≠ .rsp → (run (pops rs) s).regs r = s.regs r
  | [], s, ws, _, _, h => ⟨h, by simp [pops], fun _ hr => by simp at hr, fun _ _ _ => rfl⟩
  | r :: rs, s, ws, hnd, hrsp, h => by
    have hr : r ≠ .rsp := fun hr => hrsp (hr ▸ List.mem_cons_self)
    have hrs : .rsp ∉ rs := fun hm => hrsp (List.mem_cons_of_mem _ hm)
    have hnotin : r ∉ rs := (List.nodup_cons.mp hnd).1
    have h₁ : Stack (s.pop r) (rs.map g ++ ws) := Stack.pop h hr
    obtain ⟨hst, hsp, hset, hkeep⟩ := run_pops rs (List.nodup_cons.mp hnd).2 hrs h₁
    refine ⟨hst, ?_, fun r' hr' => ?_, fun r' hr' hr'sp => ?_⟩
    · show (run (pops rs) (s.pop r)).rsp = _
      rw [hsp, Cpu.pop_rsp s hr]
      simp only [List.length_cons]
      bv_omega
    · show (run (pops rs) (s.pop r)).regs r' = _
      rcases List.mem_cons.mp hr' with rfl | hr'
      · -- the first pop sets `r`, which the later pops do not touch
        rw [hkeep r' hnotin hr, Cpu.pop_regs_self]
        exact h.top
      · exact hset r' hr'
    · show (run (pops rs) (s.pop r)).regs r' = _
      have hne : r' ≠ r := fun he => hr' (he ▸ List.mem_cons_self)
      rw [hkeep r' (fun hm => hr' (List.mem_cons_of_mem _ hm)) hr'sp, Cpu.pop_regs_of_ne s hne hr'sp]

end Stack

end X86
