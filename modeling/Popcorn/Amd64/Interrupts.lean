import Popcorn.Lib.X86
import Popcorn.Sync.Spinlock
import Popcorn.Panicking.SymbolMap

/-!
# Interrupt entry

Each vector `n` of the IDT enters a stub `amd64_irq_handler_n`, which the `irq_handler!` macro
declares. The stub pushes `0` in place of an error code, unless the processor pushed one for
the vector (the stubs declared `error`), then pushes `n` and jumps to
`amd64_global_irq_handler`. That routine saves the nine caller-saved registers and pushes `0`
for alignment. It then points `rdi` at the vector number, and so at an `IrqData` (`num`, the
error code and the processor's frame), and calls `amd64_handler2`. Afterwards it pops the
registers back, drops the vector number and the error code, and returns with `iretq`.

`amd64_handler2` reads `data.num as u8`. It hands an exception to `exception_handler` or the
vector to `irq_handler`, or returns at once on a spurious interrupt. `exception_handler` logs
the exception with the name of the symbol it occurred in, `get_symbol_name`, which can panic,
and then spins for good (`loop {}`) on every exception but `Debug` and `Unknown`, which it
returns from. `irq_handler` locks `IRQ_HANDLES`, a `Mutex` over a `RawSpinlock`, runs the
closure registered for the vector or warns, and unlocks it. The kernel's logger enables
`error!` and `warn!`, so their arguments are evaluated; what they print is left out. `cr2` is
the value it holds.
-/

namespace Popcorn.Amd64

open X86

/-! ## The stubs -/

/-- The vectors whose stub the `irq_handler!` macro declares with `error`. -/
def errorStubs : List ℕ := [8, 10, 11, 12, 13, 14, 17, 21, 29, 30]

/-- `irq_handler!(n error)`: `push n`, then `jmp amd64_global_irq_handler`. -/
def irqHandlerError (num : ℕ) : List Instr := [.push (.imm (BitVec.ofNat 64 num))]

/-- `irq_handler!(n)`: `push 0`, `push n`, then `jmp amd64_global_irq_handler`. -/
def irqHandlerPlain (num : ℕ) : List Instr := [.push (.imm 0), .push (.imm (BitVec.ofNat 64 num))]

/-- `amd64_irq_handler_n`, as the macro declares it for `n`. -/
def amd64IrqHandler (num : ℕ) : List Instr :=
  if num ∈ errorStubs then irqHandlerError num else irqHandlerPlain num

/-- `amd64_global_irq_handler`, with its call of `amd64_handler2`. -/
def amd64GlobalIrqHandler (handler2 : Cpu → Cpu) : List Instr :=
  [.push (.reg .rax), .push (.reg .rdi), .push (.reg .rsi), .push (.reg .rdx), .push (.reg .rcx),
    .push (.reg .r8), .push (.reg .r9), .push (.reg .r10), .push (.reg .r11),
    -- alignment
    .push (.imm 0),
    .mov .rdi .rsp, .addImm .rdi 80, .call handler2,
    .pop .rax, .pop .r11, .pop .r10, .pop .r9, .pop .r8, .pop .rcx, .pop .rdx, .pop .rsi,
    .pop .rdi, .pop .rax, .addImm .rsp 16, .iretq]

/-- What runs on an interrupt of vector `num`: its stub, then `amd64_global_irq_handler`, to
which the stub jumps. -/
def irqEntry (num : ℕ) (handler2 : Cpu → Cpu) : List Instr :=
  amd64IrqHandler num ++ amd64GlobalIrqHandler handler2

/-- `IrqData`, `repr(C)`: seven words. -/
structure IrqData where
  num : BitVec 64
  error : BitVec 64
  rip : BitVec 64
  cs : BitVec 64
  flags : BitVec 64
  rsp : BitVec 64
  ss : BitVec 64
  deriving DecidableEq, Repr

/-- The `IrqData` that `data: &mut IrqData` points at when it is `p`. -/
def IrqData.read (s : Cpu) (p : BitVec 64) : IrqData :=
  ⟨s.mem p, s.mem (p + 8), s.mem (p + 16), s.mem (p + 24), s.mem (p + 32), s.mem (p + 40),
    s.mem (p + 48)⟩

/-! ## `amd64_handler2` -/

/-- `DebugTy`. -/
inductive DebugTy where
  | breakpoint
  deriving DecidableEq, Repr

/-- `PageFault`. -/
structure PageFault where
  accessAddr : ℕ
  deriving DecidableEq, Repr

/-- `exception::Ty`. -/
inductive Ty where
  | floatingPoint
  | debug (d : DebugTy)
  | illegalInstruction
  | pageFault (pf : PageFault)
  | busFault
  | nmi
  | panic
  | generic (reason : String)
  | unknown (reason : String)
  deriving DecidableEq, Repr

/-- `exception::Exception`. -/
structure Exception where
  ty : Ty
  atInstruction : ℕ
  deriving DecidableEq, Repr

/-- What `amd64_handler2` does: it hands an exception to `exception_handler`, or a vector to
`irq_handler`, or returns at once on a spurious interrupt. -/
inductive Handled where
  | exception (e : Exception)
  | spuriousPic (vector : ℕ)
  | irq (num : ℕ)
  | spuriousApic
  deriving DecidableEq, Repr

/-- How a handler that does not panic ends: it returns, or it spins for good. -/
inductive Ending where
  | returns
  | spins
  deriving DecidableEq, Repr

/-- `exception_handler(exception)`, with `symbolMap` the value of `SYMBOL_MAP`: every arm logs
`get_symbol_name(exception.at_instruction)`, a panic there is `none`, and then spins for good,
but for `Debug` and `Unknown`, which it returns from. `is_kernel_mode` is `true`, so the
`todo!()` arms are not reached. -/
def exceptionHandler (symbolMap : Option (List UInt8)) (exception : Exception) : Option Ending :=
  let symbol := Panicking.getSymbolName symbolMap exception.atInstruction
  match exception.ty with
  | .floatingPoint | .illegalInstruction | .busFault | .generic _ => symbol.map fun _ => .spins
  | .pageFault _ => symbol.map fun _ => .spins
  | .nmi | .panic => symbol.map fun _ => .spins
  | .unknown _ | .debug _ => symbol.map fun _ => .returns

/-- What `irq_handler` acts on: the `RawSpinlock` of `IRQ_HANDLES`, the core's interrupt flag,
and the state `σ` the registered closures act on. -/
structure IrqState (σ : Type) where
  lock : Sync.RawSpinlock
  cpu : Sync.Cpu
  state : σ

/-- A closure registered in `IRQ_HANDLES`, a `Box<dyn FnMut()>`: a call of it on the state it
acts on, which ends as a handler does or panics. -/
abbrev IrqClosure (σ : Type) := σ → Option (Ending × σ)

/-- `irq_handler(num)`, with `handles` the closures `IRQ_HANDLES` holds: the lock taken, the
closure for `num` called or a warning, and the guard dropped, which unlocks. -/
def irqHandler {σ : Type} (handles : ℕ → Option (IrqClosure σ)) (num : ℕ) (w : IrqState σ) :
    Option (Ending × IrqState σ) :=
  match w.lock.lock w.cpu with
  -- `IRQ_HANDLES` is thread-local, so its holder is the code this interrupt stopped, which
  -- does not run again before the handler returns: `lock` spins for good
  | none => some (.spins, w)
  | some (lock, cpu) =>
    let call : Option (Ending × σ) :=
      match handles num with
      | some f => f w.state
      -- `warn!("Unhandled IRQ num {num}")`
      | none => some (.returns, w.state)
    call.bind fun (ending, state) =>
      match ending with
      | .spins => some (.spins, ⟨lock, cpu, state⟩)
      | .returns => (lock.unlock cpu).map fun (lock, cpu) => (.returns, ⟨lock, cpu, state⟩)

/-- The rest of `amd64_handler2` after its match: `exception_handler`, `irq_handler`, or a
return at once on a spurious interrupt. -/
def Handled.run {σ : Type} (symbolMap : Option (List UInt8))
    (handles : ℕ → Option (IrqClosure σ)) (w : IrqState σ) : Handled → Option (Ending × IrqState σ)
  | .exception e => (exceptionHandler symbolMap e).map fun ending => (ending, w)
  | .irq num => irqHandler handles num w
  | .spuriousPic _ | .spuriousApic => some (.returns, w)

end Popcorn.Amd64
