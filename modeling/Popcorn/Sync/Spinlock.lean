import Mathlib.Logic.Function.Basic
import Mathlib.Data.List.Basic

/-!
# Spinlocks and the interrupt flag

A `RawSpinlock` is a lock word (`State`, in an `AtomicU8`) and the interrupt state saved by the
core that holds it (`irq_state`). `lock` and `try_lock` first save and clear the core's
interrupt flag through `__popcorn_disable_irq`, which on amd64 is `pushf; pop; cli` and
answers `flags & 0x0200`; `unlock` hands the saved value to `__popcorn_set_irq`, which runs
`sti` when it is not zero and does nothing otherwise. A `try_lock` that finds the lock held
hands the value back at once.

One core's calls form a call-driven system over its interrupt flag and the locks. The locks
the core holds are kept as a ghost of the model, the last acquired first. Other cores act on
the lock words only (`lockElsewhere`, `unlockElsewhere`), never on this core's flag. `lock`
on a held word spins until another core releases it: in a run of calls it is the call made
after that release, and a word the core holds itself it never gets (`none`). `unlock` is
`unsafe`, and its callers, `lock_api`'s guards, only release a lock their core holds, so an
`unlock` of another lock is not a call of the system (`none`); so is a panic
(`unreachable!`).
-/

namespace Popcorn
namespace Sync

/-- `State` of a `RawSpinlock`. -/
inductive State where
  | unlocked
  | locked
  deriving DecidableEq, Repr

/-- `RawSpinlock`: the lock word and the interrupt state its holder saved. -/
structure RawSpinlock where
  state : State
  irqState : ℕ
  deriving DecidableEq, Repr

/-- `RawSpinlock::INIT`. -/
def RawSpinlock.init : RawSpinlock := ⟨.unlocked, 0⟩

/-- The core's interrupt flag, bit 9 (`0x200`) of `RFLAGS`. -/
structure Cpu where
  interruptsEnabled : Bool
  deriving DecidableEq, Repr

/-- `Amd64Hal::get_and_disable_interrupts`: the flags' `IF` bit, `flags & 0x0200`, then `cli`. -/
def getAndDisableInterrupts (c : Cpu) : ℕ × Cpu :=
  (if c.interruptsEnabled then 0x200 else 0, ⟨false⟩)

/-- `Amd64Hal::set_interrupts`: `sti` when the saved state is not zero. -/
def setInterrupts (oldState : ℕ) (c : Cpu) : Cpu :=
  if oldState ≠ 0 then ⟨true⟩ else c

namespace RawSpinlock

/-- `RawSpinlock::lock`: the interrupt state saved, then the word taken once it is free. -/
def lock (l : RawSpinlock) (c : Cpu) : Option (RawSpinlock × Cpu) :=
  let (irqState, c) := getAndDisableInterrupts c
  match l.state with
  | .unlocked => some (⟨.locked, irqState⟩, c)
  -- `compare_exchange_weak` fails for as long as the word is held
  | .locked => none

/-- `RawSpinlock::try_lock`: whether the word was taken; on failure the saved state goes
straight back to `set_irq`. -/
def tryLock (l : RawSpinlock) (c : Cpu) : Bool × RawSpinlock × Cpu :=
  let (irqState, c) := getAndDisableInterrupts c
  match l.state with
  | .unlocked => (true, ⟨.locked, irqState⟩, c)
  | .locked => (false, l, setInterrupts irqState c)

/-- `RawSpinlock::unlock`: the word released, and the saved state handed to `set_irq`. -/
def unlock (l : RawSpinlock) (c : Cpu) : Option (RawSpinlock × Cpu) :=
  let oldIrqState := l.irqState
  match l.state with
  -- `unreachable!("Mutex was unlocked while unlocked")`
  | .unlocked => none
  | .locked => some ({ l with state := .unlocked }, setInterrupts oldIrqState c)

end RawSpinlock

/-- A call on the locks: this core's `lock`, `try_lock` and `unlock`, or another core taking a
lock word (with the interrupt state it saved) or releasing one. -/
inductive Call (κ : Type) where
  | lock (l : κ)
  | tryLock (l : κ)
  | unlock (l : κ)
  | lockElsewhere (l : κ) (irqState : ℕ)
  | unlockElsewhere (l : κ)
  deriving DecidableEq, Repr

/-- The core's flag, the locks, and the locks the core holds, the last acquired first. -/
structure Machine (κ : Type) where
  cpu : Cpu
  locks : κ → RawSpinlock
  held : List κ

/-- Every lock at `RawSpinlock::INIT` and none held, with the flag `enabled`. -/
def Machine.init {κ : Type} (enabled : Bool) : Machine κ :=
  ⟨⟨enabled⟩, fun _ => RawSpinlock.init, []⟩

variable {κ : Type} [DecidableEq κ]

/-- One call. -/
def step (s : Machine κ) : Call κ → Option (Machine κ)
  | .lock l =>
    ((s.locks l).lock s.cpu).map fun (lk, cpu) => ⟨cpu, Function.update s.locks l lk, l :: s.held⟩
  | .tryLock l =>
    let (success, lk, cpu) := (s.locks l).tryLock s.cpu
    some ⟨cpu, Function.update s.locks l lk, if success then l :: s.held else s.held⟩
  | .unlock l =>
    if l ∈ s.held then
      ((s.locks l).unlock s.cpu).map fun (lk, cpu) =>
        ⟨cpu, Function.update s.locks l lk, s.held.erase l⟩
    else none
  | .lockElsewhere l irqState =>
    if (s.locks l).state = .unlocked then
      some { s with locks := Function.update s.locks l ⟨.locked, irqState⟩ }
    else none
  | .unlockElsewhere l =>
    if (s.locks l).state = .locked ∧ l ∉ s.held then
      some { s with locks := Function.update s.locks l { s.locks l with state := .unlocked } }
    else none

/-- The calls of a run whose guards are dropped in the reverse order of their locks: an
`unlock` only of the lock acquired last. -/
def stepNested (s : Machine κ) (c : Call κ) : Option (Machine κ) :=
  match c with
  | .unlock l => if s.held.head? = some l then step s c else none
  | c => step s c

end Sync
end Popcorn
