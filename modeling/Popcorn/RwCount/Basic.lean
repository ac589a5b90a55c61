import Mathlib
import Popcorn.Lib.Interleave

/-!
# The reader-writer lock word

`kernel_api::sync::RwCount` is the raw lock under `RwLock`: one `AtomicUsize` (64 bits on
the kernel's target) with the write bit at bit 63, the upgradeable bit at bit 62 and the
count of shared readers below them. The ten operations of `lock_api`'s raw traits read and
write it through `load`, `store` and compare-exchange.

Every thread takes atomic steps on the word one at a time, in any interleaving. An operation
written as a compare-exchange loop (`try_lock_shared`, `unlock_shared`,
`try_lock_upgradable`, `unlock_upgradable`, `downgrade_upgradable`) takes one step for its
first `load` and one for each pass of its loop, where the pass acts on the value it last
read; the others are one atomic access each. A loop's `load` reads the current word: on
one location the accesses are coherent, and a stale read only fails the next
compare-exchange. A spurious failure of `compare_exchange_weak` returns the current word,
which is the value the pass had, so it repeats the pass unchanged: a step that changes
nothing, left out.

Next to its program counter each thread carries the guards it holds, as `lock_api` hands
them out: shared, upgradable and write guards. An unlock, downgrade or upgrade is started
only by a holder of the matching guard. `debugAssertions` is `cfg!(debug_assertions)`,
which also turns on the overflow checks of integer arithmetic.
-/

namespace Popcorn.RwCount

/-- `RwCount::WRITE_BIT_MASK`. -/
def writeBitMask : BitVec 64 := 1#64 <<< (64 - 1)

/-- `RwCount::UPGRADEABLE_BIT_MASK`. -/
def upgradeableBitMask : BitVec 64 := 1#64 <<< (64 - 2)

/-- `RwCount::READ_COUNT_MASK`. -/
def readCountMask : BitVec 64 := ~~~(writeBitMask ||| upgradeableBitMask)

/-- `AtomicUsize::compare_exchange` (and `_weak` without its spurious failure): `Ok` with
`new` written when the word is `current`, else `Err` with the word read. -/
def compareExchange (word current new : BitVec 64) : Except (BitVec 64) (BitVec 64) × BitVec 64 :=
  if word = current then (.ok word, new) else (.error word, word)

/-! ## The compare-exchange loops -/

/-- What one pass of a compare-exchange loop does with the value it last read: panic, return
without writing, or try to write `new` over it. -/
inductive Pass where
  | panic
  | done
  | cas (new : BitVec 64)
  deriving DecidableEq, Repr

/-- A pass of `try_lock_shared`. -/
def tryLockSharedPass (oldValue : BitVec 64) : Pass :=
  let oldNormalCount := oldValue &&& readCountMask
  if oldNormalCount = readCountMask then .panic
  else if oldValue &&& writeBitMask ≠ 0 then .done
  else .cas ((oldNormalCount + 1) ||| (oldValue &&& upgradeableBitMask))

/-- A pass of `unlock_shared`. -/
def unlockSharedPass (debugAssertions : Bool) (oldValue : BitVec 64) : Pass :=
  let oldNormalCount := oldValue &&& ~~~upgradeableBitMask
  if debugAssertions ∧ oldValue &&& writeBitMask ≠ 0 then .panic
  -- `old_normal_count - 1` below zero: the overflow panic of a debug build
  else if debugAssertions ∧ oldNormalCount = 0 then .panic
  else .cas ((oldNormalCount - 1) ||| (oldValue &&& upgradeableBitMask))

/-- A pass of `try_lock_upgradable`. -/
def tryLockUpgradablePass (oldValue : BitVec 64) : Pass :=
  if oldValue &&& writeBitMask ≠ 0 then .done
  else if oldValue &&& upgradeableBitMask ≠ 0 then .done
  else .cas (oldValue ||| upgradeableBitMask)

/-- A pass of `unlock_upgradable`. -/
def unlockUpgradablePass (debugAssertions : Bool) (oldValue : BitVec 64) : Pass :=
  if debugAssertions ∧ oldValue &&& writeBitMask ≠ 0 then .panic
  else .cas (oldValue &&& ~~~upgradeableBitMask)

/-- A pass of `downgrade_upgradable`. -/
def downgradeUpgradablePass (debugAssertions : Bool) (oldValue : BitVec 64) : Pass :=
  if debugAssertions ∧ oldValue &&& writeBitMask ≠ 0 then .panic
  else
    let oldNormalCount := oldValue &&& readCountMask
    if oldNormalCount = readCountMask then .panic
    else .cas (oldNormalCount + 1)

/-! ## The single accesses -/

/-- `try_lock_exclusive`: `compare_exchange_weak(0, WRITE_BIT_MASK)`. -/
def tryLockExclusive (word : BitVec 64) : Except (BitVec 64) (BitVec 64) × BitVec 64 :=
  compareExchange word 0 writeBitMask

/-- `try_upgrade`: `compare_exchange_weak(UPGRADEABLE_BIT_MASK, WRITE_BIT_MASK)`. -/
def tryUpgrade (word : BitVec 64) : Except (BitVec 64) (BitVec 64) × BitVec 64 :=
  compareExchange word upgradeableBitMask writeBitMask

/-- How a writer gives the write bit up for `value`: with debug assertions
`compare_exchange(WRITE_BIT_MASK, value).expect(..)`, where `none` is the panic of the
`expect`; without them `store(value)`. -/
def releaseWrite (debugAssertions : Bool) (word value : BitVec 64) : Option (BitVec 64) :=
  if debugAssertions then
    match compareExchange word writeBitMask value with
    | (.ok _, word') => some word'
    | (.error _, _) => none
  else some value

/-- `unlock_exclusive`. -/
def unlockExclusive (debugAssertions : Bool) (word : BitVec 64) : Option (BitVec 64) :=
  releaseWrite debugAssertions word 0

/-- `downgrade`. -/
def downgrade (debugAssertions : Bool) (word : BitVec 64) : Option (BitVec 64) :=
  releaseWrite debugAssertions word 1

/-- `downgrade_to_upgradable`. -/
def downgradeToUpgradable (debugAssertions : Bool) (word : BitVec 64) : Option (BitVec 64) :=
  releaseWrite debugAssertions word upgradeableBitMask

/-! ## Threads -/

/-- The guards a thread holds. -/
structure Guards where
  shared : Nat
  upgradable : Nat
  write : Nat
  deriving DecidableEq, Repr

/-- The ten operations of `RawRwLock`, `RawRwLockDowngrade`, `RawRwLockUpgrade` and
`RawRwLockUpgradeDowngrade`. -/
inductive Op where
  | tryLockShared
  | unlockShared
  | tryLockExclusive
  | unlockExclusive
  | downgrade
  | tryLockUpgradable
  | unlockUpgradable
  | tryUpgrade
  | downgradeUpgradable
  | downgradeToUpgradable
  deriving DecidableEq, Repr

/-- Whether a thread holding `g` may start the operation: an unlock, downgrade or upgrade
needs the guard it gives up. -/
def Op.issuable : Op → Guards → Bool
  | .unlockShared, g => 0 < g.shared
  | .unlockExclusive, g | .downgrade, g | .downgradeToUpgradable, g => 0 < g.write
  | .unlockUpgradable, g | .tryUpgrade, g | .downgradeUpgradable, g => 0 < g.upgradable
  | .tryLockShared, _ | .tryLockExclusive, _ | .tryLockUpgradable, _ => true

/-- The guards once the operation has succeeded. -/
def Op.apply : Op → Guards → Guards
  | .tryLockShared, g => { g with shared := g.shared + 1 }
  | .unlockShared, g => { g with shared := g.shared - 1 }
  | .tryLockExclusive, g => { g with write := g.write + 1 }
  | .unlockExclusive, g => { g with write := g.write - 1 }
  | .downgrade, g => { g with write := g.write - 1, shared := g.shared + 1 }
  | .tryLockUpgradable, g => { g with upgradable := g.upgradable + 1 }
  | .unlockUpgradable, g => { g with upgradable := g.upgradable - 1 }
  | .tryUpgrade, g => { g with upgradable := g.upgradable - 1, write := g.write + 1 }
  | .downgradeUpgradable, g => { g with upgradable := g.upgradable - 1, shared := g.shared + 1 }
  | .downgradeToUpgradable, g => { g with write := g.write - 1, upgradable := g.upgradable + 1 }

/-- The operations written as compare-exchange loops. -/
inductive LoopOp where
  | tryLockShared
  | unlockShared
  | tryLockUpgradable
  | unlockUpgradable
  | downgradeUpgradable
  deriving DecidableEq, Repr

/-- The operation a loop belongs to. -/
def LoopOp.op : LoopOp → Op
  | .tryLockShared => .tryLockShared
  | .unlockShared => .unlockShared
  | .tryLockUpgradable => .tryLockUpgradable
  | .unlockUpgradable => .unlockUpgradable
  | .downgradeUpgradable => .downgradeUpgradable

/-- The loop's pass. -/
def LoopOp.pass (debugAssertions : Bool) : LoopOp → BitVec 64 → Pass
  | .tryLockShared => tryLockSharedPass
  | .unlockShared => unlockSharedPass debugAssertions
  | .tryLockUpgradable => tryLockUpgradablePass
  | .unlockUpgradable => unlockUpgradablePass debugAssertions
  | .downgradeUpgradable => downgradeUpgradablePass debugAssertions

/-- Where a thread is: between operations, inside a loop with the value it last read, or
stopped by a panic. -/
inductive Pc where
  | idle
  | loop (op : LoopOp) (oldValue : BitVec 64)
  | panicked
  deriving DecidableEq, Repr

/-- A thread: where it is and the guards it holds. -/
structure Thread where
  pc : Pc
  guards : Guards
  deriving DecidableEq, Repr

/-- The end of a compare-exchange that returns `bool`: on `Ok` the operation has succeeded. -/
def finishCas (op : Op) (g : Guards) : Except (BitVec 64) (BitVec 64) × BitVec 64 →
    BitVec 64 × Thread
  | (.ok _, word') => (word', ⟨.idle, op.apply g⟩)
  | (.error _, word') => (word', ⟨.idle, g⟩)

/-- The end of a write release: done, or the panic of its `expect`. -/
def finishRelease (op : Op) (word : BitVec 64) (g : Guards) : Option (BitVec 64) →
    BitVec 64 × Thread
  | some word' => (word', ⟨.idle, op.apply g⟩)
  | none => (word, ⟨.panicked, g⟩)

/-- The first step of an operation from `idle`: a loop's `load`, or the whole operation. -/
def start (debugAssertions : Bool) (op : Op) (word : BitVec 64) (g : Guards) :
    BitVec 64 × Thread :=
  match op with
  | .tryLockShared => (word, ⟨.loop .tryLockShared word, g⟩)
  | .unlockShared => (word, ⟨.loop .unlockShared word, g⟩)
  | .tryLockUpgradable => (word, ⟨.loop .tryLockUpgradable word, g⟩)
  | .unlockUpgradable => (word, ⟨.loop .unlockUpgradable word, g⟩)
  | .downgradeUpgradable => (word, ⟨.loop .downgradeUpgradable word, g⟩)
  | .tryLockExclusive => finishCas op g (tryLockExclusive word)
  | .tryUpgrade => finishCas op g (tryUpgrade word)
  | .unlockExclusive => finishRelease op word g (unlockExclusive debugAssertions word)
  | .downgrade => finishRelease op word g (downgrade debugAssertions word)
  | .downgradeToUpgradable =>
    finishRelease op word g (downgradeToUpgradable debugAssertions word)

/-- One pass of a loop on the value it last read: on a failed compare-exchange the loop goes
on with the value the compare-exchange read. -/
def pass (debugAssertions : Bool) (op : LoopOp) (oldValue word : BitVec 64) (g : Guards) :
    BitVec 64 × Thread :=
  match op.pass debugAssertions oldValue with
  | .panic => (word, ⟨.panicked, g⟩)
  | .done => (word, ⟨.idle, g⟩)
  | .cas new =>
    match compareExchange word oldValue new with
    | (.ok _, word') => (word', ⟨.idle, op.op.apply g⟩)
    | (.error current, word') => (word', ⟨.loop op current, g⟩)

/-- What a thread does next: start an operation, or make the next pass of its loop. -/
inductive Act where
  | start (op : Op)
  | pass
  deriving DecidableEq, Repr

/-- One atomic step of a thread on the word; `none` when the step is not the thread's to
take (an operation started while busy or by a thread without the guard it needs, a pass
outside a loop, anything after a panic). -/
def Thread.step (debugAssertions : Bool) (word : BitVec 64) (t : Thread) :
    Act → Option (BitVec 64 × Thread)
  | .start op =>
    match t.pc with
    | .idle => if op.issuable t.guards then some (start debugAssertions op word t.guards) else none
    | _ => none
  | .pass =>
    match t.pc with
    | .loop op oldValue => some (pass debugAssertions op oldValue word t.guards)
    | _ => none

/-- The lock word and the threads using it. -/
abbrev Lock (ι : Type) := Interleave.Sys (BitVec 64) Thread ι

/-- One atomic step of one thread. -/
def Lock.Step {ι : Type} [DecidableEq ι] (debugAssertions : Bool) : Lock ι → Lock ι → Prop :=
  Interleave.Step fun word t word' t' => ∃ act, t.step debugAssertions word act = some (word', t')

/-- `RawRwLock::INIT`, every thread idle and holding nothing. -/
def Lock.Init {ι : Type} (s : Lock ι) : Prop :=
  s.shared = 0 ∧ ∀ i, s.threads i = ⟨.idle, ⟨0, 0, 0⟩⟩

end Popcorn.RwCount
