import Popcorn.Lib.Interleave
import Popcorn.Lib.Run

/-!
# `Once` and `OnceLock`

`kernel_api::sync::Once` is one `AtomicU8` holding a `State`. `call_once(f)` loops on
`compare_exchange_weak(Uncalled, Running)`: the thread that succeeds calls `f` under a drop
guard that stores `Poison` if `f` unwinds, then forgets the guard and stores `Called`; a
thread that reads `Poison` panics, one that reads `Running` spins, one that reads `Called`
returns, and one that reads `Uncalled` (a spurious failure of the weak compare-exchange)
tries again. `is_complete` loads the word and answers whether it is `Called`.

`OnceLock<T>` is a `Once` and a cell, `MaybeUninit<T>`. `get` answers `None` unless the
`Once` is complete, else a reference to the cell; `get_or_init(f)` runs `call_once` with a
closure that writes `f()` into the cell, then takes a reference to the cell.

Threads take atomic steps on the word and the cell in any interleaving (`Interleave.Sys`).
Each pass of `call_once`'s loop is one step, with or without a spurious failure. The call of
`f` with the write of its value is one step, or its unwinding, which the drop guard ends
with the store of `Poison`; the store of `Called` is one step. So is `get`: the load of
`is_complete` and the read of the cell after it, which the `Called` it saw keeps stable.
So is the reference `get_or_init` takes once `call_once` has returned. `f` is known by the
value it produces. Reading the cell uninitialised is undefined behaviour, and the step is
`none`.

The word is only ever written with `State::into`, and `State::try_from` inverts it, so it is
kept as a `State`: `is_complete`'s `unwrap` and the `unreachable!()` arm of `call_once` are
never reached. Next to the word and the cell the model keeps, as a ghost, the values that
the initialisers which have run produced.
-/

namespace Popcorn.Sync.Once

/-- `State` of a `Once`. -/
inductive State where
  | uncalled
  | running
  | called
  | poison
  deriving DecidableEq, Repr

/-- `State::const_into_u8`. -/
def State.constIntoU8 : State → UInt8
  | .uncalled => 0
  | .running => 1
  | .called => 2
  | .poison => 3

/-- `State::const_from_u8`. -/
def State.constFromU8 (value : UInt8) : Except Unit State :=
  if value = 0 then .ok .uncalled
  else if value = 1 then .ok .running
  else if value = 2 then .ok .called
  else if value = 3 then .ok .poison
  else .error ()

/-- `compare_exchange_weak(current, new)` on the word: `Ok` with `new` written when the word
is `current` and the exchange does not fail spuriously, else `Err` with the word read. -/
def compareExchangeWeak (spurious : Bool) (word current new : State) :
    Except State State × State :=
  if word = current ∧ spurious = false then (.ok word, new) else (.error word, word)

/-- `Once::is_complete`. -/
def isComplete (once : State) : Bool :=
  match once with
  | .called => true
  | _ => false

/-- `OnceLock<T>`: its `Once`'s word and its cell, `none` while uninitialised; and, as a
ghost, the values the initialisers that have run produced. -/
structure OnceLock (α : Type) where
  once : State
  data : Option α
  produced : List α
  deriving DecidableEq, Repr

variable {α : Type}

/-- `OnceLock::new`. -/
def OnceLock.new : OnceLock α := ⟨.uncalled, none, []⟩

/-- `OnceLock::get`: `None` unless the `Once` is complete, else the cell's value, which
`assume_init_ref` reads (`none`, undefined behaviour, on an uninitialised cell). -/
def OnceLock.get (g : OnceLock α) : Option (Option α) :=
  if !isComplete g.once then some none
  else g.data.map some

/-- What a call returned. -/
inductive Ret (α : Type) where
  | get (r : Option α)
  | getOrInit (v : α)
  deriving DecidableEq, Repr

/-- Where a thread is: between calls (`idle`, or having `returned`), in `call_once`'s loop
for an `f` producing `v`, about to call `f` after winning the compare-exchange, with `f`'s
value `written` and the store of `Called` next, with `call_once` returned and the reference
to the cell next, or stopped by a panic. -/
inductive Pc (α : Type) where
  | idle
  | callOnce (v : α)
  | running (v : α)
  | written
  | initDone
  | returned (r : Ret α)
  | panicked
  deriving DecidableEq, Repr

/-- A thread between calls. -/
def Pc.ready : Pc α → Bool
  | .idle | .returned _ => true
  | _ => false

/-- The steps a thread takes. -/
inductive Act (α : Type) where
  | get
  | getOrInit (v : α)
  | cas (spurious : Bool)
  | callF
  | unwind
  | storeCalled
  | assumeInitRef
  deriving DecidableEq, Repr

/-- One pass of `call_once`'s loop, by a thread whose `f` produces `v`. -/
def callOncePass (spurious : Bool) (g : OnceLock α) (v : α) : OnceLock α × Pc α :=
  match compareExchangeWeak spurious g.once .uncalled .running with
  | (.ok _, once) => ({ g with once := once }, .running v)
  -- `panic!("poisoned Once")`
  | (.error .poison, _) => (g, .panicked)
  -- currently running: spin until the state changes
  | (.error .running, _) => (g, .callOnce v)
  -- already called: return
  | (.error .called, _) => (g, .initDone)
  -- a spurious failure: try again
  | (.error .uncalled, _) => (g, .callOnce v)

/-- One atomic step of a thread; `none` when the step is not the thread's to take, and on
undefined behaviour. `initPanics` says whether an `f` may unwind. -/
def Thread.step (initPanics : Bool) (g : OnceLock α) : Pc α → Act α → Option (OnceLock α × Pc α)
  | p, .get => if p.ready then g.get.map fun r => (g, .returned (.get r)) else none
  | p, .getOrInit v => if p.ready then some (g, .callOnce v) else none
  | .callOnce v, .cas spurious => some (callOncePass spurious g v)
  -- `(*self.data.get()).write(f())`
  | .running v, .callF => some ({ g with data := some v, produced := g.produced ++ [v] }, .written)
  -- the drop guard's `store(Poison)` as `f` unwinds
  | .running _, .unwind => if initPanics then some ({ g with once := .poison }, .panicked) else none
  -- `mem::forget(drop_guard)`, then `store(Called)`
  | .written, .storeCalled => some ({ g with once := .called }, .initDone)
  -- `assume_init_ref` after `call_once`
  | .initDone, .assumeInitRef => g.data.map fun v => (g, .returned (.getOrInit v))
  | _, _ => none

/-- A `OnceLock` and the threads using it. -/
abbrev Lock (α ι : Type) := Interleave.Sys (OnceLock α) (Pc α) ι

/-- One atomic step of one thread. -/
def Lock.Step {ι : Type} [DecidableEq ι] (initPanics : Bool) : Lock α ι → Lock α ι → Prop :=
  Interleave.Step fun g p g' p' => ∃ act, Thread.step initPanics g p act = some (g', p')

/-- `OnceLock::new`, every thread idle. -/
def Lock.Init {ι : Type} (s : Lock α ι) : Prop :=
  s.shared = OnceLock.new ∧ ∀ i, s.threads i = .idle

end Popcorn.Sync.Once
