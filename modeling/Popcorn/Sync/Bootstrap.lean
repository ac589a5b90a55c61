import Popcorn.Lib.Interleave
import Popcorn.Lib.Run

/-!
# `BootstrapOnceLock`

`kernel_api::sync::BootstrapOnceLock<T>` is an `AtomicU8` holding a `State` and a cell,
`MaybeUninit<T>`. `bootstrap(bootstrap_value, f)` loops on
`compare_exchange_weak(Uncalled, Saving)`. The thread that succeeds writes `bootstrap_value`
to the cell, stores `Running`, calls `f`, stores `Saving`, writes `f`'s value to the cell,
stores `Init` and returns a reference to the cell. A thread that reads `Poison` panics, one
that reads `Running` or `Saving` spins, one that reads `Init` returns a reference to the cell,
and one that reads `Uncalled` (a spurious failure of the weak exchange) tries again. `get`
loads the word: it panics on `Poison`, answers `None` on `Uncalled` and `Saving`, and
otherwise fences and answers a reference to the cell, which holds the bootstrap value while
the word is `Running`.

Threads take atomic steps on the word and the cell in any interleaving (`Interleave.Sys`).
Each pass of the loop is one step, with or without a spurious failure, and so is each write
of the cell and each store of the word. `get`'s load is one step and its read of the cell
after the fence another: unlike `Once`'s `Called`, the `Running` it saw does not stay. `f` is
known by the value it produces; its call and the `Relaxed` store of `Saving` after it are one
step, since the call changes nothing another thread sees. If `f` may unwind, the owner can
stop there instead: nothing catches the unwinding, and nothing stores the word. Reading the
cell uninitialised is undefined behaviour, and the step is `none`.

The word is only ever written with `State::into`, which `State::try_from` inverts, so it is
kept as a `State`: `get`'s `unwrap` and `bootstrap`'s `unreachable!()` are never reached.
Next to the word and the cell the model keeps, as ghosts, the values `f` returned and the
values written to the cell, oldest first.
-/

namespace Popcorn.Sync.Bootstrap

/-- `State` of a `BootstrapOnceLock`. -/
inductive State where
  | uncalled
  | saving
  | running
  | init
  | poison
  deriving DecidableEq, Repr

/-- `State::const_into_u8`. -/
def State.constIntoU8 : State → UInt8
  | .uncalled => 0
  | .saving => 1
  | .running => 2
  | .init => 3
  | .poison => 4

/-- `State::const_from_u8`. -/
def State.constFromU8 (value : UInt8) : Except Unit State :=
  if value = 0 then .ok .uncalled
  else if value = 1 then .ok .saving
  else if value = 2 then .ok .running
  else if value = 3 then .ok .init
  else if value = 4 then .ok .poison
  else .error ()

/-- `BootstrapOnceLock<T>`: its word and its cell, `none` while uninitialised; and, as ghosts,
the values `f` returned and the values written to the cell. -/
structure BootstrapOnceLock (α : Type) where
  state : State
  data : Option α
  produced : List α
  writes : List α
  deriving DecidableEq, Repr

variable {α : Type}

/-- `BootstrapOnceLock::new`. -/
def BootstrapOnceLock.new : BootstrapOnceLock α := ⟨.uncalled, none, [], []⟩

/-- `(*self.data.get()).write(value)`. -/
def BootstrapOnceLock.write (g : BootstrapOnceLock α) (value : α) : BootstrapOnceLock α :=
  { g with data := some value, writes := g.writes ++ [value] }

/-- What a call returned. -/
inductive Ret (α : Type) where
  | get (r : Option α)
  | bootstrap (v : α)
  deriving DecidableEq, Repr

/-- Where a thread is: between calls (`idle`, or having `returned`); in `get` after the load
and the fence, with the read of the cell next (`loaded`); in `bootstrap`'s loop with
bootstrap value `b` and an `f` producing `v`; having won the exchange, about to write `b`
(`won`), to store `Running` (`bootstrapped`), to call `f` (`running`), to write `f`'s value
(`saving`) or to store `Init` (`written`); or stopped by a panic. -/
inductive Pc (α : Type) where
  | idle
  | loaded
  | bootstrap (b v : α)
  | won (b v : α)
  | bootstrapped (v : α)
  | running (v : α)
  | saving (v : α)
  | written (v : α)
  | returned (r : Ret α)
  | panicked
  deriving DecidableEq, Repr

/-- A thread between calls. -/
def Pc.ready : Pc α → Bool
  | .idle | .returned _ => true
  | _ => false

/-- The steps a thread takes. -/
inductive Act (α : Type) where
  | get
  | assumeInitRef
  | bootstrap (b v : α)
  | cas (spurious : Bool)
  | writeBootstrap
  | storeRunning
  | callF
  | unwind
  | writeValue
  | storeInit
  deriving DecidableEq, Repr

/-- `get`'s load of the word. -/
def loadPass (g : BootstrapOnceLock α) : Pc α :=
  match g.state with
  -- `panic!("poisoned BootstrapOnceLock")`
  | .poison => .panicked
  | .uncalled | .saving => .returned (.get none)
  -- `fence(Acquire)`, then the read of the cell
  | .running | .init => .loaded

/-- One pass of `bootstrap`'s loop, by a thread with bootstrap value `b` and an `f` producing
`v`. -/
def bootstrapPass (spurious : Bool) (g : BootstrapOnceLock α) (b v : α) :
    Option (BootstrapOnceLock α × Pc α) :=
  match Interleave.compareExchangeWeak spurious g.state .uncalled .saving with
  -- switched from `Uncalled` to `Saving`: bootstrap, then call `f`
  | (.ok _, state) => some ({ g with state := state }, .won b v)
  | (.error .poison, _) => some (g, .panicked)
  -- currently running: spin until the state changes
  | (.error .running, _) | (.error .saving, _) => some (g, .bootstrap b v)
  -- already called: `assume_init_ref` of the cell
  | (.error .init, _) => g.data.map fun d => (g, .returned (.bootstrap d))
  -- a spurious failure: retry
  | (.error .uncalled, _) => some (g, .bootstrap b v)

/-- One atomic step of a thread; `none` when the step is not the thread's to take, and on
undefined behaviour. `fPanics` says whether an `f` may unwind. -/
def Thread.step (fPanics : Bool) (g : BootstrapOnceLock α) :
    Pc α → Act α → Option (BootstrapOnceLock α × Pc α)
  | p, .get => if p.ready then some (g, loadPass g) else none
  | .loaded, .assumeInitRef => g.data.map fun d => (g, .returned (.get (some d)))
  | p, .bootstrap b v => if p.ready then some (g, .bootstrap b v) else none
  | .bootstrap b v, .cas spurious => bootstrapPass spurious g b v
  | .won b v, .writeBootstrap => some (g.write b, .bootstrapped v)
  -- `store(Running, Release)`
  | .bootstrapped v, .storeRunning => some ({ g with state := .running }, .running v)
  -- `let true_value = f()`, then `store(Saving, Relaxed)`
  | .running v, .callF => some ({ g with state := .saving, produced := g.produced ++ [v] }, .saving v)
  | .running _, .unwind => if fPanics then some (g, .panicked) else none
  | .saving v, .writeValue => some (g.write v, .written v)
  -- `store(Init, Release)`, then the reference `write` gave
  | .written v, .storeInit => some ({ g with state := .init }, .returned (.bootstrap v))
  | _, _ => none

/-- A `BootstrapOnceLock` and the threads using it. -/
abbrev Lock (α ι : Type) := Interleave.Sys (BootstrapOnceLock α) (Pc α) ι

/-- One atomic step of one thread. -/
def Lock.Step {ι : Type} [DecidableEq ι] (fPanics : Bool) : Lock α ι → Lock α ι → Prop :=
  Interleave.Step fun g p g' p' => ∃ act, Thread.step fPanics g p act = some (g', p')

/-- `BootstrapOnceLock::new`, every thread idle. -/
def Lock.Init {ι : Type} (s : Lock α ι) : Prop :=
  s.shared = BootstrapOnceLock.new ∧ ∀ i, s.threads i = .idle

end Popcorn.Sync.Bootstrap
