import Mathlib

/-!
# The scheduler

`kernel::threading::scheduler`: the kernel's tasks by id (a `BTreeMap<Tid, ThreadControlBlock>`),
a run queue of ids (a `VecDeque<Tid>`) and the id of the running task. `add_task` takes a
fresh id from the static counter of `Tid::new` and queues the task; `schedule`, which
`thread_yield` calls, switches to the task at the front of the queue and queues the one that
ran. `threading::init` registers the running boot thread as task `Tid(0)`.

The map is a function from ids to entries. Of a task's control block the scheduler reads and
writes the `state` only; `switch_thread` saves and restores registers, which this model does
not hold. A panic (an `expect`, an `assert!`, the `panic!` of an empty queue) is `none`.
-/

namespace Popcorn.Threading

/-- `hal::ThreadState`. -/
inductive ThreadState where
  | ready
  | running
  deriving DecidableEq, Repr

/-- `hal::ThreadControlBlock`, with the field the scheduler uses. -/
structure ThreadControlBlock where
  state : ThreadState
  deriving DecidableEq, Repr

/-- `ThreadControlBlock::new`: a new thread is `Ready`. -/
def ThreadControlBlock.new : ThreadControlBlock := ⟨.ready⟩

/-- `scheduler::Tid`, a `usize`. -/
structure Tid where
  val : Nat
  deriving DecidableEq, Repr

/-- `Tid::new`: `TIDS.fetch_add(1)` on the static `AtomicUsize` counter, which starts at 1. It
returns the value it read; the add wraps at `2^64`. -/
def Tid.new (tids : Nat) : Tid × Nat := (⟨tids⟩, (tids + 1) % 2 ^ 64)

/-- `scheduler::DuplicateKey`. -/
inductive DuplicateKey where
  | duplicateKey
  deriving DecidableEq, Repr

/-- `get_ptr`: where the entry of `key` lives, the key standing for its node, or `None` for a
key the map does not hold. `get_many_mut` computes it inline. -/
def getPtr {K V : Type*} (get : K → Option V) (key : K) : Option K := (get key).map fun _ => key

/-- `BTreeExt::get_many_mut`: for each key in turn, where its entry lives (`get_ptr`: the
node of the key, or `None` for a key the map does not hold), and `DuplicateKey` as soon as
one is where an earlier one was. Distinct keys live in distinct nodes, so a key stands for
its node's address. -/
def getManyMut {K V : Type*} [DecidableEq K] (get : K → Option V) :
    List K → List (Option K) → Except DuplicateKey (List (Option K))
  | [], ptrs => .ok ptrs
  | key :: keys, ptrs =>
    let ptr := (get key).map fun _ => key
    if ptrs.any (· == ptr) then .error .duplicateKey else getManyMut get keys (ptrs ++ [ptr])

/-- `scheduler::Scheduler`. -/
structure Scheduler where
  tasks : Tid → Option ThreadControlBlock
  queue : List Tid
  currentTid : Tid

/-- `Scheduler::new`. -/
def Scheduler.new : Scheduler := ⟨fun _ => none, [], ⟨0⟩⟩

/-- The map after a write to the state of the entry a pointer of `get_many_mut` names. -/
def setState (tasks : Tid → Option ThreadControlBlock) (ptr : Tid) (state : ThreadState) :
    Tid → Option ThreadControlBlock :=
  Function.update tasks ptr ((tasks ptr).map fun tcb => { tcb with state })

/-- `Scheduler::add_task`, with the value of `TIDS` before and after. -/
def Scheduler.addTask (s : Scheduler) (tids : Nat) (tcb : ThreadControlBlock) :
    Tid × Scheduler × Nat :=
  let (tid, tids) := Tid.new tids
  (tid, { s with tasks := Function.update s.tasks tid (some tcb), queue := s.queue ++ [tid] },
    tids)

/-- `Scheduler::schedule`. -/
def Scheduler.schedule (s : Scheduler) : Option Scheduler :=
  match s.queue with
  | newTid :: queue =>
    let oldTid := s.currentTid
    let queue := queue ++ [oldTid]
    match getManyMut s.tasks [oldTid, newTid] [] with
    -- `expect("Can't switch to same task")`
    | .error _ => none
    | .ok [oldTcb, newTcb] =>
      match oldTcb, newTcb with
      -- `expect("Cannot have been running a task that doesn't exist")`
      | none, _ => none
      -- `expect("Next task in queue has already exited")`
      | some _, none => none
      | some oldPtr, some newPtr =>
        some { tasks := setState (setState s.tasks oldPtr .ready) newPtr .running, queue,
               currentTid := newTid }
    -- the array has one entry per key
    | .ok _ => none
  | [] =>
    match s.tasks s.currentTid with
    -- `expect("Cannot have been running a task that doesn't exist")`
    | none => none
    -- `panic!("can't yet idle")` unless the task still runs
    | some currentTcb => if currentTcb.state = .running then some s else none

/-- `threading::init`: the running thread becomes task `Tid(0)`, `Running`; the `assert!` that
the map held no task `0` before is the `none`. -/
def init (s : Scheduler) : Option Scheduler :=
  match s.tasks ⟨0⟩ with
  | none => some { s with tasks := Function.update s.tasks ⟨0⟩ (some ⟨.running⟩) }
  | some _ => none

/-- The scheduler and the counter `TIDS` of `Tid::new`. -/
structure System where
  scheduler : Scheduler
  tids : Nat

/-- What the kernel asks of the scheduler: `add_task`, or `schedule` through `thread_yield`. -/
inductive Call where
  | addTask (tcb : ThreadControlBlock)
  | schedule

def Call.isAddTask : Call → Bool
  | .addTask _ => true
  | .schedule => false

/-- One call: `add_task` answers the new task's id, `schedule` nothing. -/
def step (w : System) : Call → Option (Option Tid × System)
  | .addTask tcb =>
    let (tid, scheduler, tids) := w.scheduler.addTask w.tids tcb
    some (some tid, ⟨scheduler, tids⟩)
  | .schedule => w.scheduler.schedule.map fun scheduler => (none, ⟨scheduler, w.tids⟩)

/-- The kernel after `threading::init` on `Scheduler::new()`, with `TIDS` at its initial 1. -/
def boot : Option System :=
  (init Scheduler.new).map fun scheduler => ⟨scheduler, 1⟩

end Popcorn.Threading
