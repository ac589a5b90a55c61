import Popcorn.Lib.Run

/-!
# The task executor

`task::executor::Executor` keeps the id the next task gets, a queue of ids to poll
(`pending_run`, a `crossbeam` `ArrayQueue` of capacity 128, first in first out), and two maps
keyed by id: the tasks and their wakers. `spawn` queues a fresh id and stores the task and a
`Waker` for it; a waker's `wake` and `wake_by_ref` push its id onto the queue, and a waker
is an `Arc` that the task's future may clone and keep, so it can be woken at any time after
its spawn, also after the task has finished. `run` pops ids for ever; for each it looks the
task and its waker up (`expect("Task does not exist")`, `unwrap()`), polls the future, and
removes both when the future is ready.

The futures are not modelled: each poll is an event that says which wakers the future wakes
while it runs and whether it is ready. The maps are lists of the ids they hold. A panic is
`.error` with its message.
-/

namespace Popcorn.Task

/-- `ArrayQueue::new(128)`. -/
def capacity : ℕ := 128

/-- `Executor`, with the ids `tasks` and `wakers` hold. -/
structure Executor where
  nextTaskId : ℕ
  pendingRun : List ℕ
  tasks : List ℕ
  wakers : List ℕ
  deriving DecidableEq, Repr

namespace Executor

/-- `Executor::new`. -/
def new : Executor := ⟨0, [], [], []⟩

/-- `ArrayQueue::push(..).expect(msg)`: the id at the back of the queue, unless it is full. -/
def push (s : Executor) (id : ℕ) (msg : String) : Except String Executor :=
  if s.pendingRun.length < capacity then .ok { s with pendingRun := s.pendingRun ++ [id] }
  else .error msg

/-- `Executor::spawn`. -/
def spawn (s : Executor) : Except String Executor :=
  let id := s.nextTaskId
  if id + 1 < 2 ^ 64 then do
    let s ← push { s with nextTaskId := id + 1 } id "Unable to spawn task"
    pure { s with tasks := s.tasks.insert id, wakers := s.wakers.insert id }
  else .error "attempt to add with overflow"

/-- `Waker::wake_by_ref` on the waker of `taskToWake` (and `wake`, which calls it). -/
def wakeByRef (s : Executor) (taskToWake : ℕ) : Except String Executor :=
  push s taskToWake "Unable to wake task"

/-- One pass of the inner loop of `Executor::run`: pop an id, look its task and waker up,
and poll the future, which wakes the wakers of `wakes` as it runs and answers whether it is
ready. With the queue empty, `run` goes round its outer `loop`. -/
def runStep (s : Executor) (wakes : List ℕ) (ready : Bool) : Except String Executor :=
  match s.pendingRun with
  | [] => .ok s
  | id :: rest =>
    if id ∉ s.tasks then .error "Task does not exist"
    else if id ∉ s.wakers then .error "called `Option::unwrap()` on a `None` value"
    else do
      let s ← wakes.foldlM wakeByRef { s with pendingRun := rest }
      if ready then pure { s with tasks := s.tasks.erase id, wakers := s.wakers.erase id }
      else pure s

end Executor

/-- What can happen to the executor: a spawn, the wake of a waker from outside a poll, or one
pass of `run`. -/
inductive Event where
  | spawn
  | wake (taskToWake : ℕ)
  | poll (wakes : List ℕ) (ready : Bool)
  deriving DecidableEq, Repr

/-- One event. -/
def step (s : Executor) : Event → Except String Executor
  | .spawn => s.spawn
  | .wake taskToWake => s.wakeByRef taskToWake
  | .poll wakes ready => s.runStep wakes ready

/-- An event whose wakes name spawned tasks only: a waker exists from its task's spawn on. -/
def Event.Valid (s : Executor) : Event → Prop
  | .spawn => True
  | .wake taskToWake => taskToWake < s.nextTaskId
  | .poll wakes _ => ∀ id ∈ wakes, id < s.nextTaskId

/-! ### What a run keeps, and where it panics -/

namespace Executor

/-- Every id queued or held was handed out by `spawn`, and the two maps hold the same ids. -/
structure Inv (s : Executor) : Prop where
  queued_lt : ∀ id ∈ s.pendingRun, id < s.nextTaskId
  tasks_lt : ∀ id ∈ s.tasks, id < s.nextTaskId
  wakers_eq : s.wakers = s.tasks

theorem inv_new : Inv new := ⟨by simp [new], by simp [new], rfl⟩

theorem push_eq_ok {s t : Executor} {id : ℕ} {msg : String} (h : s.push id msg = .ok t) :
    t = { s with pendingRun := s.pendingRun ++ [id] } := by
  unfold push at h
  split_ifs at h
  exact (Except.ok.inj h).symm

/-- Pushing the id of a spawned task keeps the invariant. -/
theorem Inv.push {s t : Executor} {id : ℕ} {msg : String} (hs : Inv s) (hid : id < s.nextTaskId)
    (h : s.push id msg = .ok t) : Inv t := by
  obtain rfl := push_eq_ok h
  refine ⟨fun i hi => ?_, hs.tasks_lt, hs.wakers_eq⟩
  rcases List.mem_append.mp hi with hi | hi
  · exact hs.queued_lt i hi
  · rw [List.mem_singleton.mp hi]
    exact hid

/-- The wakes of a poll queue their ids, in order, and change nothing else. -/
theorem foldlM_wakeByRef_eq_ok :
    ∀ {wakes : List ℕ} {s t : Executor}, wakes.foldlM wakeByRef s = .ok t →
      t = { s with pendingRun := s.pendingRun ++ wakes }
  | [], s, t, h => by
    simp only [List.foldlM_nil, pure, Except.pure, Except.ok.injEq] at h
    simp [h]
  | id :: wakes, s, t, h => by
    rw [List.foldlM_cons] at h
    obtain ⟨s', hwake, hrest⟩ := Transition.except_bind_eq_ok h
    obtain rfl := push_eq_ok hwake
    rw [foldlM_wakeByRef_eq_ok hrest]
    simp

/-- A wake panics only on a full queue. -/
theorem foldlM_wakeByRef_eq_error :
    ∀ {wakes : List ℕ} {s : Executor} {msg : String}, wakes.foldlM wakeByRef s = .error msg →
      msg = "Unable to wake task"
  | [], s, msg, h => by cases h
  | id :: wakes, s, msg, h => by
    rw [List.foldlM_cons] at h
    cases hwake : wakeByRef s id with
    | error e =>
      rw [hwake] at h
      cases h
      unfold wakeByRef push at hwake
      split_ifs at hwake
      cases hwake
      rfl
    | ok s' =>
      rw [hwake] at h
      exact foldlM_wakeByRef_eq_error h

/-- `spawn` answers a fresh id, queued, with its task and waker. -/
theorem spawn_eq_ok {s t : Executor} (h : s.spawn = .ok t) :
    t = ⟨s.nextTaskId + 1, s.pendingRun ++ [s.nextTaskId], s.tasks.insert s.nextTaskId,
      s.wakers.insert s.nextTaskId⟩ := by
  unfold spawn at h
  dsimp only at h
  split_ifs at h
  obtain ⟨s', hpush, hrest⟩ := Transition.except_bind_eq_ok h
  obtain rfl := push_eq_ok hpush
  exact (Except.ok.inj hrest).symm

/-- A pass of `run` that does not panic popped a task it holds, with its waker. -/
theorem runStep_eq_ok {s t : Executor} {wakes : List ℕ} {ready : Bool}
    (h : s.runStep wakes ready = .ok t) :
    s.pendingRun = [] ∧ t = s ∨
      ∃ id rest, s.pendingRun = id :: rest ∧ id ∈ s.tasks ∧ id ∈ s.wakers ∧
        t = if ready then
          ⟨s.nextTaskId, rest ++ wakes, s.tasks.erase id, s.wakers.erase id⟩
        else ⟨s.nextTaskId, rest ++ wakes, s.tasks, s.wakers⟩ := by
  unfold runStep at h
  split at h
  · rename_i hq
    exact .inl ⟨hq, (Except.ok.inj h).symm⟩
  · rename_i id rest hq
    by_cases htask : id ∈ s.tasks
    swap
    · rw [if_pos htask] at h
      cases h
    by_cases hwaker : id ∈ s.wakers
    swap
    · rw [if_neg (not_not.mpr htask), if_pos hwaker] at h
      cases h
    rw [if_neg (not_not.mpr htask), if_neg (not_not.mpr hwaker)] at h
    obtain ⟨s', hwakes, hready⟩ := Transition.except_bind_eq_ok h
    obtain rfl := foldlM_wakeByRef_eq_ok hwakes
    refine .inr ⟨id, rest, hq, htask, hwaker, ?_⟩
    cases ready <;> exact (Except.ok.inj hready).symm

/-- A valid event keeps the invariant. -/
theorem Inv.step {s t : Executor} {e : Event} (hs : Inv s) (hvalid : e.Valid s)
    (h : step s e = .ok t) : Inv t := by
  cases e with
  | spawn =>
    obtain rfl := spawn_eq_ok h
    refine ⟨fun id hid => ?_, fun id hid => ?_, by rw [hs.wakers_eq]⟩
    · rcases List.mem_append.mp hid with hid | hid
      · exact Nat.lt_succ_of_lt (hs.queued_lt id hid)
      · rw [List.mem_singleton.mp hid]
        exact Nat.lt_succ_self _
    · rcases List.mem_insert_iff.mp hid with rfl | hid
      · exact Nat.lt_succ_self _
      · exact Nat.lt_succ_of_lt (hs.tasks_lt id hid)
  | wake taskToWake => exact hs.push hvalid h
  | poll wakes ready =>
    rcases runStep_eq_ok h with ⟨-, rfl⟩ | ⟨id, rest, hq, -, -, rfl⟩
    · exact hs
    -- the popped id leaves the queue; the wakes were all spawned
    have hqueued : ∀ i ∈ rest ++ wakes, i < s.nextTaskId := by
      intro i hi
      rcases List.mem_append.mp hi with hi | hi
      · exact hs.queued_lt i (by simp [hq, hi])
      · exact hvalid i hi
    cases ready
    · exact ⟨hqueued, hs.tasks_lt, hs.wakers_eq⟩
    · exact ⟨hqueued, fun i hi => hs.tasks_lt i (List.mem_of_mem_erase hi),
        congrArg (List.erase · id) hs.wakers_eq⟩

/-- From a state of the invariant, `run` never reaches its `unwrap()` of the waker, and it
reaches its `expect("Task does not exist")` only on an id it handed out whose task has
since finished: an id woken twice, or woken after its task was ready. -/
theorem Inv.runStep_panics {s : Executor} {wakes : List ℕ} {ready : Bool} {msg : String}
    (hs : Inv s) (h : s.runStep wakes ready = .error msg) :
    msg ≠ "called `Option::unwrap()` on a `None` value" ∧
      (msg = "Task does not exist" →
        ∃ id rest, s.pendingRun = id :: rest ∧ id < s.nextTaskId ∧ id ∉ s.tasks) := by
  unfold runStep at h
  split at h
  · cases h
  · rename_i id rest hq
    by_cases htask : id ∈ s.tasks
    · have hwaker : id ∈ s.wakers := hs.wakers_eq ▸ htask
      rw [if_neg (not_not.mpr htask), if_neg (not_not.mpr hwaker)] at h
      -- past the lookups only a wake of a full queue panics
      cases hwakes : wakes.foldlM wakeByRef { s with pendingRun := rest } with
      | error e =>
        rw [hwakes] at h
        cases h
        rw [foldlM_wakeByRef_eq_error hwakes]
        exact ⟨by decide, fun heq => absurd heq (by decide)⟩
      | ok s' =>
        rw [hwakes] at h
        cases ready <;> cases h
    · rw [if_pos htask] at h
      cases h
      exact ⟨by decide, fun _ => ⟨id, rest, hq, hs.queued_lt id (by simp [hq]), htask⟩⟩

/-- The runs of the executor from `s` to `t` whose events are each valid where they happen. -/
inductive Run : Executor → List Event → Executor → Prop
  | nil (s : Executor) : Run s [] s
  | cons {s s' t : Executor} {e : Event} {es : List Event} :
      e.Valid s → step s e = .ok s' → Run s' es t → Run s (e :: es) t

/-- Every state a valid run reaches from a state of the invariant keeps it. -/
theorem Inv.run {s t : Executor} {es : List Event} (hs : Inv s) (hrun : Run s es t) : Inv t := by
  induction hrun with
  | nil => exact hs
  | cons hvalid hstep _ ih => exact ih (hs.step hvalid hstep)

/-- Over any valid run of spawns, wakes and polls, `run` panics at `expect("Task does not
exist")` only on an id it handed out whose task has since finished, and never at the
`unwrap()` of the waker. -/
theorem run_panics_only_on_finished_task {es : List Event} {t : Executor} (hrun : Run new es t)
    {wakes : List ℕ} {ready : Bool} {msg : String} (h : t.runStep wakes ready = .error msg) :
    msg ≠ "called `Option::unwrap()` on a `None` value" ∧
      (msg = "Task does not exist" →
        ∃ id rest, t.pendingRun = id :: rest ∧ id < t.nextTaskId ∧ id ∉ t.tasks) :=
  (inv_new.run hrun).runStep_panics h

end Executor

/-- A task whose future wakes its own waker and is ready on its first poll: the id it queued
outlives it, and the next pass of `run` panics. -/
theorem run_pops_finished_task :
    [Event.spawn, .poll [0] true, .poll [] true].foldlM step Executor.new =
      .error "Task does not exist" := by
  decide

end Popcorn.Task
