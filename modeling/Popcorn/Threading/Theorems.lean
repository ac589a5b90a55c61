import Mathlib
import Popcorn.Lib.Run
import Popcorn.Lib.RoundRobin
import Popcorn.Threading.Scheduler

/-!
# The scheduler is round robin

The scheduler keeps its tasks in a cycle: the running task, then the run queue. `Inv w n`
says what holds once `n` tasks have been added: the ids handed out are `0` (the boot
thread) to `n`, the tasks are exactly the members of the cycle, the cycle has no id twice,
and the running task is the one task in state `Running`. `add_task` and `schedule` keep it, and
on it the scheduler refines the abstract `RoundRobin` order: `schedule` is its `next`
(`schedule_refines`), `add_task` its `add` of a fresh id (`addTask_refines`). So no `expect`
of `schedule` ever fires, and the queue turns round robin (`scheduler_round_robin`): every
task gets the processor within as many `schedule` calls as there are tasks
(`scheduler_runs_every_task`).

`get_many_mut` compares the pointers the keys find, not the keys: it answers `DuplicateKey`
when a key repeats, and also when the map holds neither of two distinct keys, which both find
`None` (`getManyMut_eq_error_iff`); otherwise it answers each key's pointer
(`getManyMut_eq_ok`). `schedule` asks for two keys the invariant keeps in the map.

All of this rests on the ids being fresh, and `Tid::new` counts in a `usize` that wraps: the
`2^64`-th `add_task` gets `Tid(0)`, the boot thread's id, and queues the running task
(`tid_wraps_onto_init_task`). The invariant holds up to `2^64 - 1` added tasks.
-/

namespace Popcorn.Threading

/-! ## The map, `get_many_mut` and the two operations -/

section SetState

variable {tasks : Tid → Option ThreadControlBlock} {p k : Tid} {state : ThreadState}

@[simp] theorem setState_isSome : (setState tasks p state k).isSome = (tasks k).isSome := by
  by_cases hk : k = p
  · subst hk
    simp [setState]
  · simp [setState, Function.update_of_ne hk]

theorem setState_self :
    setState tasks p state p = (tasks p).map fun tcb => { tcb with state } := by
  simp [setState]

theorem setState_of_ne (hk : k ≠ p) : setState tasks p state k = tasks k := by
  simp [setState, Function.update_of_ne hk]

/-- The switch of `schedule` from `cur` to `t`: if `cur` was the task `Running`, now `t` is. -/
theorem running_iff_switch {cur t : Tid}
    (hrun : ∀ k tcb, tasks k = some tcb → (tcb.state = .running ↔ k = cur)) (k : Tid)
    (tcb : ThreadControlBlock) (hk : setState (setState tasks cur .ready) t .running k = some tcb) :
    tcb.state = .running ↔ k = t := by
  by_cases hkt : k = t
  · subst hkt
    rw [setState_self, Option.map_eq_some_iff] at hk
    obtain ⟨_, -, rfl⟩ := hk
    simp
  · rw [setState_of_ne hkt] at hk
    by_cases hkc : k = cur
    · -- the task switched from is ready
      subst hkc
      rw [setState_self, Option.map_eq_some_iff] at hk
      obtain ⟨_, -, rfl⟩ := hk
      simp [hkt]
    · -- the others keep their state, and none of them ran
      rw [setState_of_ne hkc] at hk
      have hstate := hrun k tcb hk
      simp only [hkc, iff_false] at hstate
      simp [hstate, hkt]

end SetState

/-- `get_many_mut` on two distinct keys the map holds gives both entries. -/
theorem getManyMut_pair {K V : Type*} [DecidableEq K] {get : K → Option V} {k₁ k₂ : K}
    (hne : k₁ ≠ k₂) (h₁ : (get k₁).isSome) (h₂ : (get k₂).isSome) :
    getManyMut get [k₁, k₂] [] = .ok [some k₁, some k₂] := by
  obtain ⟨v₁, hv₁⟩ := Option.isSome_iff_exists.mp h₁
  obtain ⟨v₂, hv₂⟩ := Option.isSome_iff_exists.mp h₂
  simp [getManyMut, hv₁, hv₂, hne]

section GetManyMut

variable {K V : Type*} [DecidableEq K] {get : K → Option V}

/-- Two keys find the same pointer when they are the same key, or when the map holds neither:
both find `None`. -/
theorem getPtr_eq_getPtr_iff {k₁ k₂ : K} :
    getPtr get k₁ = getPtr get k₂ ↔ k₁ = k₂ ∨ (get k₁ = none ∧ get k₂ = none) := by
  by_cases hk : k₁ = k₂
  · subst hk
    simp
  · cases h₁ : get k₁ <;> cases h₂ : get k₂ <;> simp [getPtr, h₁, h₂, hk]

/-- One turn of the loop: `DuplicateKey` if the key's pointer was found before, else the
pointer appended. -/
theorem getManyMut_cons (key : K) (keys : List K) (ptrs : List (Option K)) :
    getManyMut get (key :: keys) ptrs =
      if getPtr get key ∈ ptrs then .error .duplicateKey
      else getManyMut get keys (ptrs ++ [getPtr get key]) := by
  have hany : (ptrs.any fun p => p == getPtr get key) = true ↔ getPtr get key ∈ ptrs := by
    simp
  by_cases hmem : getPtr get key ∈ ptrs
  · rw [if_pos hmem]
    exact if_pos (hany.mpr hmem)
  · rw [if_neg hmem]
    exact if_neg (mt hany.mp hmem)

/-- `get_many_mut` from the pointers `ptrs` found so far, which are distinct: the pointers of
all the keys, unless two of them are equal. -/
theorem getManyMut_eq (keys : List K) {ptrs : List (Option K)} (hptrs : ptrs.Nodup) :
    getManyMut get keys ptrs =
      if (ptrs ++ keys.map (getPtr get)).Nodup then .ok (ptrs ++ keys.map (getPtr get))
      else .error .duplicateKey := by
  induction keys generalizing ptrs with
  | nil => simp [getManyMut, hptrs]
  | cons key keys ih =>
    rw [getManyMut_cons]
    by_cases hmem : getPtr get key ∈ ptrs
    · -- the key's pointer was found before, and occurs twice in the pointers
      have hdup : ¬ (ptrs ++ (key :: keys).map (getPtr get)).Nodup := by
        rw [List.nodup_append]
        intro h
        exact h.2.2 _ hmem _ (List.mem_cons_self ..) rfl
      rw [if_pos hmem, if_neg hdup]
    · -- the search goes on with the key's pointer appended
      have hptrs' : (ptrs ++ [getPtr get key]).Nodup := by
        rw [List.nodup_append]
        refine ⟨hptrs, List.nodup_singleton _, ?_⟩
        intro a ha b hb hab
        rw [List.mem_singleton] at hb
        exact hmem (hb ▸ hab ▸ ha)
      rw [if_neg hmem, ih hptrs', List.append_assoc, List.map_cons, List.singleton_append]

/-- `get_many_mut` answers `DuplicateKey` when a key repeats, and also when the map holds
neither of two distinct keys. -/
theorem getManyMut_eq_error_iff {keys : List K} :
    getManyMut get keys [] = .error .duplicateKey ↔
      ¬ keys.Nodup ∨ ∃ k₁ ∈ keys, ∃ k₂ ∈ keys, k₁ ≠ k₂ ∧ get k₁ = none ∧ get k₂ = none := by
  rw [getManyMut_eq keys List.nodup_nil, List.nil_append]
  split_ifs with hnodup
  · -- the pointers are distinct: so are the keys, and the map holds all of them but one
    have hkeys : keys.Nodup := List.Nodup.of_map _ hnodup
    have hinj := (List.nodup_map_iff_inj_on hkeys).mp hnodup
    simp only [false_iff, not_or, not_not, not_exists, not_and]
    refine ⟨hkeys, fun k₁ h₁ k₂ h₂ hne hget₁ hget₂ => hne ?_⟩
    exact hinj k₁ h₁ k₂ h₂ (getPtr_eq_getPtr_iff.mpr (.inr ⟨hget₁, hget₂⟩))
  · simp only [true_iff]
    by_cases hkeys : keys.Nodup
    · -- two distinct keys find the same pointer, so the map holds neither
      rw [List.nodup_map_iff_inj_on hkeys] at hnodup
      push Not at hnodup
      obtain ⟨k₁, h₁, k₂, h₂, hptr, hne⟩ := hnodup
      exact .inr ⟨k₁, h₁, k₂, h₂, hne, (getPtr_eq_getPtr_iff.mp hptr).resolve_left hne⟩
    · exact .inl hkeys

/-- Otherwise it answers, for each key, a pointer to its entry, or `None` when the map does
not hold it. -/
theorem getManyMut_eq_ok {keys : List K} (hkeys : keys.Nodup)
    (habsent : ∀ k₁ ∈ keys, ∀ k₂ ∈ keys, get k₁ = none → get k₂ = none → k₁ = k₂) :
    getManyMut get keys [] = .ok (keys.map (getPtr get)) := by
  have hinj : ∀ k₁ ∈ keys, ∀ k₂ ∈ keys, getPtr get k₁ = getPtr get k₂ → k₁ = k₂ := by
    intro k₁ h₁ k₂ h₂ hptr
    rcases getPtr_eq_getPtr_iff.mp hptr with heq | ⟨hget₁, hget₂⟩
    · exact heq
    · exact habsent k₁ h₁ k₂ h₂ hget₁ hget₂
  rw [getManyMut_eq keys List.nodup_nil, List.nil_append,
    if_pos ((List.nodup_map_iff_inj_on hkeys).mpr hinj)]

/-- Two distinct keys that the map does not hold make `get_many_mut` answer `DuplicateKey`,
also when no key repeats. -/
theorem getManyMut_rejects_absent_keys {keys : List K} {k₁ k₂ : K} (h₁ : k₁ ∈ keys)
    (h₂ : k₂ ∈ keys) (hne : k₁ ≠ k₂) (hget₁ : get k₁ = none) (hget₂ : get k₂ = none) :
    getManyMut get keys [] = .error .duplicateKey :=
  getManyMut_eq_error_iff.mpr (.inr ⟨k₁, h₁, k₂, h₂, hne, hget₁, hget₂⟩)

/-- The map of the test `btree_dup_key`, and two keys, distinct, that it does not hold. -/
theorem getManyMut_rejects_absent_keys_four_five :
    ([4, 5] : List ℕ).Nodup ∧ (4 ∈ [4, 5] ∧ 5 ∈ [4, 5] ∧ 4 ≠ 5 ∧
      [(1, true), (2, false), (3, true)].lookup 4 = none ∧
      [(1, true), (2, false), (3, true)].lookup 5 = none) ∧
      getManyMut (fun k => [(1, true), (2, false), (3, true)].lookup k) [4, 5] [] =
        .error .duplicateKey :=
  ⟨by decide, ⟨by decide, by decide, by decide, by decide, by decide⟩,
    getManyMut_rejects_absent_keys (show (4 : ℕ) ∈ [4, 5] by decide)
      (show (5 : ℕ) ∈ [4, 5] by decide) (by decide) (by decide) (by decide)⟩

/-- The test `btree_dup_key`: the same key twice. -/
example : getManyMut (fun k => [(1, true), (2, false), (3, true)].lookup k) [1, 1] [] =
    .error .duplicateKey := by
  decide

end GetManyMut

section Scheduler

variable {s : Scheduler} {t : Tid} {rest : List Tid}

/-- `schedule` with a task queued: it runs next, and the one that ran is queued last. -/
theorem schedule_cons (hq : s.queue = t :: rest) (hne : s.currentTid ≠ t)
    (hcur : (s.tasks s.currentTid).isSome) (ht : (s.tasks t).isSome) :
    s.schedule = some ⟨setState (setState s.tasks s.currentTid .ready) t .running,
      rest ++ [s.currentTid], t⟩ := by
  simp only [Scheduler.schedule, hq, getManyMut_pair hne hcur ht]

/-- `schedule` with an empty queue: the running task goes on. -/
theorem schedule_nil {tcb : ThreadControlBlock} (hq : s.queue = [])
    (hcur : s.tasks s.currentTid = some tcb) (hrun : tcb.state = .running) :
    s.schedule = some s := by
  simp [Scheduler.schedule, hq, hcur, hrun]

end Scheduler

theorem step_addTask (w : System) (tcb : ThreadControlBlock) :
    step w (.addTask tcb) = some (some ⟨w.tids⟩,
      ⟨⟨Function.update w.scheduler.tasks ⟨w.tids⟩ (some tcb), w.scheduler.queue ++ [⟨w.tids⟩],
        w.scheduler.currentTid⟩, (w.tids + 1) % 2 ^ 64⟩) := rfl

/-! ## The invariant -/

/-- The running task, then the run queue. -/
def Scheduler.ring (s : Scheduler) : List Tid := s.currentTid :: s.queue

/-- What holds after `threading::init` and `n` calls of `add_task`: `TIDS` is at `n + 1`, the
tasks are the ids `0` to `n` and the members of the cycle, which has no id twice, and the
running task is the one that is `Running`. -/
structure Inv (w : System) (n : Nat) : Prop where
  tids_eq : w.tids = (n + 1) % 2 ^ 64
  added_lt : n < 2 ^ 64
  isSome_iff_le : ∀ k, (w.scheduler.tasks k).isSome ↔ k.val ≤ n
  nodup : w.scheduler.ring.Nodup
  isSome_iff_mem : ∀ k, (w.scheduler.tasks k).isSome ↔ k ∈ w.scheduler.ring
  running_iff : ∀ k tcb, w.scheduler.tasks k = some tcb →
    (tcb.state = .running ↔ k = w.scheduler.currentTid)

/-- The abstract order of an invariant state. -/
def Inv.toRoundRobin {w : System} {n : Nat} (h : Inv w n) : RoundRobin Tid :=
  ⟨w.scheduler.ring, h.nodup, List.cons_ne_nil _ _⟩

theorem boot_eq : boot = some ⟨⟨Function.update (fun _ => none) ⟨0⟩ (some ⟨.running⟩), [], ⟨0⟩⟩, 1⟩ :=
  rfl

theorem tid_le_zero_iff {k : Tid} : k.val ≤ 0 ↔ k = ⟨0⟩ := by
  rcases k with ⟨v⟩
  simp

theorem inv_boot {w : System} (h : boot = some w) : Inv w 0 := by
  rw [boot_eq, Option.some.injEq] at h
  subst h
  refine ⟨rfl, by norm_num, fun k => ?_, by simp [Scheduler.ring], fun k => ?_, fun k tcb hk => ?_⟩
  · rw [tid_le_zero_iff]
    by_cases hk : k = ⟨0⟩ <;> simp [hk]
  · by_cases hk : k = ⟨0⟩ <;> simp [Scheduler.ring, hk]
  · by_cases h0 : k = ⟨0⟩
    · subst h0
      simp only [Function.update_self, Option.some.injEq] at hk
      simp [← hk]
    · simp [h0] at hk

section Inv

variable {w : System} {n : Nat} (h : Inv w n)
include h

/-- The next id is fresh. -/
theorem Inv.fresh : (⟨n + 1⟩ : Tid) ∉ w.scheduler.ring := by
  rw [← h.isSome_iff_mem, h.isSome_iff_le]
  show ¬n + 1 ≤ n
  omega

theorem Inv.current_isSome : (w.scheduler.tasks w.scheduler.currentTid).isSome :=
  (h.isSome_iff_mem _).mpr List.mem_cons_self

theorem Inv.current_not_mem_queue : w.scheduler.currentTid ∉ w.scheduler.queue :=
  (List.nodup_cons.mp h.nodup).1

/-- `add_task` of a `Ready` task, while ids are left: it gets id `n + 1`. -/
theorem Inv.addTask {tcb : ThreadControlBlock} (hn : n + 1 < 2 ^ 64) (hready : tcb.state = .ready) :
    Inv ⟨⟨Function.update w.scheduler.tasks ⟨n + 1⟩ (some tcb), w.scheduler.queue ++ [⟨n + 1⟩],
      w.scheduler.currentTid⟩, (n + 1 + 1) % 2 ^ 64⟩ (n + 1) := by
  have hfresh := h.fresh
  refine ⟨rfl, hn, fun k => ?_, ?_, fun k => ?_, fun k tcb' hk => ?_⟩
  · by_cases hk : k = ⟨n + 1⟩
    · subst hk
      simp
    · have hval : k.val ≠ n + 1 := fun hv => hk (by rcases k; simp_all)
      simp only [Function.update_of_ne hk, h.isSome_iff_le]
      omega
  · -- the cycle gains the fresh id at its back
    show (w.scheduler.currentTid :: (w.scheduler.queue ++ [⟨n + 1⟩])).Nodup
    rw [← List.cons_append]
    exact (h.toRoundRobin.add _ hfresh).nodup
  · by_cases hk : k = ⟨n + 1⟩
    · subst hk
      simp [Scheduler.ring]
    · simp [h.isSome_iff_mem, Scheduler.ring, hk]
  · dsimp only at hk ⊢
    by_cases hkn : k = ⟨n + 1⟩
    · subst hkn
      simp only [Function.update_self, Option.some.injEq] at hk
      subst hk
      have hne : (⟨n + 1⟩ : Tid) ≠ w.scheduler.currentTid := fun he =>
        hfresh (he ▸ List.mem_cons_self)
      simp [hready, hne]
    · rw [Function.update_of_ne hkn] at hk
      exact h.running_iff k tcb' hk

/-- `schedule` never panics, keeps the invariant and turns the cycle by one. -/
theorem Inv.schedule : ∃ s', w.scheduler.schedule = some s' ∧ Inv ⟨s', w.tids⟩ n ∧
    s'.ring = w.scheduler.ring.rotate 1 := by
  cases hq : w.scheduler.queue with
  | nil =>
    -- the running task goes on
    obtain ⟨tcb, htcb⟩ := Option.isSome_iff_exists.mp h.current_isSome
    have hrun := (h.running_iff _ tcb htcb).mpr rfl
    refine ⟨w.scheduler, schedule_nil hq htcb hrun, h, ?_⟩
    simp [Scheduler.ring, hq]
  | cons t rest =>
    have hnodup := h.nodup
    rw [Scheduler.ring, hq] at hnodup
    have hne : w.scheduler.currentTid ≠ t := fun he =>
      (List.nodup_cons.mp hnodup).1 (he ▸ List.mem_cons_self)
    have ht : (w.scheduler.tasks t).isSome := by
      rw [h.isSome_iff_mem, Scheduler.ring, hq]
      simp
    have hring : (⟨setState (setState w.scheduler.tasks w.scheduler.currentTid .ready) t .running,
        rest ++ [w.scheduler.currentTid], t⟩ : Scheduler).ring = w.scheduler.ring.rotate 1 := by
      rw [Scheduler.ring, Scheduler.ring, hq, List.rotate_cons_succ, List.rotate_zero,
        List.cons_append]
    refine ⟨_, schedule_cons hq hne h.current_isSome ht, ⟨h.tids_eq, h.added_lt, fun k => ?_, ?_,
      fun k => ?_, running_iff_switch h.running_iff⟩, hring⟩
    · simp only [setState_isSome]
      exact h.isSome_iff_le k
    · show (Scheduler.ring _).Nodup
      rw [hring]
      exact List.nodup_rotate.mpr h.nodup
    · show _ ↔ k ∈ Scheduler.ring _
      rw [hring, List.mem_rotate, setState_isSome, setState_isSome]
      exact h.isSome_iff_mem k

end Inv

/-! ## The scheduler refines round robin -/

section Refines

variable {w : System} {n : Nat}

theorem schedule_refines (h : Inv w n) :
    ∃ w', ∃ h' : Inv w' n, step w .schedule = some (none, w') ∧
      h'.toRoundRobin = h.toRoundRobin.next := by
  obtain ⟨s', hs, h', hring⟩ := h.schedule
  refine ⟨⟨s', w.tids⟩, h', ?_, RoundRobin.ext hring⟩
  simp [step, hs]

theorem addTask_refines (h : Inv w n) {tcb : ThreadControlBlock} (hn : n + 1 < 2 ^ 64)
    (hready : tcb.state = .ready) :
    ∃ w', ∃ h' : Inv w' (n + 1), step w (.addTask tcb) = some (some ⟨n + 1⟩, w') ∧
      h'.toRoundRobin = h.toRoundRobin.add _ h.fresh := by
  have htids : w.tids = n + 1 := by
    rw [h.tids_eq]
    omega
  refine ⟨_, h.addTask hn hready, ?_, RoundRobin.ext ?_⟩
  · rw [step_addTask, htids]
  · show w.scheduler.currentTid :: (w.scheduler.queue ++ [⟨n + 1⟩]) = w.scheduler.ring ++ [⟨n + 1⟩]
    rfl

/-- Fairness: from an invariant state, `i` calls of `schedule` run the task `i` places on
round the cycle. -/
theorem schedule_iterate_running (h : Inv w n) (i : Nat) :
    ∃ rs w', ∃ h' : Inv w' n, Transition.exec step w (List.replicate i .schedule) = some (rs, w') ∧
      h'.toRoundRobin = RoundRobin.next^[i] h.toRoundRobin := by
  induction i generalizing w with
  | zero => exact ⟨[], w, h, rfl, rfl⟩
  | succ i ih =>
    obtain ⟨w₁, h₁, hstep, hnext⟩ := schedule_refines h
    obtain ⟨rs, w', h', hrun, hrr⟩ := ih h₁
    refine ⟨none :: rs, w', h', ?_, ?_⟩
    · simp [List.replicate_succ, Transition.exec, hstep, hrun]
    · rw [hrr, hnext, Function.iterate_succ_apply]

end Refines

/-! ## Runs from `threading::init` -/

/-- What the scheduler promises in a state: the run queue holds every task but the running
one, once each; the running task is the one `Running` and the queued ones are `Ready`; and
`schedule` never panics and hands the processor on round robin. -/
structure SchedulerContract (s : Scheduler) : Prop where
  queue_nodup : s.queue.Nodup
  current_not_mem_queue : s.currentTid ∉ s.queue
  mem_queue_iff : ∀ k, k ∈ s.queue ↔ (s.tasks k).isSome ∧ k ≠ s.currentTid
  current_isSome : (s.tasks s.currentTid).isSome
  running_iff : ∀ k tcb, s.tasks k = some tcb → (tcb.state = .running ↔ k = s.currentTid)
  queued_ready : ∀ k ∈ s.queue, ∃ tcb, s.tasks k = some tcb ∧ tcb.state = .ready
  schedule_ne_none : s.schedule ≠ none
  schedule_round_robin : ∀ t rest, s.queue = t :: rest →
    ∃ s', s.schedule = some s' ∧ s'.currentTid = t ∧ s'.queue = rest ++ [s.currentTid]

theorem Inv.contract {w : System} {n : Nat} (h : Inv w n) : SchedulerContract w.scheduler := by
  obtain ⟨s', hs, h', hring⟩ := h.schedule
  have hmem : ∀ k, k ∈ w.scheduler.queue ↔ (w.scheduler.tasks k).isSome ∧ k ≠ w.scheduler.currentTid := by
    intro k
    rw [h.isSome_iff_mem, Scheduler.ring, List.mem_cons]
    constructor
    · intro hk
      exact ⟨.inr hk, fun he => h.current_not_mem_queue (he ▸ hk)⟩
    · rintro ⟨hk | hk, hne⟩
      · exact absurd hk hne
      · exact hk
  refine ⟨(List.nodup_cons.mp h.nodup).2, h.current_not_mem_queue, hmem, h.current_isSome,
    h.running_iff, fun k hk => ?_, by simp [hs], fun t rest hq => ⟨s', hs, ?_⟩⟩
  · -- a queued task is not the running one, so it is ready
    obtain ⟨hsome, hne⟩ := (hmem k).mp hk
    obtain ⟨tcb, htcb⟩ := Option.isSome_iff_exists.mp hsome
    refine ⟨tcb, htcb, ?_⟩
    have hstate := h.running_iff k tcb htcb
    cases hst : tcb.state with
    | ready => rfl
    | running => exact absurd (hstate.mp hst) hne
  · -- on the abstract order `schedule` is `next`, which runs the first waiting task
    have hnext : h'.toRoundRobin = h.toRoundRobin.next := RoundRobin.ext hring
    obtain ⟨hrun, hwait⟩ := RoundRobin.next_of_waiting_eq_cons (r := h.toRoundRobin) hq
    rw [← hnext] at hrun hwait
    exact ⟨hrun, hwait⟩

/-- A budget of `k` more `add_task` calls: the invariant with ids left for them. -/
def Budget (k : Nat) (w : System) : Prop := ∃ n, Inv w n ∧ n + k < 2 ^ 64

/-- One call keeps the budget, less one for an `add_task`. -/
theorem budget_step (c : Call) (w : System) (k : Nat)
    (hready : ∀ tcb, c = .addTask tcb → tcb.state = .ready)
    (hw : Budget (k + if c.isAddTask then 1 else 0) w) :
    ∃ r w', step w c = some (r, w') ∧ Budget k w' := by
  obtain ⟨n, h, hn⟩ := hw
  cases c with
  | addTask tcb =>
    simp only [Call.isAddTask, if_true] at hn
    obtain ⟨w', h', hstep, -⟩ := addTask_refines h (by omega) (hready tcb rfl)
    exact ⟨_, w', hstep, n + 1, h', by omega⟩
  | schedule =>
    simp only [Call.isAddTask, Bool.false_eq_true, if_false, Nat.add_zero] at hn
    obtain ⟨w', h', hstep, -⟩ := schedule_refines h
    exact ⟨_, w', hstep, n, h', hn⟩

/-- Every run of calls from `threading::init`, with ready tasks and an id left for each
`add_task`, goes through without a panic and ends in an invariant state. -/
theorem exec_boot_inv (calls : List Call)
    (hready : ∀ tcb, Call.addTask tcb ∈ calls → tcb.state = .ready)
    (hbound : calls.countP Call.isAddTask < 2 ^ 64) :
    ∃ w₀ rs w n, boot = some w₀ ∧ Transition.exec step w₀ calls = some (rs, w) ∧ Inv w n := by
  have h₀ := inv_boot boot_eq
  have hbudget : Budget (0 + calls.countP Call.isAddTask) _ := ⟨0, h₀, by omega⟩
  have hgood : ∀ c ∈ calls, ∀ tcb, c = .addTask tcb → tcb.state = .ready :=
    fun c hc tcb hct => hready tcb (hct ▸ hc)
  obtain ⟨rs, w, hrun, n, h, -⟩ := Transition.exec_total Call.isAddTask budget_step hgood hbudget
  exact ⟨_, rs, w, n, boot_eq, hrun, h⟩

theorem scheduler_round_robin (calls : List Call)
    (hready : ∀ tcb, Call.addTask tcb ∈ calls → tcb.state = .ready)
    (hbound : calls.countP Call.isAddTask < 2 ^ 64) :
    ∃ w₀ rs w, boot = some w₀ ∧ Transition.exec step w₀ calls = some (rs, w) ∧
      SchedulerContract w.scheduler := by
  obtain ⟨w₀, rs, w, n, hboot, hrun, h⟩ := exec_boot_inv calls hready hbound
  exact ⟨w₀, rs, w, hboot, hrun, h.contract⟩

/-- A task added, then `thread_yield`: the new task runs and the boot thread waits. -/
theorem scheduler_round_robin_add_then_yield :
    ∃ w₀ rs w, boot = some w₀ ∧
      Transition.exec step w₀ [.addTask ThreadControlBlock.new, .schedule] = some (rs, w) ∧
      SchedulerContract w.scheduler :=
  scheduler_round_robin _ (by simp [ThreadControlBlock.new]) (by decide)

/-- Fairness: in every state that calls from `threading::init` reach, each task gets the
processor within as many `schedule` calls as there are tasks. The `i`-th further call runs the
task `i` places on round the cycle of the running task and the run queue. -/
theorem scheduler_runs_every_task (calls : List Call)
    (hready : ∀ tcb, Call.addTask tcb ∈ calls → tcb.state = .ready)
    (hbound : calls.countP Call.isAddTask < 2 ^ 64) :
    ∃ w₀ rs w, boot = some w₀ ∧ Transition.exec step w₀ calls = some (rs, w) ∧
      ∀ i, ∃ rs' w', Transition.exec step w (List.replicate i .schedule) = some (rs', w') ∧
        w'.scheduler.currentTid = (w.scheduler.currentTid :: w.scheduler.queue).get
          ⟨i % (w.scheduler.queue.length + 1), Nat.mod_lt _ (Nat.succ_pos _)⟩ := by
  obtain ⟨w₀, rs, w, n, hboot, hrun, h⟩ := exec_boot_inv calls hready hbound
  refine ⟨w₀, rs, w, hboot, hrun, fun i => ?_⟩
  obtain ⟨rs', w', h', hrun', hrr⟩ := schedule_iterate_running h i
  refine ⟨rs', w', hrun', ?_⟩
  -- the task that runs in the abstract order is the scheduler's current one
  have hcur : w'.scheduler.currentTid = h'.toRoundRobin.running := rfl
  rw [hcur, hrr, RoundRobin.running_iterate_next]
  rfl

/-- Two tasks added after boot: from there each `schedule` runs the next task round the cycle. -/
theorem scheduler_runs_every_task_after_two_adds :
    ∃ w₀ rs w, boot = some w₀ ∧
      Transition.exec step w₀ [.addTask ThreadControlBlock.new, .addTask ThreadControlBlock.new] =
        some (rs, w) ∧
      ∀ i, ∃ rs' w', Transition.exec step w (List.replicate i .schedule) = some (rs', w') ∧
        w'.scheduler.currentTid = (w.scheduler.currentTid :: w.scheduler.queue).get
          ⟨i % (w.scheduler.queue.length + 1), Nat.mod_lt _ (Nat.succ_pos _)⟩ :=
  scheduler_runs_every_task _ (by simp [ThreadControlBlock.new]) (by decide)

/-! ## The id counter wraps -/

/-- `m` calls of `add_task` queue the ids `TIDS` hands out, `TIDS + j` modulo `2^64`. -/
theorem exec_addTasks (tcb : ThreadControlBlock) (m : Nat) :
    ∀ w : System, w.tids < 2 ^ 64 → ∃ rs w',
      Transition.exec step w (List.replicate m (.addTask tcb)) = some (rs, w') ∧
      w'.scheduler.currentTid = w.scheduler.currentTid ∧
      w'.scheduler.queue =
        w.scheduler.queue ++ (List.range m).map fun j => ⟨(w.tids + j) % 2 ^ 64⟩ := by
  induction m with
  | zero =>
    intro w _
    exact ⟨[], w, rfl, rfl, by simp⟩
  | succ m ih =>
    intro w hw
    obtain ⟨rs, w', hrun, hcur, hq⟩ := ih ⟨⟨Function.update w.scheduler.tasks ⟨w.tids⟩ (some tcb),
      w.scheduler.queue ++ [⟨w.tids⟩], w.scheduler.currentTid⟩, (w.tids + 1) % 2 ^ 64⟩
      (Nat.mod_lt _ (by norm_num))
    refine ⟨some ⟨w.tids⟩ :: rs, w', ?_, hcur, ?_⟩
    · rw [List.replicate_succ, Transition.exec_cons_of_step _ (step_addTask w tcb), hrun]
      rfl
    · -- the first id is `TIDS` itself, the rest count on from `TIDS + 1`
      have hids : (List.range (m + 1)).map (fun j => (⟨(w.tids + j) % 2 ^ 64⟩ : Tid)) =
          ⟨w.tids⟩ :: (List.range m).map fun j => ⟨((w.tids + 1) % 2 ^ 64 + j) % 2 ^ 64⟩ := by
        rw [List.range_succ_eq_map, List.map_cons, List.map_map, Nat.add_zero,
          Nat.mod_eq_of_lt hw]
        congr 1
        apply List.map_congr_left
        intro j _
        show (⟨(w.tids + (j + 1)) % 2 ^ 64⟩ : Tid) = ⟨((w.tids + 1) % 2 ^ 64 + j) % 2 ^ 64⟩
        congr 1
        omega
      rw [hq, hids, List.append_assoc, List.singleton_append]

theorem tid_wraps_onto_init_task :
    ∃ w₀ rs w, boot = some w₀ ∧
      Transition.exec step w₀ (List.replicate (2 ^ 64) (.addTask ThreadControlBlock.new)) =
        some (rs, w) ∧
      w.scheduler.currentTid ∈ w.scheduler.queue := by
  obtain ⟨rs, w, hrun, hcur, hq⟩ := exec_addTasks ThreadControlBlock.new (2 ^ 64)
    ⟨⟨Function.update (fun _ => none) ⟨0⟩ (some ⟨.running⟩), [], ⟨0⟩⟩, 1⟩ (by norm_num)
  refine ⟨_, rs, w, boot_eq, hrun, ?_⟩
  -- the last of them, `1 + (2^64 - 1)`, wraps to `0`: the boot thread's id
  rw [hq, hcur]
  apply List.mem_append_right
  exact List.mem_map.mpr ⟨2 ^ 64 - 1, List.mem_range.mpr (by norm_num), rfl⟩

end Popcorn.Threading
