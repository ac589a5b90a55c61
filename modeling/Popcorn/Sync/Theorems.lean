import Popcorn.Sync.Spinlock
import Popcorn.Lib.Run

/-!
# What the spinlocks do to the interrupt flag

Every call does one of four things (`Effect`): it acquires a free lock, saving the flag into
it and clearing the flag; it releases a lock the core holds, handing its saved state to
`set_irq`; another core changes a word this core does not hold; or nothing changes, as in a
failed `try_lock`, which gives the flag back at once.

In any order of release, the flag is enabled, or owed by a held lock that saved it enabled,
exactly when it was enabled before the first acquisition (`Inv`): a lock saves the enabled
flag only when the flag is not already owed, and the release of that lock pays it back. So
once every lock is released the flag is as it was. While a lock is held, though, the flag is
clear only when the releases are nested (`NestedInv`): every held lock but the first acquired
saved a clear flag. Released out of order, the first lock's release sets the flag while the
second is held (`unlock_out_of_order_enables_interrupts`).
-/

namespace Popcorn
namespace Sync

/-! ## The flag -/

@[simp] theorem getAndDisableInterrupts_ne_zero (c : Cpu) :
    (getAndDisableInterrupts c).1 ≠ 0 ↔ c.interruptsEnabled = true := by
  unfold getAndDisableInterrupts
  cases c.interruptsEnabled <;> simp

@[simp] theorem setInterrupts_interruptsEnabled (oldState : ℕ) (c : Cpu) :
    (setInterrupts oldState c).interruptsEnabled = (decide (oldState ≠ 0) || c.interruptsEnabled) := by
  unfold setInterrupts
  split_ifs with h <;> simp [h]

/-- Handing back the state `get_and_disable_interrupts` saved restores the flag. -/
theorem setInterrupts_getAndDisableInterrupts (c : Cpu) :
    setInterrupts (getAndDisableInterrupts c).1 (getAndDisableInterrupts c).2 = c := by
  obtain ⟨enabled⟩ := c
  cases enabled <;> rfl

namespace RawSpinlock

variable {l : RawSpinlock} {c : Cpu}

theorem lock_of_unlocked (h : l.state = .unlocked) :
    l.lock c = some (⟨.locked, (getAndDisableInterrupts c).1⟩, ⟨false⟩) := by
  simp only [lock, h]
  rfl

theorem lock_of_locked (h : l.state = .locked) : l.lock c = none := by
  simp only [lock, h]

theorem tryLock_of_unlocked (h : l.state = .unlocked) :
    l.tryLock c = (true, ⟨.locked, (getAndDisableInterrupts c).1⟩, ⟨false⟩) := by
  simp only [tryLock, h]
  rfl

/-- A failed `try_lock` changes nothing. -/
theorem tryLock_of_locked (h : l.state = .locked) : l.tryLock c = (false, l, c) := by
  simp only [tryLock, h]
  rw [setInterrupts_getAndDisableInterrupts]

theorem unlock_of_unlocked (h : l.state = .unlocked) : l.unlock c = none := by
  simp only [unlock, h]

theorem unlock_of_locked (h : l.state = .locked) :
    l.unlock c = some ({ l with state := .unlocked }, setInterrupts l.irqState c) := by
  simp only [unlock, h]

end RawSpinlock

/-! ## The invariants -/

variable {κ : Type}

/-- Some lock in `held` saved an enabled flag, which its release gives back. -/
def Owed (locks : κ → RawSpinlock) (held : List κ) : Prop :=
  ∃ l ∈ held, (locks l).irqState ≠ 0

theorem owed_cons {locks : κ → RawSpinlock} {l : κ} {held : List κ} :
    Owed locks (l :: held) ↔ (locks l).irqState ≠ 0 ∨ Owed locks held := by
  simp [Owed]

/-- The invariant of every run: the held locks are distinct and their words locked, and the
flag is enabled, or owed, exactly when it was enabled before the first acquisition. -/
structure Inv (enabled : Bool) (s : Machine κ) : Prop where
  nodup : s.held.Nodup
  locked : ∀ l ∈ s.held, (s.locks l).state = .locked
  owed : s.cpu.interruptsEnabled = true ∨ Owed s.locks s.held ↔ enabled = true

theorem Inv.not_mem_of_unlocked {enabled : Bool} {s : Machine κ} (hi : Inv enabled s) {l : κ}
    (hfree : (s.locks l).state = .unlocked) : l ∉ s.held := by
  intro hl
  have hlocked := hi.locked l hl
  rw [hfree] at hlocked
  cases hlocked

theorem inv_initial {s : Machine κ} (h : s.held = []) : Inv s.cpu.interruptsEnabled s where
  nodup := by rw [h]; exact List.nodup_nil
  locked := by simp [h]
  owed := by simp [h, Owed]

/-- With every lock released, nothing is owed: the flag is as it was. -/
theorem Inv.enabled_of_released {enabled : Bool} {s : Machine κ} (hi : Inv enabled s)
    (h : s.held = []) : s.cpu.interruptsEnabled = enabled := by
  have howed := hi.owed
  simp only [h, Owed, List.not_mem_nil, false_and, exists_false, or_false] at howed
  exact Bool.eq_iff_iff.mpr howed

/-- The invariant of a nested run: while a lock is held the flag is clear, and every held
lock but the first acquired saved a clear flag. -/
structure NestedInv (s : Machine κ) : Prop where
  disabled : s.held ≠ [] → s.cpu.interruptsEnabled = false
  inner : ∀ l ∈ s.held.dropLast, (s.locks l).irqState = 0

theorem nestedInv_initial {s : Machine κ} (h : s.held = []) : NestedInv s where
  disabled hne := (hne h).elim
  inner := by simp [h]

/-- The locks held under the first acquired one: all saved a clear flag. -/
theorem NestedInv.inner_cons {s : Machine κ} (hn : NestedInv s) {l : κ} {rest : List κ}
    (hheld : s.held = l :: rest) (hne : rest ≠ []) :
    ∀ m ∈ l :: rest.dropLast, (s.locks m).irqState = 0 := by
  intro m hm
  refine hn.inner m ?_
  rw [hheld, List.dropLast_cons_of_ne_nil hne]
  exact hm

/-! ## What one call does -/

variable [DecidableEq κ]

/-- What one call does to the machine, in a run that releases in any order (`nested = false`)
or only the lock acquired last (`nested = true`). -/
inductive Effect (nested : Bool) (s : Machine κ) : Machine κ → Prop
  /-- `lock` or a successful `try_lock`: the flag saved into the free word, then cleared. -/
  | acquire (l : κ) : (s.locks l).state = .unlocked →
      Effect nested s ⟨⟨false⟩,
        Function.update s.locks l ⟨.locked, (getAndDisableInterrupts s.cpu).1⟩, l :: s.held⟩
  /-- `unlock` of a lock the core holds: the saved state handed to `set_irq`. -/
  | release (l : κ) : l ∈ s.held → (nested = true → s.held.head? = some l) →
      (s.locks l).state = .locked →
      Effect nested s ⟨setInterrupts (s.locks l).irqState s.cpu,
        Function.update s.locks l { s.locks l with state := .unlocked }, s.held.erase l⟩
  /-- Another core takes a free word, or releases a word this core does not hold. -/
  | elsewhere (l : κ) (lk : RawSpinlock) : (s.locks l).state = .unlocked ∨ l ∉ s.held →
      Effect nested s { s with locks := Function.update s.locks l lk }
  /-- A failed `try_lock`. -/
  | unchanged : Effect nested s s

/-- The inversion of `step`: what a call that returns did. -/
theorem step_effect {nested : Bool} {s t : Machine κ} {c : Call κ} (h : step s c = some t)
    (hnested : nested = true → ∀ l, c = .unlock l → s.held.head? = some l) :
    Effect nested s t := by
  cases c with
  | lock l =>
    cases hst : (s.locks l).state with
    | unlocked =>
      simp only [step, RawSpinlock.lock_of_unlocked hst, Option.map_some, Option.some.injEq] at h
      subst h
      exact .acquire l hst
    | locked => simp [step, RawSpinlock.lock_of_locked hst] at h
  | tryLock l =>
    cases hst : (s.locks l).state with
    | unlocked =>
      simp only [step, RawSpinlock.tryLock_of_unlocked hst, if_true, Option.some.injEq] at h
      subst h
      exact .acquire l hst
    | locked =>
      -- the word is written back as it was, and the flag restored
      simp only [step, RawSpinlock.tryLock_of_locked hst, Function.update_eq_self,
        Bool.false_eq_true, if_false, Option.some.injEq] at h
      subst h
      exact .unchanged
  | unlock l =>
    simp only [step] at h
    split_ifs at h with hheld
    cases hst : (s.locks l).state with
    | unlocked => simp [RawSpinlock.unlock_of_unlocked hst] at h
    | locked =>
      simp only [RawSpinlock.unlock_of_locked hst, Option.map_some, Option.some.injEq] at h
      subst h
      exact .release l hheld (fun hn => hnested hn l rfl) hst
  | lockElsewhere l irqState =>
    simp only [step] at h
    split_ifs at h with hfree
    cases h
    exact .elsewhere l _ (.inl hfree)
  | unlockElsewhere l =>
    simp only [step] at h
    split_ifs at h with hrelease
    cases h
    exact .elsewhere l _ (.inr hrelease.2)

/-- The inversion of `stepNested`: a release is of the lock acquired last. -/
theorem stepNested_effect {s t : Machine κ} {c : Call κ} (h : stepNested s c = some t) :
    Effect true s t := by
  cases c
  case unlock l =>
    simp only [stepNested] at h
    split_ifs at h with hhead
    exact step_effect h fun _ l' hc => by cases hc; exact hhead
  -- every other call is a call of `step`, which releases nothing
  all_goals
    simp only [stepNested] at h
    exact step_effect h fun _ l' hc => by cases hc

/-! ## Every call keeps the invariants -/

theorem owed_update_of_not_mem {locks : κ → RawSpinlock} {l : κ} {held : List κ}
    (lk : RawSpinlock) (hl : l ∉ held) :
    Owed (Function.update locks l lk) held ↔ Owed locks held := by
  unfold Owed
  refine exists_congr fun m => and_congr_right fun hm => ?_
  rw [Function.update_of_ne (ne_of_mem_of_not_mem hm hl)]

/-- A held lock's debt, apart from the others'. -/
theorem owed_of_mem {locks : κ → RawSpinlock} {l : κ} {held : List κ} (hl : l ∈ held) :
    Owed locks held ↔ (locks l).irqState ≠ 0 ∨ Owed locks (held.erase l) := by
  rw [← owed_cons]
  exact exists_congr fun m => and_congr_left fun _ => (List.perm_cons_erase hl).mem_iff

/-- The step lemma: every call keeps the invariant, in any order of release. -/
theorem Inv.effect {enabled nested : Bool} {s t : Machine κ} (hi : Inv enabled s)
    (he : Effect nested s t) : Inv enabled t := by
  cases he with
  | acquire l hfree =>
    have hl := hi.not_mem_of_unlocked hfree
    refine ⟨List.nodup_cons.mpr ⟨hl, hi.nodup⟩, fun m hm => ?_, ?_⟩ <;> dsimp only at *
    · rcases List.mem_cons.mp hm with rfl | hm
      · simp
      · rw [Function.update_of_ne (ne_of_mem_of_not_mem hm hl)]
        exact hi.locked m hm
    · -- the flag moves into the new lock's saved state
      simp only [owed_cons, Function.update_self, getAndDisableInterrupts_ne_zero,
        owed_update_of_not_mem _ hl, Bool.false_eq_true, false_or]
      exact hi.owed
  | release l hheld _ hlocked =>
    have hl : l ∉ s.held.erase l := hi.nodup.not_mem_erase
    refine ⟨hi.nodup.erase l, fun m hm => ?_, ?_⟩ <;> dsimp only at *
    · have hm' := (hi.nodup.mem_erase_iff).mp hm
      rw [Function.update_of_ne hm'.1]
      exact hi.locked m hm'.2
    · -- the released lock's debt is paid into the flag
      have howed := hi.owed
      rw [owed_of_mem hheld] at howed
      simp only [setInterrupts_interruptsEnabled, Bool.or_eq_true, decide_eq_true_eq,
        owed_update_of_not_mem _ hl]
      rw [← howed]
      tauto
  | elsewhere l lk hother =>
    have hl : l ∉ s.held := hother.elim hi.not_mem_of_unlocked id
    refine ⟨hi.nodup, fun m hm => ?_, ?_⟩ <;> dsimp only at *
    · rw [Function.update_of_ne (ne_of_mem_of_not_mem hm hl)]
      exact hi.locked m hm
    · rw [owed_update_of_not_mem _ hl]
      exact hi.owed
  | unchanged => exact hi

/-- Releasing a word keeps the state it saved. -/
@[simp] theorem irqState_update_unlocked (locks : κ → RawSpinlock) (l m : κ) :
    (Function.update locks l { locks l with state := .unlocked } m).irqState =
      (locks m).irqState := by
  by_cases hm : m = l
  · subst hm
    simp
  · rw [Function.update_of_ne hm]

/-- The step lemma of nested runs. -/
theorem NestedInv.effect {enabled : Bool} {s t : Machine κ} (hi : Inv enabled s)
    (hn : NestedInv s) (he : Effect true s t) : NestedInv t := by
  cases he with
  | acquire l hfree =>
    have hl := hi.not_mem_of_unlocked hfree
    refine ⟨fun _ => rfl, fun m hm => ?_⟩
    dsimp only at hm ⊢
    by_cases hempty : s.held = []
    · simp [hempty] at hm
    · rw [List.dropLast_cons_of_ne_nil hempty] at hm
      rcases List.mem_cons.mp hm with rfl | hm
      · -- a lock taken while another is held saves the clear flag
        simp [getAndDisableInterrupts, hn.disabled hempty]
      · have hm' := List.mem_of_mem_dropLast hm
        rw [Function.update_of_ne (ne_of_mem_of_not_mem hm' hl)]
        exact hn.inner m hm
  | release l _ hhead _ =>
    -- the lock released heads the held ones
    obtain ⟨rest, hheld⟩ := List.head?_eq_some_iff.mp (hhead rfl)
    simp only [hheld, List.erase_cons_head]
    by_cases hne : rest = []
    · subst hne
      exact nestedInv_initial rfl
    · have hinner := hn.inner_cons hheld hne
      refine ⟨fun _ => ?_, fun m hm => ?_⟩
      · -- an inner lock saved the clear flag, so its release leaves the flag clear
        simp [hinner l List.mem_cons_self, hn.disabled (by simp [hheld])]
      · rw [irqState_update_unlocked]
        exact hinner m (List.mem_cons_of_mem l hm)
  | elsewhere l lk hother =>
    have hl : l ∉ s.held := hother.elim hi.not_mem_of_unlocked id
    refine ⟨hn.disabled, fun m hm => ?_⟩
    dsimp only at hm ⊢
    rw [Function.update_of_ne (ne_of_mem_of_not_mem (List.mem_of_mem_dropLast hm) hl)]
    exact hn.inner m hm
  | unchanged => exact hn

/-! ## Runs -/

/-- For any run of calls from a state in which the core holds no lock: once every lock is
released the flag is as it was before the first acquisition, whatever the order of release;
and when the releases are nested, the flag is clear whenever a lock is held. -/
theorem spinlock_interrupts_restored (s₀ : Machine κ) (h₀ : s₀.held = []) :
    (∀ (cs : List (Call κ)) t, cs.foldlM step s₀ = some t → t.held = [] →
      t.cpu.interruptsEnabled = s₀.cpu.interruptsEnabled) ∧
    ∀ (cs : List (Call κ)) t, cs.foldlM stepNested s₀ = some t → t.held ≠ [] →
      t.cpu.interruptsEnabled = false := by
  constructor
  · intro cs t hrun hreleased
    have hi : Inv s₀.cpu.interruptsEnabled t :=
      Transition.foldlM_induction
        (fun s c t _ hs h => hs.effect (show Effect false s t from step_effect h (by simp)))
        hrun (inv_initial h₀)
    exact hi.enabled_of_released hreleased
  · intro cs t hrun hheld
    have hi : Inv s₀.cpu.interruptsEnabled t ∧ NestedInv t :=
      Transition.foldlM_induction (P := fun s => Inv s₀.cpu.interruptsEnabled s ∧ NestedInv s)
        (fun s c t _ hs h =>
          ⟨hs.1.effect (stepNested_effect h), hs.2.effect hs.1 (stepNested_effect h)⟩)
        hrun ⟨inv_initial h₀, nestedInv_initial h₀⟩
    exact hi.2.disabled hheld

/-- The two halves at the boot state, with interrupts enabled and every lock free. -/
theorem spinlock_interrupts_restored_from_init :
    (∀ (cs : List (Call ℕ)) t, cs.foldlM step (Machine.init true) = some t → t.held = [] →
      t.cpu.interruptsEnabled = true) ∧
    ∀ (cs : List (Call ℕ)) t, cs.foldlM stepNested (Machine.init true) = some t → t.held ≠ [] →
      t.cpu.interruptsEnabled = false :=
  spinlock_interrupts_restored (Machine.init true) rfl

/-- Two locks taken with interrupts enabled and the first released first: the release of the
first gives the enabled flag back while the second is still held. -/
theorem unlock_out_of_order_enables_interrupts :
    ([Call.lock 0, .lock 1, .unlock 0].foldlM step (Machine.init true : Machine ℕ)).map
        (fun t => (t.held, t.cpu.interruptsEnabled)) = some ([1], true) := by
  decide

end Sync
end Popcorn
