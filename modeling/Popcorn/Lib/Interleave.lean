import Mathlib

/-!
# Threads over a shared state

A system of threads `ι`, each with a local state `τ`, sharing a state `σ`. A step is one
atomic step of one thread: it may change the shared state and the thread's own local state,
and no other thread's. `total c s` adds a count `c` up over the threads (the guards they
hold, say), and `total_update` says how a step of one thread changes it: by what that
thread's count changed, and nothing else. A property of each thread's local state is kept by
a step when the thread that moved has it afterwards (`Sys.forall_update`).

An atomic word shared by the threads is read and written by single steps; its
`compare_exchange_weak` either writes the new value over the expected one or, when the word
is another or the exchange fails spuriously, leaves it and answers what it read
(`compareExchangeWeak_cases`).
-/

namespace Interleave

/-- A shared state and the local state of every thread. -/
structure Sys (σ τ ι : Type*) where
  shared : σ
  threads : ι → τ

variable {σ τ ι : Type*} [DecidableEq ι]

/-- The system after thread `i` has moved to local state `t` and the shared state to `g`. -/
def Sys.update (s : Sys σ τ ι) (i : ι) (g : σ) (t : τ) : Sys σ τ ι :=
  ⟨g, Function.update s.threads i t⟩

/-- One atomic step of one thread, by `move` on the shared state and its local state. -/
def Step (move : σ → τ → σ → τ → Prop) (s s' : Sys σ τ ι) : Prop :=
  ∃ i g t, move s.shared (s.threads i) g t ∧ s' = s.update i g t

namespace Sys

variable {s : Sys σ τ ι} {i j : ι} {g : σ} {t : τ}

@[simp] theorem update_shared : (s.update i g t).shared = g := rfl

@[simp] theorem update_threads_self : (s.update i g t).threads i = t := by
  simp [update]

theorem update_threads_of_ne (h : j ≠ i) : (s.update i g t).threads j = s.threads j := by
  simp [update, h]

/-- Two steps of one thread are one update. -/
theorem update_update_self {g' : σ} {t' : τ} : (s.update i g t).update i g' t' = s.update i g' t' := by
  simp [update]

/-- A property of each thread's local state, held by the threads a step leaves and by the new
state of the thread that moved, holds of every thread after the step. -/
theorem forall_update {P : ι → τ → Prop} (hs : ∀ j, j ≠ i → P j (s.threads j)) (ht : P i t) :
    ∀ j, P j ((s.update i g t).threads j) := by
  intro j
  by_cases hji : j = i
  · subst hji
    rw [update_threads_self]
    exact ht
  · rw [update_threads_of_ne hji]
    exact hs j hji

end Sys

section Total

variable [Fintype ι]

/-- A count added up over all threads. -/
def total (c : τ → ℕ) (s : Sys σ τ ι) : ℕ := ∑ i, c (s.threads i)

/-- A step of thread `i` changes a total by what it changed `i`'s count. -/
theorem total_update (c : τ → ℕ) (s : Sys σ τ ι) (i : ι) (g : σ) (t : τ) :
    total c (s.update i g t) + c (s.threads i) = total c s + c t := by
  have hupd : (fun j => c ((s.update i g t).threads j)) =
      Function.update (fun j => c (s.threads j)) i (c t) := by
    funext j
    by_cases hj : j = i
    · subst hj
      simp
    · simp [Sys.update_threads_of_ne hj, hj]
  have hrest := Finset.add_sum_erase Finset.univ (fun j => c (s.threads j)) (Finset.mem_univ i)
  unfold total
  rw [hupd, Finset.sum_update_of_mem (Finset.mem_univ i), ← hrest, Finset.sdiff_singleton_eq_erase]
  omega

omit [DecidableEq ι] in
/-- One thread's count is at most the total. -/
theorem le_total (c : τ → ℕ) (s : Sys σ τ ι) (i : ι) : c (s.threads i) ≤ total c s :=
  Finset.single_le_sum (f := fun j => c (s.threads j)) (fun _ _ => Nat.zero_le _)
    (Finset.mem_univ i)

/-- The total after a step of `i`: the other threads' part, and `i`'s new count. -/
theorem total_update_eq (c : τ → ℕ) (s : Sys σ τ ι) (i : ι) (g : σ) (t : τ) :
    total c (s.update i g t) = (total c s - c (s.threads i)) + c t := by
  have hstep := total_update c s i g t
  have hle := le_total c s i
  omega

omit [DecidableEq ι] in
/-- A total is positive exactly when some thread's count is. -/
theorem total_pos_iff (c : τ → ℕ) (s : Sys σ τ ι) : 0 < total c s ↔ ∃ i, 0 < c (s.threads i) := by
  unfold total
  rw [Finset.sum_pos_iff]
  simp

end Total

/-! ## An atomic word -/

section Atomic

variable {α : Type*} [DecidableEq α] {spurious : Bool} {word current new : α}
  {r : Except α α} {word' : α}

/-- `compare_exchange_weak(current, new)` on an atomic word: `Ok` with `new` written when the
word is `current` and the exchange does not fail spuriously, else `Err` with the word read. -/
def compareExchangeWeak (spurious : Bool) (word current new : α) : Except α α × α :=
  if word = current ∧ spurious = false then (.ok word, new) else (.error word, word)

theorem compareExchangeWeak_of_eq : compareExchangeWeak false current current new = (.ok current, new) := by
  simp [compareExchangeWeak]

theorem compareExchangeWeak_of_ne (h : word ≠ current) :
    compareExchangeWeak spurious word current new = (.error word, word) := by
  simp [compareExchangeWeak, h]

/-- An exchange writes `new` over `current`, or fails and leaves the word it read. -/
theorem compareExchangeWeak_cases (h : compareExchangeWeak spurious word current new = (r, word')) :
    (word = current ∧ spurious = false ∧ r = .ok word ∧ word' = new) ∨
      (r = .error word ∧ word' = word) := by
  unfold compareExchangeWeak at h
  split_ifs at h with hc
  · obtain ⟨rfl, rfl⟩ := Prod.mk.inj h
    exact .inl ⟨hc.1, hc.2, rfl, rfl⟩
  · obtain ⟨rfl, rfl⟩ := Prod.mk.inj h
    exact .inr ⟨rfl, rfl⟩

end Atomic

end Interleave
