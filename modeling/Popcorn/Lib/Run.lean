import Mathlib

/-!
# Runs of a transition system

Two shapes of system occur in the kernel. An object driven by calls (an allocator, a page
table, the scheduler) answers each call and moves to a new state, or panics; and a shared
word is stepped by threads in any interleaving, which is a relation on states. Both are
handled here through `Relation.ReflTransGen`:

* `Reachable init r` is every state reachable from an initial one by steps of `r`, with the
  invariant rule `Reachable.induction`;
* `exec step s cs` runs a list of calls on a call-driven system, with `exec_induction` for
  what a whole run keeps, `exec_history_induction` for what it keeps about the calls
  answered so far, and `Reachable.exec` for the states it reaches;
* a loop over a list that panics or moves its state on is `List.foldlM` over `Option`, with
  `foldlM_induction` for what every pass keeps, `foldlM_rel` for a preorder every pass keeps,
  `foldlM_step_of_mem` for the pass of one element seen from the end of the loop, and
  `foldlM_eq_none_of_mem` for a pass that panics whatever the state; one that collects what
  each pass answers is `List.mapM`, which reads its body only at the list's elements
  (`mapM_congr`) and keeps the answer of each (`mem_of_mapM_eq_some`) and nothing else
  (`exists_of_mem_mapM_eq_some`);
* where a panic carries its message, a computation is in `Except`, taken apart at a bind by
  `except_bind_eq_ok`.
-/

namespace Transition

variable {σ ι ρ : Type*}

/-! ## Reachable states -/

/-- The states reachable from a state satisfying `init` by any number of `r` steps. -/
def Reachable (init : σ → Prop) (r : σ → σ → Prop) (s : σ) : Prop :=
  ∃ s₀, init s₀ ∧ Relation.ReflTransGen r s₀ s

theorem Reachable.of_init {init : σ → Prop} {r : σ → σ → Prop} {s : σ} (h : init s) :
    Reachable init r s :=
  ⟨s, h, .refl⟩

theorem Reachable.tail {init : σ → Prop} {r : σ → σ → Prop} {s s' : σ}
    (h : Reachable init r s) (hr : r s s') : Reachable init r s' := by
  obtain ⟨s₀, h₀, hrun⟩ := h
  exact ⟨s₀, h₀, hrun.tail hr⟩

/-- The invariant rule: a property of every initial state that every step keeps holds of
every reachable state. -/
theorem Reachable.induction {init : σ → Prop} {r : σ → σ → Prop} {P : σ → Prop}
    (h₀ : ∀ s, init s → P s) (h₁ : ∀ s s', P s → r s s' → P s') {s : σ}
    (h : Reachable init r s) : P s := by
  obtain ⟨s₀, hinit, hrun⟩ := h
  induction hrun with
  | refl => exact h₀ s₀ hinit
  | tail _ hr ih => exact h₁ _ _ ih hr

/-! ## Call-driven systems -/

/-- One answered call of a call-driven system: `step s c = none` is a panic. -/
def Answers (step : σ → ι → Option (ρ × σ)) (s s' : σ) : Prop :=
  ∃ c r, step s c = some (r, s')

/-- Run a list of calls, collecting the answers; `none` as soon as one of them panics. -/
def exec (step : σ → ι → Option (ρ × σ)) : σ → List ι → Option (List ρ × σ)
  | s, [] => some ([], s)
  | s, c :: cs =>
    match step s c with
    | none => none
    | some (r, s') => (exec step s' cs).map fun (rs, t) => (r :: rs, t)

theorem exec_nil (step : σ → ι → Option (ρ × σ)) (s : σ) : exec step s [] = some ([], s) := rfl

/-- The run of a non-empty list starts with the first call and goes on from its state. -/
theorem exec_cons_eq_some {step : σ → ι → Option (ρ × σ)} {s t : σ} {c : ι} {cs : List ι}
    {rs : List ρ} (h : exec step s (c :: cs) = some (rs, t)) :
    ∃ r s' rs', step s c = some (r, s') ∧ exec step s' cs = some (rs', t) ∧ rs = r :: rs' := by
  simp only [exec] at h
  split at h
  · cases h
  · rename_i r s' hstep
    obtain ⟨⟨rs', t'⟩, hrun, heq⟩ := Option.map_eq_some_iff.mp h
    cases heq
    exact ⟨r, s', rs', hstep, hrun, rfl⟩

/-- A run whose first call answers goes on from that call's state. -/
theorem exec_cons_of_step {step : σ → ι → Option (ρ × σ)} {s s' : σ} {c : ι} {r : ρ}
    (cs : List ι) (h : step s c = some (r, s')) :
    exec step s (c :: cs) = (exec step s' cs).map fun (rs, t) => (r :: rs, t) := by
  simp only [exec, h]

/-- What every call of the list keeps holds at the end of the run. -/
theorem exec_induction {step : σ → ι → Option (ρ × σ)} {P : σ → Prop} :
    ∀ {cs : List ι} {s t : σ} {rs : List ρ},
      (∀ c ∈ cs, ∀ s r s', P s → step s c = some (r, s') → P s') →
      exec step s cs = some (rs, t) → P s → P t := by
  intro cs
  induction cs with
  | nil =>
    intro s t rs _ h hs
    cases h
    exact hs
  | cons c cs ih =>
    intro s t rs hkeep h hs
    obtain ⟨r, s', rs', hstep, hrun, -⟩ := exec_cons_eq_some h
    have hs' : P s' := hkeep c (by simp) s r s' hs hstep
    exact ih (fun c' hc' => hkeep c' (by simp [hc'])) hrun hs'

/-- The invariant rule with the run's history: a property `P hist s` of the calls answered
so far, with their answers, that every step answering `good` keeps, holds at the end of a
run all of whose answers are `good`. -/
theorem exec_history_induction {step : σ → ι → Option (ρ × σ)} {P : List (ι × ρ) → σ → Prop}
    {good : ρ → Prop}
    (hkeep : ∀ hist s c r s', good r → P hist s → step s c = some (r, s') →
      P (hist ++ [(c, r)]) s') :
    ∀ {cs : List ι} {s t : σ} {rs : List ρ} {hist : List (ι × ρ)},
      exec step s cs = some (rs, t) → (∀ r ∈ rs, good r) → P hist s →
      P (hist ++ cs.zip rs) t := by
  intro cs
  induction cs with
  | nil =>
    intro s t rs hist h _ hs
    cases h
    simpa using hs
  | cons c cs ih =>
    intro s t rs hist h hgood hs
    obtain ⟨r, s', rs', hstep, hrun, rfl⟩ := exec_cons_eq_some h
    have hs' : P (hist ++ [(c, r)]) s' := hkeep hist s c r s' (hgood r (by simp)) hs hstep
    have ht := ih hrun (fun r' hr' => hgood r' (by simp [hr'])) hs'
    simpa using ht

/-- A run never panics when every step, from a state with budget left, answers and keeps the
property with the budget its call costs taken off: the calls that `counted` picks cost one,
the others nothing, and the budget at the start covers the run. -/
theorem exec_total {step : σ → ι → Option (ρ × σ)} {P : ℕ → σ → Prop} {good : ι → Prop}
    (counted : ι → Bool)
    (hstep : ∀ c s k, good c → P (k + if counted c then 1 else 0) s →
      ∃ r s', step s c = some (r, s') ∧ P k s') :
    ∀ {cs : List ι} {s : σ} {k : ℕ}, (∀ c ∈ cs, good c) → P (k + cs.countP counted) s →
      ∃ rs t, exec step s cs = some (rs, t) ∧ P k t := by
  intro cs
  induction cs with
  | nil =>
    intro s k _ hs
    exact ⟨[], s, rfl, hs⟩
  | cons c cs ih =>
    intro s k hgood hs
    -- the first call takes its cost off the budget the rest of the run needs
    have hs' : P ((k + cs.countP counted) + if counted c then 1 else 0) s := by
      rw [List.countP_cons] at hs
      rwa [Nat.add_assoc]
    obtain ⟨r, s', hstep₁, hP⟩ := hstep c s _ (hgood c (by simp)) hs'
    obtain ⟨rs, t, hrun, ht⟩ := ih (fun c' hc' => hgood c' (by simp [hc'])) hP
    refine ⟨r :: rs, t, ?_, ht⟩
    simp [exec, hstep₁, hrun]

/-- A run from a reachable state ends in a reachable state. -/
theorem Reachable.exec {init : σ → Prop} {step : σ → ι → Option (ρ × σ)} {s t : σ}
    {cs : List ι} {rs : List ρ} (h : Reachable init (Answers step) s)
    (hrun : Transition.exec step s cs = some (rs, t)) : Reachable init (Answers step) t :=
  exec_induction (P := Reachable init (Answers step))
    (fun c _ _ r _ hs hstep => hs.tail ⟨c, r, hstep⟩) hrun h

/-! ## Loops over a list -/

/-- The first pass of a loop, and the loop over the rest from its state. -/
theorem foldlM_cons_eq_some {f : σ → ι → Option σ} {s t : σ} {c : ι} {cs : List ι}
    (h : (c :: cs).foldlM f s = some t) : ∃ s', f s c = some s' ∧ cs.foldlM f s' = some t := by
  rw [List.foldlM_cons] at h
  exact Option.bind_eq_some_iff.mp h

/-- The invariant rule of a loop: what every pass keeps holds at its end. -/
theorem foldlM_induction {f : σ → ι → Option σ} {P : σ → Prop} :
    ∀ {cs : List ι} {s t : σ}, (∀ s c t, c ∈ cs → P s → f s c = some t → P t) →
      cs.foldlM f s = some t → P s → P t := by
  intro cs
  induction cs with
  | nil =>
    intro s t _ h hs
    cases h
    exact hs
  | cons c cs ih =>
    intro s t hkeep h hs
    obtain ⟨s', hs', hrest⟩ := foldlM_cons_eq_some h
    have hP : P s' := hkeep s c s' (by simp) hs hs'
    exact ih (fun u c' v hc' => hkeep u c' v (by simp [hc'])) hrest hP

section Preorder

variable {f : σ → ι → Option σ} {R : σ → σ → Prop} [Std.Refl R] [IsTrans σ R]

/-- A preorder every pass keeps relates the start of a loop to its end. -/
theorem foldlM_rel :
    ∀ {cs : List ι} {s t : σ}, (∀ s c t, c ∈ cs → f s c = some t → R s t) →
      cs.foldlM f s = some t → R s t := by
  intro cs
  induction cs with
  | nil =>
    intro s t _ h
    cases h
    exact refl_of R s
  | cons c cs ih =>
    intro s t hstep h
    obtain ⟨s', hs', hrest⟩ := foldlM_cons_eq_some h
    have h₁ : R s s' := hstep s c s' (by simp) hs'
    have h₂ : R s' t := ih (fun u c' v hc' => hstep u c' v (by simp [hc'])) hrest
    exact trans_of R h₁ h₂

/-- The pass of each element of a loop: it ends in a state that the preorder relates to the
end of the loop. -/
theorem foldlM_step_of_mem {c : ι} :
    ∀ {cs : List ι} {s t : σ}, (∀ s c t, c ∈ cs → f s c = some t → R s t) →
      cs.foldlM f s = some t → c ∈ cs → ∃ u v, f u c = some v ∧ R v t := by
  intro cs
  induction cs with
  | nil =>
    intro s t _ _ hc
    exact (List.not_mem_nil hc).elim
  | cons c' cs ih =>
    intro s t hstep h hc
    obtain ⟨s', hs', hrest⟩ := foldlM_cons_eq_some h
    have hrest_step : ∀ u c v, c ∈ cs → f u c = some v → R u v :=
      fun u c v hc => hstep u c v (by simp [hc])
    rcases List.mem_cons.mp hc with rfl | hc
    · exact ⟨s, s', hs', foldlM_rel hrest_step hrest⟩
    · exact ih hrest_step hrest hc

end Preorder

/-- A loop that panics in the pass of one of its elements, from any state an invariant allows,
panics. -/
theorem foldlM_eq_none_of_mem {f : σ → ι → Option σ} {P : σ → Prop} {c : ι}
    (hkeep : ∀ s c t, P s → f s c = some t → P t) (hpanic : ∀ s, P s → f s c = none) :
    ∀ {cs : List ι} {s : σ}, c ∈ cs → P s → cs.foldlM f s = none := by
  intro cs
  induction cs with
  | nil =>
    intro s hc
    exact (List.not_mem_nil hc).elim
  | cons c' cs ih =>
    intro s hc hs
    rw [List.foldlM_cons]
    rcases List.mem_cons.mp hc with rfl | hc
    · rw [hpanic s hs]
      rfl
    · cases hstep : f s c' with
      | none => rfl
      | some s' => exact ih hc (hkeep s c' s' hs hstep)

/-- The first pass of a loop that collects what each pass answers, and the loop over the
rest. -/
theorem mapM_cons_eq_some {α : Type*} {f : ι → Option α} {c : ι} {cs : List ι} {ys : List α}
    (h : (c :: cs).mapM f = some ys) : ∃ y ys', f c = some y ∧ cs.mapM f = some ys' ∧ ys = y :: ys' := by
  rw [List.mapM_cons] at h
  obtain ⟨y, hy, h⟩ := Option.bind_eq_some_iff.mp h
  obtain ⟨ys', hys', h⟩ := Option.bind_eq_some_iff.mp h
  exact ⟨y, ys', hy, hys', (Option.some.inj h).symm⟩

/-- What the pass of each element answered is among the answers collected. -/
theorem mem_of_mapM_eq_some {α : Type*} {f : ι → Option α} :
    ∀ {cs : List ι} {ys : List α}, cs.mapM f = some ys → ∀ c ∈ cs, ∃ y ∈ ys, f c = some y := by
  intro cs
  induction cs with
  | nil =>
    intro _ _ c hc
    exact (List.not_mem_nil hc).elim
  | cons c' cs ih =>
    intro ys h c hc
    obtain ⟨y, ys', hy, hys', rfl⟩ := mapM_cons_eq_some h
    rcases List.mem_cons.mp hc with rfl | hc
    · exact ⟨y, List.mem_cons_self, hy⟩
    · obtain ⟨y', hy', hcy'⟩ := ih hys' c hc
      exact ⟨y', List.mem_cons_of_mem _ hy', hcy'⟩

/-- Each answer collected is what the pass of some element answered. -/
theorem exists_of_mem_mapM_eq_some {α : Type*} {f : ι → Option α} :
    ∀ {cs : List ι} {ys : List α}, cs.mapM f = some ys → ∀ y ∈ ys, ∃ c ∈ cs, f c = some y := by
  intro cs
  induction cs with
  | nil =>
    intro ys h y hy
    cases h
    exact (List.not_mem_nil hy).elim
  | cons c cs ih =>
    intro ys h y hy
    obtain ⟨y', ys', hy', hys', rfl⟩ := mapM_cons_eq_some h
    rcases List.mem_cons.mp hy with rfl | hy
    · exact ⟨c, List.mem_cons_self, hy'⟩
    · obtain ⟨c', hc', hfc'⟩ := ih hys' y hy
      exact ⟨c', List.mem_cons_of_mem _ hc', hfc'⟩

/-- Mapping what a loop collected is mapping what each pass answers. -/
theorem map_mapM {α β : Type*} {f : ι → Option α} (h : α → β) :
    ∀ cs : List ι, (cs.mapM f).map (List.map h) = cs.mapM fun c => (f c).map h := by
  intro cs
  induction cs with
  | nil => rfl
  | cons c cs ih =>
    rw [List.mapM_cons, List.mapM_cons, ← ih]
    cases f c with
    | none => rfl
    | some y =>
      cases cs.mapM f with
      | none => rfl
      | some ys => rfl

/-- A loop that collects what each pass answers reads its body only at the list's elements. -/
theorem mapM_congr {α : Type*} {f g : ι → Option α} :
    ∀ {cs : List ι}, (∀ c ∈ cs, f c = g c) → cs.mapM f = cs.mapM g := by
  intro cs
  induction cs with
  | nil =>
    intro _
    rfl
  | cons c cs ih =>
    intro h
    rw [List.mapM_cons, List.mapM_cons, h c (by simp), ih fun c' hc' => h c' (by simp [hc'])]

/-! ## Computations that fail with a message -/

/-- A bind that succeeds: its first computation succeeded, and the rest from its value. -/
theorem except_bind_eq_ok {ε α β : Type} {x : Except ε α} {f : α → Except ε β} {b : β}
    (h : x >>= f = .ok b) : ∃ a, x = .ok a ∧ f a = .ok b := by
  cases x with
  | error e => cases h
  | ok a => exact ⟨a, rfl, h⟩

end Transition
