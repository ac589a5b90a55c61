import Popcorn.Sync.Once

/-!
# `OnceLock` initialises once

The threads' steps refine an abstract `OnceLock` (`Phase`) that moves through four phases: no
value yet; an owner running its initialiser for `v`; `v` written by its owner but not yet
published; and `v` published. `Refines s ph` says what the word, the cell, the ghost and every
thread's place say about the phase. The initial lock refines the first phase
(`refines_init`), and every step of a thread keeps the refinement, the phase staying or moving
on by one (`Refines.step`).

So, with initialisers that do not unwind, at every reachable state
(`onceLock_initialises_once`):

* at most one initialiser has run, and once the word is `Called` exactly one has, with its
  value in the cell;
* a `get` answers `None` only before `Called`, and `Some(v)` after;
* every `get_or_init` that returns, returns `v`, and each can be brought to return;
* a `call_once` returns only into a `Called` word, which stays `Called`.
-/

namespace Popcorn.Sync.Once

variable {α ι : Type}

/-- `State::try_from` inverts `State::into`: the word, written only with `into`, reads back as
the state written. -/
theorem constFromU8_constIntoU8 (s : State) : State.constFromU8 s.constIntoU8 = .ok s := by
  cases s <;> rfl

/-! ## Places of a thread -/

/-- The places of the thread that won the compare-exchange. -/
def Pc.owns : Pc α → Bool
  | .running _ | .written => true
  | _ => false

/-- The value a finished call returned, if it returned one. -/
def Pc.returnedValue : Pc α → Option α
  | .returned (.getOrInit v) | .returned (.get (some v)) => some v
  | _ => none

/-- A thread inside `get_or_init`. -/
def Pc.inGetOrInit : Pc α → Bool
  | .callOnce _ | .running _ | .written | .initDone => true
  | _ => false

theorem Pc.owns_of_ready {p : Pc α} (h : p.ready = true) : p.owns = false := by
  cases p <;> simp_all [Pc.ready, Pc.owns]

/-! ## The abstract `OnceLock` -/

/-- The phases of an abstract `OnceLock`: no value yet, the owner `running` its initialiser
for `v`, `v` `written` by its owner but not yet published, and `v` published (`called`). -/
inductive Phase (α ι : Type) where
  | uncalled
  | running (owner : ι) (v : α)
  | written (owner : ι) (v : α)
  | called (v : α)
  deriving DecidableEq

namespace Phase

/-- The word in each phase. -/
def once : Phase α ι → State
  | .uncalled => .uncalled
  | .running .. | .written .. => .running
  | .called _ => .called

/-- The values the initialisers that have run produced. -/
def produced : Phase α ι → List α
  | .uncalled | .running .. => []
  | .written _ v | .called v => [v]

/-- The thread that won the compare-exchange and has not yet stored `Called`. -/
def owner : Phase α ι → Option ι
  | .running i _ | .written i _ => some i
  | _ => none

/-- Where the owner is. -/
def ownerPc : Phase α ι → Pc α
  | .running _ v => .running v
  | .written .. => .written
  | _ => .idle

/-- An abstract step: the phase stays, or moves on by one. -/
inductive Step : Phase α ι → Phase α ι → Prop
  | stay (ph : Phase α ι) : Step ph ph
  | start (i : ι) (v : α) : Step .uncalled (.running i v)
  | write (i : ι) (v : α) : Step (.running i v) (.written i v)
  | publish (i : ι) (v : α) : Step (.written i v) (.called v)

variable {ph ph' : Phase α ι} {i : ι} {v : α}

/-- No more than one initialiser has run in any phase. -/
theorem produced_length_le (ph : Phase α ι) : ph.produced.length ≤ 1 := by
  cases ph <;> simp [produced]

theorem once_ne_poison (ph : Phase α ι) : ph.once ≠ .poison := by
  cases ph <;> simp [once]

theorem eq_uncalled_of_once (h : ph.once = .uncalled) : ph = .uncalled := by
  cases ph <;> simp_all [once]

theorem exists_called_of_once (h : ph.once = .called) : ∃ v, ph = .called v := by
  cases ph <;> simp_all [once]

/-- The owner's place is an owner's. -/
theorem ownerPc_owns (h : ph.owner = some i) : ph.ownerPc.owns = true := by
  cases ph <;> simp_all [owner, ownerPc, Pc.owns]

/-- A phase whose owner is about to call `f` is that owner's running phase. -/
theorem eq_running_of_ownerPc (hown : ph.owner = some i) (hpc : ph.ownerPc = .running v) :
    ph = .running i v := by
  cases ph <;> simp_all [owner, ownerPc]

/-- A phase whose owner has written its value is that owner's written phase. -/
theorem exists_written_of_ownerPc (hown : ph.owner = some i) (hpc : ph.ownerPc = .written) :
    ∃ v, ph = .written i v := by
  cases ph <;> simp_all [owner, ownerPc]

/-- A published value stays. -/
theorem Step.eq_of_called (h : Step (.called v) ph') : ph' = .called v := by
  cases h
  rfl

end Phase

/-! ## One step of a thread

What each kind of step needs and does, read off `Thread.step`. -/

section Step

variable {b : Bool} {g g' : OnceLock α} {p t : Pc α}

/-- `get` is a step of a thread between calls, whatever its place. -/
theorem Thread.step_get_eq :
    Thread.step b g p .get = if p.ready then g.get.map fun r => (g, .returned (.get r)) else none := by
  cases p <;> rfl

/-- So is `get_or_init`. -/
theorem Thread.step_getOrInit_eq (w : α) :
    Thread.step b g p (.getOrInit w) = if p.ready then some (g, .callOnce w) else none := by
  cases p <;> rfl

theorem step_get (h : Thread.step b g p .get = some (g', t)) :
    p.ready = true ∧ g' = g ∧ ∃ r, g.get = some r ∧ t = .returned (.get r) := by
  rw [Thread.step_get_eq] at h
  by_cases hp : p.ready = true
  · simp only [hp, if_true, Option.map_eq_some_iff, Prod.mk.injEq] at h
    obtain ⟨r, hr, rfl, rfl⟩ := h
    exact ⟨hp, rfl, r, hr, rfl⟩
  · simp [hp] at h

theorem step_getOrInit {w : α} (h : Thread.step b g p (.getOrInit w) = some (g', t)) :
    p.ready = true ∧ g' = g ∧ t = .callOnce w := by
  rw [Thread.step_getOrInit_eq] at h
  by_cases hp : p.ready = true
  · simp only [hp, if_true, Option.some.injEq, Prod.mk.injEq] at h
    exact ⟨hp, h.1.symm, h.2.symm⟩
  · simp [hp] at h

-- The other steps are each taken from one place; at every other place `Thread.step` is
-- `none`, which `cases h` sees by computing it.

theorem step_cas {spurious : Bool} (h : Thread.step b g p (.cas spurious) = some (g', t)) :
    ∃ w, p = .callOnce w ∧ callOncePass spurious g w = (g', t) := by
  cases p with
  | callOnce w => exact ⟨w, rfl, Option.some.inj h⟩
  | _ => cases h

theorem step_callF (h : Thread.step b g p .callF = some (g', t)) :
    ∃ w, p = .running w ∧ g' = { g with data := some w, produced := g.produced ++ [w] } ∧
      t = .written := by
  cases p with
  | running w =>
    cases h
    exact ⟨w, rfl, rfl, rfl⟩
  | _ => cases h

theorem step_unwind (h : Thread.step false g p .unwind = some (g', t)) : False := by
  cases p <;> cases h

theorem step_storeCalled (h : Thread.step b g p .storeCalled = some (g', t)) :
    p = .written ∧ g' = { g with once := .called } ∧ t = .initDone := by
  cases p with
  | written =>
    cases h
    exact ⟨rfl, rfl, rfl⟩
  | _ => cases h

theorem step_assumeInitRef (h : Thread.step b g p .assumeInitRef = some (g', t)) :
    p = .initDone ∧ g' = g ∧ ∃ w, g.data = some w ∧ t = .returned (.getOrInit w) := by
  cases p with
  | initDone =>
    obtain ⟨w, hw, hgt⟩ := Option.map_eq_some_iff.mp h
    cases hgt
    exact ⟨rfl, rfl, w, hw, rfl⟩
  | _ => cases h

/-- A pass of `call_once`'s loop: the compare-exchange takes an `Uncalled` word to `Running`,
or the word stays and the thread panics on `Poison`, returns on `Called`, or goes round. -/
theorem callOncePass_cases {spurious : Bool} {w : α} (h : callOncePass spurious g w = (g', t)) :
    (g.once = .uncalled ∧ g' = { g with once := .running } ∧ t = .running w) ∨
      g' = g ∧ (g.once = .poison ∧ t = .panicked ∨ g.once = .called ∧ t = .initDone ∨
        t = .callOnce w) := by
  obtain ⟨once, data, produced⟩ := g
  cases once <;> cases spurious <;> simp_all [callOncePass, compareExchangeWeak, eq_comm]

/-- The pass that wins the compare-exchange on `Uncalled`. -/
theorem callOncePass_of_uncalled {w : α} (h : g.once = .uncalled) :
    callOncePass false g w = ({ g with once := .running }, .running w) := by
  obtain ⟨once, data, produced⟩ := g
  subst h
  rfl

/-- The pass that reads `Called` returns. -/
theorem callOncePass_of_called {spurious : Bool} {w : α} (h : g.once = .called) :
    callOncePass spurious g w = (g, .initDone) := by
  obtain ⟨once, data, produced⟩ := g
  subst h
  rfl

/-- `get` answers `None` only while the word is not `Called`. -/
theorem get_eq_some_none (h : g.get = some none) : g.once ≠ .called := by
  intro hcalled
  simp [OnceLock.get, hcalled, isComplete] at h

/-- `get` answers a value only from a `Called` word, and the value is the cell's. -/
theorem get_eq_some_some {w : α} (h : g.get = some (some w)) :
    g.once = .called ∧ g.data = some w := by
  unfold OnceLock.get at h
  cases hc : g.once <;> simp_all [isComplete]

/-- `get` answers `None` only while the word is not `Called`. -/
theorem step_returned_get_none {act : Act α}
    (h : Thread.step false g p act = some (g', .returned (.get none))) : g.once ≠ .called := by
  cases act with
  | get =>
    obtain ⟨-, -, r, hget, hr⟩ := step_get h
    cases hr
    exact get_eq_some_none hget
  | getOrInit w => cases (step_getOrInit h).2.2
  | cas spurious =>
    obtain ⟨w, -, hpass⟩ := step_cas h
    rcases callOncePass_cases hpass with ⟨-, -, ht⟩ | ⟨-, ⟨-, ht⟩ | ⟨-, ht⟩ | ht⟩ <;> cases ht
  | callF =>
    obtain ⟨w, -, -, ht⟩ := step_callF h
    cases ht
  | unwind => exact (step_unwind h).elim
  | storeCalled => cases (step_storeCalled h).2.2
  | assumeInitRef =>
    obtain ⟨-, -, w, -, ht⟩ := step_assumeInitRef h
    cases ht

/-- A `call_once` returns only into a `Called` word. -/
theorem step_initDone {act : Act α} (h : Thread.step false g p act = some (g', .initDone)) :
    g'.once = .called := by
  cases act with
  | get =>
    obtain ⟨-, -, r, -, ht⟩ := step_get h
    cases ht
  | getOrInit w => cases (step_getOrInit h).2.2
  | cas spurious =>
    obtain ⟨w, -, hpass⟩ := step_cas h
    rcases callOncePass_cases hpass with ⟨-, -, ht⟩ | ⟨rfl, ⟨-, ht⟩ | ⟨hcalled, -⟩ | ht⟩
    · cases ht
    · cases ht
    · exact hcalled
    · cases ht
  | callF =>
    obtain ⟨w, -, -, ht⟩ := step_callF h
    cases ht
  | unwind => exact (step_unwind h).elim
  | storeCalled =>
    obtain ⟨-, rfl, -⟩ := step_storeCalled h
    rfl
  | assumeInitRef =>
    obtain ⟨-, -, w, -, ht⟩ := step_assumeInitRef h
    cases ht

/-- A `Called` word stays `Called`: only a compare-exchange on `Uncalled` and the owner's stores
write the word. -/
theorem step_once_called {act : Act α} (h : Thread.step false g p act = some (g', t))
    (hcalled : g.once = .called) : g'.once = .called := by
  cases act with
  | get => rw [(step_get h).2.1, hcalled]
  | getOrInit w => rw [(step_getOrInit h).2.1, hcalled]
  | cas spurious =>
    obtain ⟨w, -, hpass⟩ := step_cas h
    rcases callOncePass_cases hpass with ⟨hun, -, -⟩ | ⟨rfl, -⟩
    · rw [hcalled] at hun
      cases hun
    · exact hcalled
  | callF =>
    obtain ⟨w, -, rfl, -⟩ := step_callF h
    exact hcalled
  | unwind => exact (step_unwind h).elim
  | storeCalled =>
    obtain ⟨-, rfl, -⟩ := step_storeCalled h
    rfl
  | assumeInitRef => rw [(step_assumeInitRef h).2.1, hcalled]

end Step

/-! ## The refinement -/

section Refinement

variable {s : Lock α ι} {ph : Phase α ι}

/-- The lock `s` is in phase `ph`: its word, ghost and cell are the phase's; a thread at an
owner's place is the phase's owner, which is at the owner's place; and a thread past
`call_once`, or returned with a value, is in the published phase of that value. -/
structure Refines (s : Lock α ι) (ph : Phase α ι) : Prop where
  once_eq : s.shared.once = ph.once
  produced_eq : s.shared.produced = ph.produced
  data_eq : s.shared.data = ph.produced.head?
  owner_of_owns : ∀ i, (s.threads i).owns = true → ph.owner = some i
  owner_pc : ∀ i, ph.owner = some i → s.threads i = ph.ownerPc
  initDone : ∀ i, s.threads i = .initDone → ∃ v, ph = .called v
  returned : ∀ i w, (s.threads i).returnedValue = some w → ph = .called w

theorem refines_init (h : Lock.Init s) : Refines s .uncalled where
  once_eq := by rw [h.1]; rfl
  produced_eq := by rw [h.1]; rfl
  data_eq := by rw [h.1]; rfl
  owner_of_owns i hi := by simp [h.2 i, Pc.owns] at hi
  owner_pc i hi := by simp [Phase.owner] at hi
  initDone i hi := by simp [h.2 i] at hi
  returned i w hi := by simp [h.2 i, Pc.returnedValue] at hi

/-- A value `get` answers is the published one. -/
theorem Refines.eq_called_of_get (h : Refines s ph) {w : α} (hget : s.shared.get = some (some w)) :
    ph = .called w := by
  obtain ⟨hcalled, hdata⟩ := get_eq_some_some hget
  obtain ⟨v, rfl⟩ := Phase.exists_called_of_once (h.once_eq.symm.trans hcalled)
  have hvw : some v = some w := h.data_eq.symm.trans hdata
  rw [Option.some.inj hvw]

/-- A returned value comes from the published phase of that value. -/
theorem Refines.eq_called_of_returns (h : Refines s ph) {i : ι} {act : Act α} {g : OnceLock α}
    {t : Pc α} {w : α} (hstep : Thread.step false s.shared (s.threads i) act = some (g, t))
    (ht : t.returnedValue = some w) : ph = .called w := by
  cases act with
  | get =>
    obtain ⟨-, -, r, hget, rfl⟩ := step_get hstep
    cases r with
    | none => simp [Pc.returnedValue] at ht
    | some w' =>
      simp only [Pc.returnedValue, Option.some.injEq] at ht
      exact h.eq_called_of_get (ht ▸ hget)
  | assumeInitRef =>
    obtain ⟨hi, -, w', hw, rfl⟩ := step_assumeInitRef hstep
    simp only [Pc.returnedValue, Option.some.injEq] at ht
    obtain ⟨v, rfl⟩ := h.initDone i hi
    have hvw : some v = some w' := h.data_eq.symm.trans hw
    rw [Option.some.inj hvw, ht]
  | getOrInit w' => simp [(step_getOrInit hstep).2.2, Pc.returnedValue] at ht
  | cas spurious =>
    obtain ⟨w', -, hpass⟩ := step_cas hstep
    rcases callOncePass_cases hpass with ⟨-, -, rfl⟩ | ⟨-, ⟨-, rfl⟩ | ⟨-, rfl⟩ | rfl⟩ <;>
      simp [Pc.returnedValue] at ht
  | callF =>
    obtain ⟨w', -, -, rfl⟩ := step_callF hstep
    simp [Pc.returnedValue] at ht
  | unwind => exact (step_unwind hstep).elim
  | storeCalled => simp [(step_storeCalled hstep).2.2, Pc.returnedValue] at ht

variable [DecidableEq ι]

/-- A step that leaves the shared state, and moves a thread that is not the owner to a place
that is not an owner's and that the phase allows, keeps the phase. -/
theorem Refines.update_local (h : Refines s ph) (i : ι) {t : Pc α}
    (hold : (s.threads i).owns = false) (hnew : t.owns = false)
    (hdone : t = .initDone → ∃ v, ph = .called v)
    (hret : ∀ w, t.returnedValue = some w → ph = .called w) :
    Refines (s.update i s.shared t) ph where
  once_eq := h.once_eq
  produced_eq := h.produced_eq
  data_eq := h.data_eq
  owner_of_owns := Interleave.Sys.forall_update (P := fun j (p : Pc α) => p.owns = true → ph.owner = some j)
    (fun j _ => h.owner_of_owns j) (fun hown => by simp [hnew] at hown)
  owner_pc := Interleave.Sys.forall_update (P := fun j (p : Pc α) => ph.owner = some j → p = ph.ownerPc)
    (fun j _ => h.owner_pc j) (fun hown => by
      -- `i` was not at the owner's place, so it is not the owner
      rw [h.owner_pc i hown, Phase.ownerPc_owns hown] at hold
      cases hold)
  initDone := Interleave.Sys.forall_update (P := fun _ (p : Pc α) => p = .initDone → ∃ v, ph = .called v)
    (fun j _ => h.initDone j) hdone
  returned := Interleave.Sys.forall_update
    (P := fun _ (p : Pc α) => ∀ w, p.returnedValue = some w → ph = .called w) (fun j _ => h.returned j) hret

/-- The compare-exchange that takes `Uncalled` to `Running` makes its thread the owner. -/
theorem Refines.start (h : Refines s .uncalled) (i : ι) (v : α) :
    Refines (s.update i { s.shared with once := .running } (.running v)) (.running i v) where
  once_eq := rfl
  produced_eq := h.produced_eq
  data_eq := h.data_eq
  owner_of_owns := Interleave.Sys.forall_update
    (P := fun j (p : Pc α) => p.owns = true → (Phase.running i v).owner = some j)
    (fun j _ hj => by cases h.owner_of_owns j hj) (fun _ => rfl)
  owner_pc := Interleave.Sys.forall_update
    (P := fun j (p : Pc α) => (Phase.running i v).owner = some j → p = (Phase.running i v).ownerPc)
    (fun j hji hj => absurd (Option.some.inj hj).symm hji) (fun _ => rfl)
  initDone := Interleave.Sys.forall_update
    (P := fun _ (p : Pc α) => p = .initDone → ∃ w, Phase.running i v = .called w)
    (fun j _ hj => by obtain ⟨w, hw⟩ := h.initDone j hj; cases hw) (fun hi => by cases hi)
  returned := Interleave.Sys.forall_update
    (P := fun _ (p : Pc α) => ∀ w, p.returnedValue = some w → Phase.running i v = .called w)
    (fun j _ w hw => by cases h.returned j w hw) (fun w hw => by simp [Pc.returnedValue] at hw)

/-- The owner's call of `f` writes its value to the cell. -/
theorem Refines.write {i : ι} {v : α} (h : Refines s (.running i v)) :
    Refines (s.update i { s.shared with data := some v, produced := s.shared.produced ++ [v] }
      .written) (.written i v) where
  once_eq := h.once_eq
  produced_eq := by
    show s.shared.produced ++ [v] = [v]
    rw [h.produced_eq]
    rfl
  data_eq := rfl
  owner_of_owns := Interleave.Sys.forall_update
    (P := fun j (p : Pc α) => p.owns = true → (Phase.written i v).owner = some j)
    (fun j _ hj => h.owner_of_owns j hj) (fun _ => rfl)
  owner_pc := Interleave.Sys.forall_update
    (P := fun j (p : Pc α) => (Phase.written i v).owner = some j → p = (Phase.written i v).ownerPc)
    (fun j hji hj => absurd (Option.some.inj hj).symm hji) (fun _ => rfl)
  initDone := Interleave.Sys.forall_update
    (P := fun _ (p : Pc α) => p = .initDone → ∃ w, Phase.written i v = .called w)
    (fun j _ hj => by obtain ⟨w, hw⟩ := h.initDone j hj; cases hw) (fun hi => by cases hi)
  returned := Interleave.Sys.forall_update
    (P := fun _ (p : Pc α) => ∀ w, p.returnedValue = some w → Phase.written i v = .called w)
    (fun j _ w hw => by cases h.returned j w hw) (fun w hw => by simp [Pc.returnedValue] at hw)

/-- The owner's store of `Called` publishes its value and ends its `call_once`. -/
theorem Refines.publish {i : ι} {v : α} (h : Refines s (.written i v)) :
    Refines (s.update i { s.shared with once := .called } .initDone) (.called v) where
  once_eq := rfl
  produced_eq := h.produced_eq
  data_eq := h.data_eq
  owner_of_owns := Interleave.Sys.forall_update
    (P := fun j (p : Pc α) => p.owns = true → (Phase.called v : Phase α ι).owner = some j)
    (fun j hji hj => absurd (Option.some.inj (h.owner_of_owns j hj)).symm hji)
    (fun hi => by cases hi)
  owner_pc := Interleave.Sys.forall_update
    (P := fun j (p : Pc α) => (Phase.called v : Phase α ι).owner = some j → p = (Phase.called v).ownerPc)
    (fun _ _ hj => by cases hj) (fun hi => by cases hi)
  initDone := Interleave.Sys.forall_update
    (P := fun _ (p : Pc α) => p = .initDone → ∃ w, (Phase.called v : Phase α ι) = .called w)
    (fun _ _ _ => ⟨v, rfl⟩) (fun _ => ⟨v, rfl⟩)
  returned := Interleave.Sys.forall_update
    (P := fun _ (p : Pc α) => ∀ w, p.returnedValue = some w → (Phase.called v : Phase α ι) = .called w)
    (fun j _ w hw => by cases h.returned j w hw) (fun w hw => by simp [Pc.returnedValue] at hw)

/-- Every step of a thread keeps the lock refining a phase, which stays or moves on by one. -/
theorem Refines.step (h : Refines s ph) {i : ι} {act : Act α} {g : OnceLock α} {t : Pc α}
    (hstep : Thread.step false s.shared (s.threads i) act = some (g, t)) :
    ∃ ph', Refines (s.update i g t) ph' ∧ Phase.Step ph ph' := by
  cases act with
  | get =>
    obtain ⟨hready, rfl, r, hget, rfl⟩ := step_get hstep
    have hr : ∀ w, r = some w → ph = .called w := fun w hw => h.eq_called_of_get (hw ▸ hget)
    refine ⟨ph, h.update_local i (Pc.owns_of_ready hready) rfl (fun hi => by cases hi)
      (fun w hw => hr w ?_), .stay ph⟩
    cases r <;> simp_all [Pc.returnedValue]
  | getOrInit w =>
    obtain ⟨hready, rfl, rfl⟩ := step_getOrInit hstep
    exact ⟨ph, h.update_local i (Pc.owns_of_ready hready) rfl (fun hi => by cases hi)
      (fun w hw => by simp [Pc.returnedValue] at hw), .stay ph⟩
  | cas spurious =>
    obtain ⟨w, hi, hpass⟩ := step_cas hstep
    have hold : (s.threads i).owns = false := by rw [hi]; rfl
    rcases callOncePass_cases hpass with ⟨hun, rfl, rfl⟩ | ⟨rfl, hrest⟩
    · -- the compare-exchange succeeded, so `i` owns
      obtain rfl := Phase.eq_uncalled_of_once (h.once_eq.symm.trans hun)
      exact ⟨_, h.start i w, .start i w⟩
    · rcases hrest with ⟨hpoison, -⟩ | ⟨hcalled, rfl⟩ | rfl
      · exact absurd (h.once_eq.symm.trans hpoison) (Phase.once_ne_poison ph)
      · -- a `Called` word: `call_once` returns
        obtain ⟨v, rfl⟩ := Phase.exists_called_of_once (h.once_eq.symm.trans hcalled)
        exact ⟨_, h.update_local i hold rfl (fun _ => ⟨v, rfl⟩)
          (fun w hw => by simp [Pc.returnedValue] at hw), .stay _⟩
      · exact ⟨ph, h.update_local i hold rfl (fun hi => by cases hi)
          (fun w hw => by simp [Pc.returnedValue] at hw), .stay ph⟩
  | callF =>
    obtain ⟨w, hi, rfl, rfl⟩ := step_callF hstep
    -- only the owner is about to call `f`
    have hown : ph.owner = some i := h.owner_of_owns i (by rw [hi]; rfl)
    obtain rfl := Phase.eq_running_of_ownerPc hown ((h.owner_pc i hown).symm.trans hi)
    exact ⟨_, h.write, .write i w⟩
  | unwind => exact (step_unwind hstep).elim
  | storeCalled =>
    obtain ⟨hi, rfl, rfl⟩ := step_storeCalled hstep
    have hown : ph.owner = some i := h.owner_of_owns i (by rw [hi]; rfl)
    obtain ⟨v, rfl⟩ := Phase.exists_written_of_ownerPc hown ((h.owner_pc i hown).symm.trans hi)
    exact ⟨_, h.publish, .publish i v⟩
  | assumeInitRef =>
    obtain ⟨hi, rfl, w, hw, rfl⟩ := step_assumeInitRef hstep
    obtain ⟨v, rfl⟩ := h.initDone i hi
    -- the cell holds the published value
    have hvw : some v = some w := h.data_eq.symm.trans hw
    obtain rfl := Option.some.inj hvw
    exact ⟨_, h.update_local i (by rw [hi]; rfl) rfl (fun hi => by cases hi)
      (fun w hw => by simp only [Pc.returnedValue, Option.some.injEq] at hw; rw [hw]), .stay _⟩

theorem Refines.lockStep {s' : Lock α ι} (h : Refines s ph) (hstep : Lock.Step false s s') :
    ∃ ph', Refines s' ph' ∧ Phase.Step ph ph' := by
  obtain ⟨i, g, t, ⟨act, hact⟩, rfl⟩ := hstep
  exact h.step hact

/-- Every reachable lock refines a phase. -/
theorem refines_of_reachable (h : Transition.Reachable Lock.Init (Lock.Step false) s) :
    ∃ ph, Refines s ph := by
  refine h.induction (P := fun s => ∃ ph, Refines s ph) (fun s hinit => ⟨_, refines_init hinit⟩) ?_
  rintro s s' ⟨ph, hph⟩ hstep
  obtain ⟨ph', hph', -⟩ := hph.lockStep hstep
  exact ⟨ph', hph'⟩

end Refinement

/-! ## Every `get_or_init` can return -/

section Progress

variable [DecidableEq ι] {s : Lock α ι} {ph : Phase α ι} {i : ι}

/-- A step of a thread is a step of the lock. -/
theorem Lock.step_of_thread {b : Bool} {act : Act α} {g : OnceLock α} {t : Pc α}
    (h : Thread.step b s.shared (s.threads i) act = some (g, t)) :
    Lock.Step b s (s.update i g t) :=
  ⟨i, g, t, ⟨act, h⟩, rfl⟩

/-- Some run from `s` brings thread `i`'s `get_or_init` to return. -/
def CanReturn (s : Lock α ι) (i : ι) : Prop :=
  ∃ s' w, Relation.ReflTransGen (Lock.Step false) s s' ∧ s'.threads i = .returned (.getOrInit w)

theorem CanReturn.head {s' : Lock α ι} (hstep : Lock.Step false s s') (h : CanReturn s' i) :
    CanReturn s i := by
  obtain ⟨s'', w, hrun, hi⟩ := h
  exact ⟨s'', w, .head hstep hrun, hi⟩

/-- The owner's store of `Called`: its `call_once` returns, and no other thread moves. -/
theorem exists_publish {o : ι} {v : α} (h : Refines s (.written o v)) :
    ∃ s', Lock.Step false s s' ∧ Refines s' (.called v) ∧ s'.threads o = .initDone ∧
      ∀ j, j ≠ o → s'.threads j = s.threads j := by
  have hstep : Thread.step false s.shared (s.threads o) .storeCalled =
      some ({ s.shared with once := .called }, .initDone) := by
    rw [h.owner_pc o rfl]
    rfl
  exact ⟨_, Lock.step_of_thread hstep, h.publish, Interleave.Sys.update_threads_self,
    fun j hj => Interleave.Sys.update_threads_of_ne hj⟩

/-- The owner's call of `f`, and no other thread moves. -/
theorem exists_write {o : ι} {v : α} (h : Refines s (.running o v)) :
    ∃ s', Lock.Step false s s' ∧ Refines s' (.written o v) ∧ s'.threads o = .written ∧
      ∀ j, j ≠ o → s'.threads j = s.threads j := by
  have hstep : Thread.step false s.shared (s.threads o) .callF =
      some ({ s.shared with data := some v, produced := s.shared.produced ++ [v] }, .written) := by
    rw [h.owner_pc o rfl]
    rfl
  exact ⟨_, Lock.step_of_thread hstep, h.write, Interleave.Sys.update_threads_self,
    fun j hj => Interleave.Sys.update_threads_of_ne hj⟩

theorem canReturn_of_initDone (h : Refines s ph) (hi : s.threads i = .initDone) : CanReturn s i := by
  obtain ⟨v, rfl⟩ := h.initDone i hi
  have hstep : Thread.step false s.shared (s.threads i) .assumeInitRef =
      some (s.shared, .returned (.getOrInit v)) := by
    have hdata : s.shared.data = some v := h.data_eq
    rw [hi]
    show s.shared.data.map _ = _
    rw [hdata]
    rfl
  exact ⟨_, v, .single (Lock.step_of_thread hstep), Interleave.Sys.update_threads_self⟩

theorem canReturn_of_written (h : Refines s ph) (hi : s.threads i = .written) : CanReturn s i := by
  have hown : ph.owner = some i := h.owner_of_owns i (by rw [hi]; rfl)
  obtain ⟨v, rfl⟩ := Phase.exists_written_of_ownerPc hown ((h.owner_pc i hown).symm.trans hi)
  obtain ⟨s', hstep, h', hi', -⟩ := exists_publish h
  exact (canReturn_of_initDone h' hi').head hstep

theorem canReturn_of_running {w : α} (h : Refines s ph) (hi : s.threads i = .running w) :
    CanReturn s i := by
  have hown : ph.owner = some i := h.owner_of_owns i (by rw [hi]; rfl)
  obtain rfl := Phase.eq_running_of_ownerPc hown ((h.owner_pc i hown).symm.trans hi)
  obtain ⟨s', hstep, h', hi', -⟩ := exists_write h
  exact (canReturn_of_written h' hi').head hstep

/-- A thread in `call_once`'s loop returns once the value is published: its next pass reads
`Called`. -/
theorem canReturn_of_called {v w : α} (h : Refines s (.called v)) (hi : s.threads i = .callOnce w) :
    CanReturn s i := by
  have hcalled : s.shared.once = .called := h.once_eq
  have hstep : Thread.step false s.shared (s.threads i) (.cas false) = some (s.shared, .initDone) := by
    rw [hi]
    exact congrArg some (callOncePass_of_called hcalled)
  have h' := h.update_local i (t := .initDone) (by rw [hi]; rfl) rfl (fun _ => ⟨v, rfl⟩)
    (fun w hw => by simp [Pc.returnedValue] at hw)
  exact (canReturn_of_initDone h' Interleave.Sys.update_threads_self).head (Lock.step_of_thread hstep)

/-- A thread in `call_once`'s loop can be brought to return: it wins the compare-exchange on
`Uncalled`, and otherwise the owner publishes its value and the thread's next pass reads
`Called`. -/
theorem canReturn_of_callOnce {w : α} (h : Refines s ph) (hi : s.threads i = .callOnce w) :
    CanReturn s i := by
  -- the thread in the loop is not the owner
  have hne : ∀ o, ph.owner = some o → i ≠ o := by
    rintro o hown rfl
    have hpc := Phase.ownerPc_owns hown
    rw [← h.owner_pc i hown, hi] at hpc
    cases hpc
  cases ph with
  | uncalled =>
    have hstep : Thread.step false s.shared (s.threads i) (.cas false) =
        some ({ s.shared with once := .running }, .running w) := by
      rw [hi]
      exact congrArg some (callOncePass_of_uncalled h.once_eq)
    exact (canReturn_of_running (h.start i w) Interleave.Sys.update_threads_self).head
      (Lock.step_of_thread hstep)
  | running o v =>
    obtain ⟨s₁, hstep₁, h₁, -, hframe₁⟩ := exists_write h
    obtain ⟨s₂, hstep₂, h₂, -, hframe₂⟩ := exists_publish h₁
    have hi₂ : s₂.threads i = .callOnce w := by
      rw [hframe₂ i (hne o rfl), hframe₁ i (hne o rfl), hi]
    exact ((canReturn_of_called h₂ hi₂).head hstep₂).head hstep₁
  | written o v =>
    obtain ⟨s₁, hstep₁, h₁, -, hframe₁⟩ := exists_publish h
    exact (canReturn_of_called h₁ ((hframe₁ i (hne o rfl)).trans hi)).head hstep₁
  | called v => exact canReturn_of_called h hi

/-- Every `get_or_init` under way can be brought to return. -/
theorem Refines.canReturn (h : Refines s ph) (hi : (s.threads i).inGetOrInit = true) :
    CanReturn s i := by
  cases hpc : s.threads i with
  | callOnce w => exact canReturn_of_callOnce h hpc
  | running w => exact canReturn_of_running h hpc
  | written => exact canReturn_of_written h hpc
  | initDone => exact canReturn_of_initDone h hpc
  | _ => simp [hpc, Pc.inGetOrInit] at hi

end Progress

/-! ## `OnceLock` initialises once -/

section Guarantee

variable [DecidableEq ι] {s : Lock α ι}

/-- What a `OnceLock` shared by threads guarantees at a state. At most one initialiser has
run, and once the word is `Called` exactly one has, its value `v` in the cell. Every step of
a thread answers `get` with `None` only before `Called`, returns from `get` and `get_or_init`
only `v`, ends a `call_once` only into a `Called` word, and keeps a `Called` word. A `get`
before `Called` answers `None`, and one after it `Some(v)`, so a `get` never panics; and
every `get_or_init` under way can be brought to return. -/
structure InitialisesOnce (s : Lock α ι) : Prop where
  produced_length_le : s.shared.produced.length ≤ 1
  called : s.shared.once = .called → ∃ v, s.shared.produced = [v] ∧ s.shared.data = some v
  get_none : ∀ i act g, Thread.step false s.shared (s.threads i) act =
    some (g, .returned (.get none)) → s.shared.once ≠ .called
  returns_value : ∀ i act g t w, Thread.step false s.shared (s.threads i) act = some (g, t) →
    t.returnedValue = some w → s.shared.once = .called ∧ s.shared.produced = [w]
  callOnce_returns : ∀ i act g, Thread.step false s.shared (s.threads i) act =
    some (g, .initDone) → g.once = .called
  called_stable : ∀ i act g t, Thread.step false s.shared (s.threads i) act = some (g, t) →
    s.shared.once = .called → g.once = .called
  get_before_called : s.shared.once ≠ .called → ∀ i, (s.threads i).ready = true →
    Thread.step false s.shared (s.threads i) .get = some (s.shared, .returned (.get none))
  get_some : s.shared.once = .called → ∀ i, (s.threads i).ready = true →
    ∃ v, s.shared.produced = [v] ∧
      Thread.step false s.shared (s.threads i) .get = some (s.shared, .returned (.get (some v)))
  getOrInit_returns : ∀ i, (s.threads i).inGetOrInit = true → CanReturn s i

theorem Refines.initialisesOnce {ph : Phase α ι} (h : Refines s ph) : InitialisesOnce s where
  produced_length_le := h.produced_eq ▸ ph.produced_length_le
  called hcalled := by
    obtain ⟨v, rfl⟩ := Phase.exists_called_of_once (h.once_eq.symm.trans hcalled)
    exact ⟨v, h.produced_eq, h.data_eq⟩
  get_none _ _ _ hstep := step_returned_get_none hstep
  returns_value _ _ _ _ _ hstep ht := by
    obtain rfl := h.eq_called_of_returns hstep ht
    exact ⟨h.once_eq, h.produced_eq⟩
  callOnce_returns _ _ _ hstep := step_initDone hstep
  called_stable _ _ _ _ hstep hcalled := step_once_called hstep hcalled
  get_before_called hcalled i hready := by
    -- `is_complete` reads a word other than `Called`
    have hcomplete : isComplete s.shared.once = false := by
      unfold isComplete
      split
      · rename_i hq
        exact absurd hq hcalled
      · rfl
    rw [Thread.step_get_eq, if_pos hready]
    simp [OnceLock.get, hcomplete]
  get_some hcalled i hready := by
    obtain ⟨v, rfl⟩ := Phase.exists_called_of_once (h.once_eq.symm.trans hcalled)
    have hdata : s.shared.data = some v := h.data_eq
    refine ⟨v, h.produced_eq, ?_⟩
    rw [Thread.step_get_eq, if_pos hready]
    simp [OnceLock.get, isComplete, hcalled, hdata]
  getOrInit_returns _ hi := h.canReturn hi

theorem onceLock_initialises_once (h : Transition.Reachable Lock.Init (Lock.Step false) s) :
    InitialisesOnce s := by
  obtain ⟨ph, hph⟩ := refines_of_reachable h
  exact hph.initialisesOnce

/-- A new `OnceLock` shared by two threads. -/
theorem onceLock_initialises_once_new :
    InitialisesOnce (⟨OnceLock.new, fun _ => .idle⟩ : Lock ℕ (Fin 2)) :=
  onceLock_initialises_once (Transition.Reachable.of_init ⟨rfl, fun _ => rfl⟩)

end Guarantee

end Popcorn.Sync.Once
