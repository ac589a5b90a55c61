import Popcorn.Sync.Bootstrap

/-!
# `BootstrapOnceLock` bootstraps once, and races

The threads' steps refine an abstract `BootstrapOnceLock` (`Phase`): no value yet; an owner
that won the exchange for bootstrap value `b` and an `f` producing `v`, then wrote `b`, then
published it as `Running`, then ran `f` and stored `Saving`, then wrote `v`; and `v` published
as `Init`. If `f` unwinds, the lock is `abandoned` with `b` in the cell. The shared state is a
function of the phase (`Phase.lock`), and every thread's place agrees with the phase
(`ThreadOk`). The owner's steps move the phase on (`Phase.Moves`) and every other step keeps
it; a move keeps every other thread's agreement (`ThreadOk.of_moves`). So every reachable lock
refines a phase (`refines_of_reachable`).

Hence, at every reachable state, whether `f` may unwind or not (`bootstrapOnceLock_safe`): the
word is never `Poison`, one thread at a time runs the initialisation, `f` has returned at most
once, the cell has been written at most twice, a `get` answers a value written to the cell,
and a `bootstrap` returns only `f`'s one value, from an `Init` word.

`get` reads the cell after a `Relaxed` load of `Running` that does not stay: the owner's store
of `Saving` and its write of `f`'s value can come between. So the read and the write are both
pending at a reachable state, and the read answers the bootstrap value or `f`'s value by which
goes first (`get_races_with_overwrite`). If `f` unwinds nothing stores `Poison`: the word
stays `Running` for good, the cell keeps the bootstrap value and no `bootstrap` returns again
(`unwound_bootstrap_never_returns`).
-/

namespace Popcorn.Sync.Bootstrap

variable {α ι : Type}

/-- `State::try_from` inverts `State::into`: the word, written only with `into`, reads back as
the state written. -/
theorem State.constFromU8_constIntoU8 (s : State) : State.constFromU8 s.constIntoU8 = .ok s := by
  cases s <;> rfl

/-- The places of the thread that won the exchange. -/
def Pc.owns : Pc α → Bool
  | .won .. | .bootstrapped _ | .running _ | .saving _ | .written _ => true
  | _ => false

theorem Pc.owns_of_ready {p : Pc α} (h : p.ready = true) : p.owns = false := by
  cases p <;> first | rfl | cases h

/-! ## The abstract `BootstrapOnceLock` -/

/-- The phases of an abstract `BootstrapOnceLock`: no value yet; the `owner` that won the
exchange for bootstrap value `b` and an `f` producing `v`, then `bootstrapped` with `b`
written, `running` `f` with `b` published, `saving` after `f` returned `v`, and with `v`
`written`; `b` `abandoned` in the cell by an `f` that unwound; and `v` published (`init`). -/
inductive Phase (α ι : Type) where
  | uncalled
  | won (owner : ι) (b v : α)
  | bootstrapped (owner : ι) (b v : α)
  | running (owner : ι) (b v : α)
  | abandoned (b : α)
  | saving (owner : ι) (b v : α)
  | written (owner : ι) (b v : α)
  | init (b v : α)

namespace Phase

/-- The word in each phase. -/
def state : Phase α ι → State
  | .uncalled => .uncalled
  | .won .. | .bootstrapped .. | .saving .. | .written .. => .saving
  | .running .. | .abandoned _ => .running
  | .init .. => .init

/-- The values written to the cell, oldest first. -/
def writes : Phase α ι → List α
  | .uncalled | .won .. => []
  | .bootstrapped _ b _ | .running _ b _ | .abandoned b | .saving _ b _ => [b]
  | .written _ b v | .init b v => [b, v]

/-- The values `f` returned. -/
def produced : Phase α ι → List α
  | .saving _ _ v | .written _ _ v | .init _ v => [v]
  | _ => []

/-- The lock in each phase: the cell holds the last value written to it. -/
def lock (ph : Phase α ι) : BootstrapOnceLock α :=
  ⟨ph.state, ph.writes.getLast?, ph.produced, ph.writes⟩

@[simp] theorem lock_state (ph : Phase α ι) : ph.lock.state = ph.state := rfl
@[simp] theorem lock_data (ph : Phase α ι) : ph.lock.data = ph.writes.getLast? := rfl
@[simp] theorem lock_produced (ph : Phase α ι) : ph.lock.produced = ph.produced := rfl
@[simp] theorem lock_writes (ph : Phase α ι) : ph.lock.writes = ph.writes := rfl

/-- The thread that won the exchange and has not yet stored `Init`. -/
def owner : Phase α ι → Option ι
  | .won o .. | .bootstrapped o .. | .running o .. | .saving o .. | .written o .. => some o
  | _ => none

/-- Where the owner is. -/
def ownerPc : Phase α ι → Pc α
  | .won _ b v => .won b v
  | .bootstrapped _ _ v => .bootstrapped v
  | .running _ _ v => .running v
  | .saving _ _ v => .saving v
  | .written _ _ v => .written v
  | _ => .idle

/-- The steps of thread `i` that move the phase: it wins the exchange, and then, as the owner,
writes `b`, publishes it, runs `f`, writes `v` and publishes it; or, if `f` may unwind
(`fPanics`), it abandons `b` in the cell. -/
inductive Moves (fPanics : Bool) (i : ι) : Phase α ι → Phase α ι → Prop
  | win (b v : α) : Moves fPanics i .uncalled (.won i b v)
  | bootstrap (b v : α) : Moves fPanics i (.won i b v) (.bootstrapped i b v)
  | run (b v : α) : Moves fPanics i (.bootstrapped i b v) (.running i b v)
  | abandon (b v : α) (hf : fPanics = true) : Moves fPanics i (.running i b v) (.abandoned b)
  | save (b v : α) : Moves fPanics i (.running i b v) (.saving i b v)
  | write (b v : α) : Moves fPanics i (.saving i b v) (.written i b v)
  | publish (b v : α) : Moves fPanics i (.written i b v) (.init b v)

/-- An abstract step: the phase stays, or a thread moves it. -/
inductive Step (fPanics : Bool) : Phase α ι → Phase α ι → Prop
  | stay (ph : Phase α ι) : Step fPanics ph ph
  | move {ph ph' : Phase α ι} (i : ι) : Moves fPanics i ph ph' → Step fPanics ph ph'

variable {ph ph' : Phase α ι} {i j : ι} {b v : α} {fPanics : Bool}

-- The lemmas on phases compute the phase functions case by case (`rfl`, `cases h`) rather
-- than unfold them with `simp`.

theorem state_ne_poison (ph : Phase α ι) : ph.state ≠ .poison := by
  intro h
  cases ph <;> cases h

/-- `f` returns at most once. -/
theorem produced_length_le (ph : Phase α ι) : ph.produced.length ≤ 1 := by
  cases ph <;> exact Nat.le_of_ble_eq_true rfl

/-- The cell is written at most twice. -/
theorem writes_length_le (ph : Phase α ι) : ph.writes.length ≤ 2 := by
  cases ph <;> exact Nat.le_of_ble_eq_true rfl

/-- The second value written to the cell is one `f` returned. -/
theorem tail_writes_prefix (ph : Phase α ι) : ph.writes.tail <+: ph.produced := by
  cases ph <;> first | exact List.prefix_refl _ | exact List.nil_prefix

theorem eq_uncalled_of_state (h : ph.state = .uncalled) : ph = .uncalled := by
  cases ph <;> cases h
  rfl

theorem exists_init_of_state (h : ph.state = .init) : ∃ b v, ph = .init b v := by
  cases ph <;> cases h
  exact ⟨_, _, rfl⟩

/-- A `Running` word: the owner runs `f`, or `f` unwound. -/
theorem state_eq_running (h : ph.state = .running) :
    (∃ o b v, ph = .running o b v) ∨ ∃ b, ph = .abandoned b := by
  cases ph <;> cases h
  · exact .inl ⟨_, _, _, rfl⟩
  · exact .inr ⟨_, rfl⟩

/-- The cell is written before the word is `Running` or `Init`. -/
theorem writes_ne_nil_of_state (h : ph.state = .running ∨ ph.state = .init) : ph.writes ≠ [] := by
  cases ph <;> rcases h with h | h <;> first | exact List.cons_ne_nil _ _ | cases h

/-- The owner's place is an owner's. -/
theorem ownerPc_owns (h : ph.owner = some i) : ph.ownerPc.owns = true := by
  cases ph <;> first | rfl | cases h

/-! Where the owner is tells the phase. -/

theorem eq_won_of_ownerPc {w : α} (hown : ph.owner = some i) (hpc : ph.ownerPc = .won w v) :
    ph = .won i w v := by
  cases ph <;> cases hpc
  cases hown
  rfl

theorem exists_bootstrapped_of_ownerPc (hown : ph.owner = some i)
    (hpc : ph.ownerPc = .bootstrapped v) : ∃ b, ph = .bootstrapped i b v := by
  cases ph <;> cases hpc
  cases hown
  exact ⟨_, rfl⟩

theorem exists_running_of_ownerPc (hown : ph.owner = some i) (hpc : ph.ownerPc = .running v) :
    ∃ b, ph = .running i b v := by
  cases ph <;> cases hpc
  cases hown
  exact ⟨_, rfl⟩

theorem exists_saving_of_ownerPc (hown : ph.owner = some i) (hpc : ph.ownerPc = .saving v) :
    ∃ b, ph = .saving i b v := by
  cases ph <;> cases hpc
  cases hown
  exact ⟨_, rfl⟩

theorem exists_written_of_ownerPc (hown : ph.owner = some i) (hpc : ph.ownerPc = .written v) :
    ∃ b, ph = .written i b v := by
  cases ph <;> cases hpc
  cases hown
  exact ⟨_, rfl⟩

/-! What a move of thread `i` leaves to the other threads. -/

/-- Before a move of `i` the only owner is `i`. -/
theorem Moves.owner_eq (h : Moves fPanics i ph ph') (hj : ph.owner = some j) : j = i := by
  cases h <;> cases hj <;> rfl

/-- After it too. -/
theorem Moves.owner_eq' (h : Moves fPanics i ph ph') (hj : ph'.owner = some j) : j = i := by
  cases h <;> cases hj <;> rfl

/-- A move only writes the cell further. -/
theorem Moves.writes_prefix (h : Moves fPanics i ph ph') : ph.writes <+: ph'.writes := by
  cases h
  all_goals first | exact List.prefix_refl _ | exact List.nil_prefix | exact List.prefix_append _ _

/-- A published value stays. -/
theorem Moves.not_init (h : Moves fPanics i (.init b v) ph') : False := by
  cases h

/-- So does an abandoned bootstrap value. -/
theorem Step.eq_of_abandoned (h : Step fPanics (.abandoned b) ph') : ph' = .abandoned b := by
  cases h with
  | stay => rfl
  | move _ hm => cases hm

/-- Only an `f` that may unwind abandons the lock. -/
theorem Step.fPanics_of_abandoned (h : Step fPanics ph ph')
    (hph : ∀ b, ph = .abandoned b → fPanics = true) : ∀ b, ph' = .abandoned b → fPanics = true := by
  intro b' hb'
  cases h with
  | stay => exact hph b' hb'
  | move _ hm =>
    subst hb'
    cases hm with
    | abandon _ _ hf => exact hf

end Phase

/-! ## Threads that agree with a phase -/

section ThreadOk

variable {ph ph' : Phase α ι} {i j : ι} {p t : Pc α}

/-- Thread `i` at place `p` agrees with phase `ph`: it is at an owner's place only as the
phase's owner, and the owner is at the owner's place; a `get` about to read the cell reads it
initialised; a `get` answered a value written to the cell; and a `bootstrap` returned only the
published value. -/
structure ThreadOk (ph : Phase α ι) (i : ι) (p : Pc α) : Prop where
  owner_of_owns : p.owns = true → ph.owner = some i
  owner_pc : ph.owner = some i → p = ph.ownerPc
  loaded : p = .loaded → ph.writes ≠ []
  returned_get : ∀ x, p = .returned (.get (some x)) → x ∈ ph.writes
  returned_bootstrap : ∀ x, p = .returned (.bootstrap x) → ∃ b, ph = .init b x

/-- The owner at the owner's place agrees. -/
theorem ThreadOk.ownerPc (hown : ph.owner = some i) : ThreadOk ph i ph.ownerPc where
  owner_of_owns _ := hown
  owner_pc _ := rfl
  loaded hp := by
    have howns := Phase.ownerPc_owns hown
    rw [hp] at howns
    cases howns
  returned_get _ hp := by
    have howns := Phase.ownerPc_owns hown
    rw [hp] at howns
    cases howns
  returned_bootstrap _ hp := by
    have howns := Phase.ownerPc_owns hown
    rw [hp] at howns
    cases howns

/-- A thread that is not the owner agrees at a place that is not an owner's and that the
phase allows. -/
theorem ThreadOk.passive (hown : ph.owner ≠ some i) (hp : p.owns = false)
    (hloaded : p = .loaded → ph.writes ≠ []) (hget : ∀ x, p = .returned (.get (some x)) → x ∈ ph.writes)
    (hboot : ∀ x, p = .returned (.bootstrap x) → ∃ b, ph = .init b x) : ThreadOk ph i p where
  owner_of_owns howns := by rw [hp] at howns; cases howns
  owner_pc hi := absurd hi hown
  loaded := hloaded
  returned_get := hget
  returned_bootstrap := hboot

/-- The owner that published `v` and returned it agrees with the published phase. -/
theorem ThreadOk.returned_init {b v : α} : ThreadOk (.init b v) i (.returned (.bootstrap v)) :=
  ThreadOk.passive (fun h => by cases h) rfl (fun hp => by cases hp) (fun _ hp => by cases hp)
    (fun _ hp => by cases hp; exact ⟨b, rfl⟩)

/-- A thread that agrees at a place that is not an owner's is not the owner. -/
theorem ThreadOk.owner_ne (h : ThreadOk ph i p) (hp : p.owns = false) : ph.owner ≠ some i := by
  intro hown
  have howns := Phase.ownerPc_owns hown
  rw [← h.owner_pc hown, hp] at howns
  cases howns

/-- A thread spinning in `bootstrap`'s loop, or stopped by a panic, agrees with any phase it
does not own. -/
theorem ThreadOk.quiet (hown : ph.owner ≠ some i) (hp : p = .panicked ∨ ∃ w v, p = .bootstrap w v) :
    ThreadOk ph i p := by
  apply ThreadOk.passive hown
  all_goals rcases hp with rfl | ⟨w, v, rfl⟩
  all_goals first | rfl | (intros; contradiction)

/-- A move of `i` keeps every other thread's agreement. -/
theorem ThreadOk.of_moves {fPanics : Bool} (hm : Phase.Moves fPanics i ph ph') (hji : j ≠ i) (h : ThreadOk ph j p) :
    ThreadOk ph' j p where
  owner_of_owns hp := absurd (hm.owner_eq (h.owner_of_owns hp)) hji
  owner_pc hown := absurd (hm.owner_eq' hown) hji
  loaded hp := hm.writes_prefix.ne_nil (h.loaded hp)
  returned_get x hp := hm.writes_prefix.subset (h.returned_get x hp)
  returned_bootstrap x hp := by
    obtain ⟨b, rfl⟩ := h.returned_bootstrap x hp
    exact hm.not_init.elim

end ThreadOk

/-! ## One step of a thread

What each kind of step needs and does, read off `Thread.step`. -/

section Step

variable {fPanics : Bool} {g g' : BootstrapOnceLock α} {p t : Pc α}

/-- `get` is a step of a thread between calls, whatever its place. -/
theorem Thread.step_get_eq :
    Thread.step fPanics g p .get = if p.ready then some (g, loadPass g) else none := by
  cases p <;> rfl

/-- So is `bootstrap`. -/
theorem Thread.step_bootstrap_eq (w v : α) :
    Thread.step fPanics g p (.bootstrap w v) = if p.ready then some (g, .bootstrap w v) else none := by
  cases p <;> rfl

theorem step_get (h : Thread.step fPanics g p .get = some (g', t)) :
    p.ready = true ∧ g' = g ∧ t = loadPass g := by
  rw [Thread.step_get_eq] at h
  by_cases hp : p.ready = true
  · simp only [hp, if_true, Option.some.injEq, Prod.mk.injEq] at h
    exact ⟨hp, h.1.symm, h.2.symm⟩
  · simp [hp] at h

theorem step_bootstrap {w v : α} (h : Thread.step fPanics g p (.bootstrap w v) = some (g', t)) :
    p.ready = true ∧ g' = g ∧ t = .bootstrap w v := by
  rw [Thread.step_bootstrap_eq] at h
  by_cases hp : p.ready = true
  · simp only [hp, if_true, Option.some.injEq, Prod.mk.injEq] at h
    exact ⟨hp, h.1.symm, h.2.symm⟩
  · simp [hp] at h

-- The other steps are each taken from one place; at every other place `Thread.step` is
-- `none`, which `cases h` sees by computing it.

theorem step_assumeInitRef (h : Thread.step fPanics g p .assumeInitRef = some (g', t)) :
    p = .loaded ∧ g' = g ∧ ∃ x, g.data = some x ∧ t = .returned (.get (some x)) := by
  cases p with
  | loaded =>
    obtain ⟨x, hx, hgt⟩ := Option.map_eq_some_iff.mp h
    cases hgt
    exact ⟨rfl, rfl, x, hx, rfl⟩
  | _ => cases h

theorem step_cas {spurious : Bool} (h : Thread.step fPanics g p (.cas spurious) = some (g', t)) :
    ∃ w v, p = .bootstrap w v ∧ bootstrapPass spurious g w v = some (g', t) := by
  cases p with
  | bootstrap w v => exact ⟨w, v, rfl, h⟩
  | _ => cases h

theorem step_writeBootstrap (h : Thread.step fPanics g p .writeBootstrap = some (g', t)) :
    ∃ w v, p = .won w v ∧ g' = g.write w ∧ t = .bootstrapped v := by
  cases p with
  | won w v =>
    cases h
    exact ⟨w, v, rfl, rfl, rfl⟩
  | _ => cases h

theorem step_storeRunning (h : Thread.step fPanics g p .storeRunning = some (g', t)) :
    ∃ v, p = .bootstrapped v ∧ g' = { g with state := .running } ∧ t = .running v := by
  cases p with
  | bootstrapped v =>
    cases h
    exact ⟨v, rfl, rfl, rfl⟩
  | _ => cases h

theorem step_callF (h : Thread.step fPanics g p .callF = some (g', t)) :
    ∃ v, p = .running v ∧ g' = { g with state := .saving, produced := g.produced ++ [v] } ∧
      t = .saving v := by
  cases p with
  | running v =>
    cases h
    exact ⟨v, rfl, rfl, rfl⟩
  | _ => cases h

theorem step_unwind (h : Thread.step fPanics g p .unwind = some (g', t)) :
    fPanics = true ∧ (∃ v, p = .running v) ∧ g' = g ∧ t = .panicked := by
  cases p with
  | running v =>
    cases fPanics with
    | false => cases h
    | true =>
      cases h
      exact ⟨rfl, ⟨v, rfl⟩, rfl, rfl⟩
  | _ => cases h

theorem step_writeValue (h : Thread.step fPanics g p .writeValue = some (g', t)) :
    ∃ v, p = .saving v ∧ g' = g.write v ∧ t = .written v := by
  cases p with
  | saving v =>
    cases h
    exact ⟨v, rfl, rfl, rfl⟩
  | _ => cases h

theorem step_storeInit (h : Thread.step fPanics g p .storeInit = some (g', t)) :
    ∃ v, p = .written v ∧ g' = { g with state := .init } ∧ t = .returned (.bootstrap v) := by
  cases p with
  | written v =>
    cases h
    exact ⟨v, rfl, rfl, rfl⟩
  | _ => cases h

/-- `get`'s load: it panics on `Poison`, answers `None`, or reads the cell next from a
`Running` or `Init` word. -/
theorem loadPass_cases (g : BootstrapOnceLock α) :
    (g.state = .poison ∧ loadPass g = .panicked) ∨ loadPass g = .returned (.get none) ∨
      ((g.state = .running ∨ g.state = .init) ∧ loadPass g = .loaded) := by
  unfold loadPass
  cases g.state <;> simp

/-- A pass of `bootstrap`'s loop: the exchange takes an `Uncalled` word to `Saving`, or the
word stays and the thread panics on `Poison`, returns the cell's value on `Init`, or goes
round. -/
theorem bootstrapPass_cases {spurious : Bool} {w v : α}
    (h : bootstrapPass spurious g w v = some (g', t)) :
    (g.state = .uncalled ∧ g' = { g with state := .saving } ∧ t = .won w v) ∨
      g' = g ∧ (g.state = .poison ∧ t = .panicked ∨
        (g.state = .init ∧ ∃ d, g.data = some d ∧ t = .returned (.bootstrap d)) ∨
        t = .bootstrap w v) := by
  obtain ⟨state, data, produced, writes⟩ := g
  cases state <;> cases spurious <;>
    simp_all [bootstrapPass, Interleave.compareExchangeWeak, eq_comm]
  -- what is left is the read of the cell on `Init`
  all_goals
    obtain ⟨d, hd, rfl, rfl⟩ := h
    exact ⟨rfl, .inl ⟨d, hd, rfl⟩⟩

end Step

/-! ## The refinement -/

section Refinement

variable {fPanics : Bool} {s : Lock α ι} {ph : Phase α ι}

/-- The lock `s` is in phase `ph`: its shared state is the phase's, and every thread agrees
with the phase. -/
structure Refines (s : Lock α ι) (ph : Phase α ι) : Prop where
  shared_eq : s.shared = ph.lock
  threads : ∀ i, ThreadOk ph i (s.threads i)

theorem refines_init (h : Lock.Init s) : Refines s .uncalled where
  shared_eq := h.1
  threads i := by
    rw [h.2 i]
    exact ThreadOk.passive (fun h => by cases h) rfl (fun hp => by cases hp) (fun _ hp => by cases hp)
      (fun _ hp => by cases hp)

/-- A thread at a place that owns is the phase's owner, at the owner's place. -/
theorem Refines.owner_of_pc (h : Refines s ph) {i : ι} {p : Pc α} (hi : s.threads i = p)
    (hp : p.owns = true) : ph.owner = some i ∧ ph.ownerPc = p := by
  have hown := (h.threads i).owner_of_owns (hi ▸ hp)
  exact ⟨hown, ((h.threads i).owner_pc hown).symm.trans hi⟩

/-- The load of a thread that is not the owner. -/
theorem Refines.threadOk_loadPass (h : Refines s ph) {i : ι} (hown : ph.owner ≠ some i) :
    ThreadOk ph i (loadPass s.shared) := by
  have hstate : s.shared.state = ph.state := by rw [h.shared_eq, Phase.lock_state]
  rcases loadPass_cases s.shared with ⟨hpoison, -⟩ | hnone | ⟨hinit, hloaded⟩
  · exact absurd (hstate.symm.trans hpoison) ph.state_ne_poison
  · rw [hnone]
    exact ThreadOk.passive hown rfl (by simp) (by simp) (by simp)
  · rw [hloaded]
    exact ThreadOk.passive hown rfl (fun _ => Phase.writes_ne_nil_of_state (hstate ▸ hinit))
      (by simp) (by simp)

variable [DecidableEq ι]

/-- A step that leaves the shared state and moves a thread to a place the phase allows keeps
the phase. -/
theorem Refines.stay (h : Refines s ph) {i : ι} {t : Pc α} (ht : ThreadOk ph i t) :
    Refines (s.update i s.shared t) ph where
  shared_eq := h.shared_eq
  threads := Interleave.Sys.forall_update (fun j _ => h.threads j) ht

/-- A move of thread `i` to a place the new phase allows takes the lock to the new phase. -/
theorem Refines.move (h : Refines s ph) {i : ι} {ph' : Phase α ι} {t : Pc α}
    (hm : Phase.Moves fPanics i ph ph') (ht : ThreadOk ph' i t) : Refines (s.update i ph'.lock t) ph' where
  shared_eq := rfl
  threads := Interleave.Sys.forall_update (fun j hj => (h.threads j).of_moves hm hj) ht

/-- A step that moves the phase is an abstract step. -/
theorem Refines.step_move (h : Refines s ph) {i : ι} {ph' : Phase α ι} {t : Pc α}
    (hm : Phase.Moves fPanics i ph ph') (ht : ThreadOk ph' i t) :
    ∃ ph'', Refines (s.update i ph'.lock t) ph'' ∧ Phase.Step fPanics ph ph'' :=
  ⟨ph', h.move hm ht, .move i hm⟩

/-- So is one that keeps it. -/
theorem Refines.step_stay (h : Refines s ph) {i : ι} {t : Pc α} (ht : ThreadOk ph i t) :
    ∃ ph', Refines (s.update i s.shared t) ph' ∧ Phase.Step fPanics ph ph' :=
  ⟨ph, h.stay ht, .stay ph⟩

/-- Every step of a thread keeps the lock refining a phase, which stays or is moved by that
thread. -/
theorem Refines.step (h : Refines s ph) {i : ι} {act : Act α} {g : BootstrapOnceLock α}
    {t : Pc α} (hstep : Thread.step fPanics s.shared (s.threads i) act = some (g, t)) :
    ∃ ph', Refines (s.update i g t) ph' ∧ Phase.Step fPanics ph ph' := by
  cases act with
  | get =>
    obtain ⟨hready, rfl, rfl⟩ := step_get hstep
    have hown : ph.owner ≠ some i := (h.threads i).owner_ne (Pc.owns_of_ready hready)
    exact h.step_stay (h.threadOk_loadPass hown)
  | assumeInitRef =>
    obtain ⟨hi, rfl, x, hx, rfl⟩ := step_assumeInitRef hstep
    have hown : ph.owner ≠ some i := (h.threads i).owner_ne (by rw [hi]; rfl)
    -- the cell holds its last write
    have hmem : x ∈ ph.writes := by
      rw [h.shared_eq] at hx
      exact List.mem_of_getLast? hx
    exact h.step_stay (ThreadOk.passive hown rfl (by simp) (fun _ hp => by cases hp; exact hmem)
      (by simp))
  | bootstrap w v =>
    obtain ⟨hready, rfl, rfl⟩ := step_bootstrap hstep
    have hown : ph.owner ≠ some i := (h.threads i).owner_ne (Pc.owns_of_ready hready)
    exact h.step_stay (ThreadOk.quiet hown (.inr ⟨w, v, rfl⟩))
  | cas spurious =>
    obtain ⟨w, v, hi, hpass⟩ := step_cas hstep
    have hown : ph.owner ≠ some i := (h.threads i).owner_ne (by rw [hi]; rfl)
    have hstate : s.shared.state = ph.state := by rw [h.shared_eq, Phase.lock_state]
    rcases bootstrapPass_cases hpass with ⟨hun, rfl, rfl⟩ | ⟨rfl, hrest⟩
    · -- the exchange succeeded, so `i` owns
      obtain rfl := Phase.eq_uncalled_of_state (hstate.symm.trans hun)
      rw [h.shared_eq]
      exact h.step_move (.win w v) (ThreadOk.ownerPc rfl)
    · rcases hrest with ⟨hpoison, -⟩ | ⟨hinit, d, hd, rfl⟩ | rfl
      · exact absurd (hstate.symm.trans hpoison) ph.state_ne_poison
      · -- an `Init` word: the cell holds the published value
        obtain ⟨b', v', rfl⟩ := Phase.exists_init_of_state (hstate.symm.trans hinit)
        have hdv : d = v' := by
          rw [h.shared_eq] at hd
          exact (Option.some.inj hd).symm
        subst hdv
        exact h.step_stay (ThreadOk.passive hown rfl (by simp) (by simp)
          (fun _ hp => by cases hp; exact ⟨b', rfl⟩))
      · exact h.step_stay (ThreadOk.quiet hown (.inr ⟨w, v, rfl⟩))
  | writeBootstrap =>
    obtain ⟨w, v, hi, rfl, rfl⟩ := step_writeBootstrap hstep
    obtain ⟨hown, hpc⟩ := h.owner_of_pc hi rfl
    obtain rfl := Phase.eq_won_of_ownerPc hown hpc
    rw [h.shared_eq]
    exact h.step_move (.bootstrap w v) (ThreadOk.ownerPc rfl)
  | storeRunning =>
    obtain ⟨v, hi, rfl, rfl⟩ := step_storeRunning hstep
    obtain ⟨hown, hpc⟩ := h.owner_of_pc hi rfl
    obtain ⟨b, rfl⟩ := Phase.exists_bootstrapped_of_ownerPc hown hpc
    rw [h.shared_eq]
    exact h.step_move (.run b v) (ThreadOk.ownerPc rfl)
  | callF =>
    obtain ⟨v, hi, rfl, rfl⟩ := step_callF hstep
    obtain ⟨hown, hpc⟩ := h.owner_of_pc hi rfl
    obtain ⟨b, rfl⟩ := Phase.exists_running_of_ownerPc hown hpc
    rw [h.shared_eq]
    exact h.step_move (.save b v) (ThreadOk.ownerPc rfl)
  | unwind =>
    obtain ⟨hf, ⟨v, hi⟩, rfl, rfl⟩ := step_unwind hstep
    obtain ⟨hown, hpc⟩ := h.owner_of_pc hi rfl
    obtain ⟨b, rfl⟩ := Phase.exists_running_of_ownerPc hown hpc
    -- `f` unwinds: the owner stops and the word stays `Running`
    have hlock : (Phase.running i b v : Phase α ι).lock = (Phase.abandoned b : Phase α ι).lock := rfl
    rw [h.shared_eq, hlock]
    exact h.step_move (.abandon b v hf) (ThreadOk.quiet (fun h => by cases h) (.inl rfl))
  | writeValue =>
    obtain ⟨v, hi, rfl, rfl⟩ := step_writeValue hstep
    obtain ⟨hown, hpc⟩ := h.owner_of_pc hi rfl
    obtain ⟨b, rfl⟩ := Phase.exists_saving_of_ownerPc hown hpc
    rw [h.shared_eq]
    exact h.step_move (.write b v) (ThreadOk.ownerPc rfl)
  | storeInit =>
    obtain ⟨v, hi, rfl, rfl⟩ := step_storeInit hstep
    obtain ⟨hown, hpc⟩ := h.owner_of_pc hi rfl
    obtain ⟨b, rfl⟩ := Phase.exists_written_of_ownerPc hown hpc
    rw [h.shared_eq]
    exact h.step_move (.publish b v) ThreadOk.returned_init

theorem Refines.lockStep {s' : Lock α ι} (h : Refines s ph) (hstep : Lock.Step fPanics s s') :
    ∃ ph', Refines s' ph' ∧ Phase.Step fPanics ph ph' := by
  obtain ⟨i, g, t, ⟨act, hact⟩, rfl⟩ := hstep
  exact h.step hact

/-- Every reachable lock refines a phase, abandoned only if `f` may unwind. -/
theorem refines_of_reachable (h : Transition.Reachable Lock.Init (Lock.Step fPanics) s) :
    ∃ ph, Refines s ph ∧ ∀ b, ph = .abandoned b → fPanics = true := by
  refine h.induction (P := fun s => ∃ ph, Refines s ph ∧ ∀ b, ph = .abandoned b → fPanics = true)
    (fun s hinit => ⟨_, refines_init hinit, fun _ hb => by cases hb⟩) ?_
  rintro s s' ⟨ph, hph, hab⟩ hstep
  obtain ⟨ph', hph', hphStep⟩ := hph.lockStep hstep
  exact ⟨ph', hph', hphStep.fPanics_of_abandoned hab⟩

/-- An abandoned lock stays abandoned: no step stores the word again. -/
theorem Refines.abandoned_run {b : α} {s' : Lock α ι} (h : Refines s (.abandoned b))
    (hrun : Relation.ReflTransGen (Lock.Step fPanics) s s') : Refines s' (.abandoned b) := by
  induction hrun with
  | refl => exact h
  | tail _ hstep ih =>
    obtain ⟨ph', h', hph'⟩ := ih.lockStep hstep
    rwa [Phase.Step.eq_of_abandoned hph'] at h'

end Refinement

/-! ## Safety -/

section Safety

variable {fPanics : Bool} {s : Lock α ι}

/-- What a `BootstrapOnceLock` shared by threads guarantees at a state: the word is never
`Poison`; at most one thread is between a won exchange and its store of `Init`; `f` has
returned at most once; the cell has been written at most twice, the second time with the
value `f` returned; a `get` about to read the cell reads it initialised; a `get` answered a
value written to the cell; and a `bootstrap` returned only `f`'s one value, which the cell
holds under an `Init` word. -/
structure Safe (s : Lock α ι) : Prop where
  state_ne_poison : s.shared.state ≠ .poison
  owner_unique : ∀ i j, (s.threads i).owns = true → (s.threads j).owns = true → i = j
  produced_length_le : s.shared.produced.length ≤ 1
  writes_length_le : s.shared.writes.length ≤ 2
  tail_writes_prefix : s.shared.writes.tail <+: s.shared.produced
  loaded_initialised : ∀ i, s.threads i = .loaded → s.shared.data.isSome
  get_written : ∀ i x, s.threads i = .returned (.get (some x)) → x ∈ s.shared.writes
  bootstrap_init : ∀ i x, s.threads i = .returned (.bootstrap x) →
    s.shared.state = .init ∧ s.shared.produced = [x] ∧ s.shared.data = some x

theorem Refines.safe {ph : Phase α ι} (h : Refines s ph) : Safe s where
  state_ne_poison := by rw [h.shared_eq, Phase.lock_state]; exact ph.state_ne_poison
  owner_unique i j hi hj := by
    have hi' := (h.threads i).owner_of_owns hi
    have hj' := (h.threads j).owner_of_owns hj
    exact Option.some.inj (hi'.symm.trans hj')
  produced_length_le := by rw [h.shared_eq, Phase.lock_produced]; exact ph.produced_length_le
  writes_length_le := by rw [h.shared_eq, Phase.lock_writes]; exact ph.writes_length_le
  tail_writes_prefix := by
    rw [h.shared_eq, Phase.lock_writes, Phase.lock_produced]
    exact ph.tail_writes_prefix
  loaded_initialised i hi := by
    rw [h.shared_eq, Phase.lock_data, List.getLast?_isSome]
    exact (h.threads i).loaded hi
  get_written i x hi := by
    rw [h.shared_eq, Phase.lock_writes]
    exact (h.threads i).returned_get x hi
  bootstrap_init i x hi := by
    obtain ⟨b, rfl⟩ := (h.threads i).returned_bootstrap x hi
    rw [h.shared_eq]
    exact ⟨rfl, rfl, rfl⟩

theorem bootstrapOnceLock_safe [DecidableEq ι] (h : Transition.Reachable Lock.Init (Lock.Step fPanics) s) :
    Safe s := by
  obtain ⟨ph, hph, -⟩ := refines_of_reachable h
  exact hph.safe

/-- A new `BootstrapOnceLock` shared by two threads, with an `f` that may unwind. -/
theorem bootstrapOnceLock_safe_new :
    Safe (⟨BootstrapOnceLock.new, fun _ => .idle⟩ : Lock ℕ (Fin 2)) :=
  bootstrapOnceLock_safe (Transition.Reachable.of_init (r := Lock.Step true) ⟨rfl, fun _ => rfl⟩)

end Safety

/-! ## Runs from a new lock -/

section Runs

variable [DecidableEq ι] {fPanics : Bool} {s : Lock α ι}

/-- A step of a thread is a step of the lock. -/
theorem Lock.step_of_thread {i : ι} {act : Act α} {g : BootstrapOnceLock α} {t : Pc α}
    (h : Thread.step fPanics s.shared (s.threads i) act = some (g, t)) :
    Lock.Step fPanics s (s.update i g t) :=
  ⟨i, g, t, ⟨act, h⟩, rfl⟩

/-- A step of thread `i` from a lock that `i` alone has changed keeps it so. -/
theorem Lock.reachable_update {i : ι} {g g' : BootstrapOnceLock α} {t t' : Pc α}
    (hs : Transition.Reachable Lock.Init (Lock.Step fPanics) (s.update i g t)) (act : Act α)
    (hact : Thread.step fPanics g t act = some (g', t')) :
    Transition.Reachable Lock.Init (Lock.Step fPanics) (s.update i g' t') := by
  have hstep : Thread.step fPanics (s.update i g t).shared ((s.update i g t).threads i) act =
      some (g', t') := by
    rw [Interleave.Sys.update_shared, Interleave.Sys.update_threads_self]
    exact hact
  have hs' := hs.tail (Lock.step_of_thread hstep)
  rwa [Interleave.Sys.update_update_self] at hs'

/-- The new lock with every thread idle. -/
def Lock.new : Lock α ι := ⟨BootstrapOnceLock.new, fun _ => .idle⟩

/-- From a new lock, thread `i` can win the exchange, write `b` and publish it as `Running`,
and be about to call `f`, while every other thread stays idle. -/
theorem reachable_running (i : ι) (b v : α) :
    Transition.Reachable Lock.Init (Lock.Step fPanics)
      ((Lock.new : Lock α ι).update i ⟨.running, some b, [], [b]⟩ (.running v)) := by
  have h₀ : Transition.Reachable Lock.Init (Lock.Step fPanics) (Lock.new : Lock α ι) :=
    .of_init ⟨rfl, fun _ => rfl⟩
  have hcall : Thread.step fPanics (Lock.new : Lock α ι).shared ((Lock.new : Lock α ι).threads i)
      (.bootstrap b v) = some (BootstrapOnceLock.new, .bootstrap b v) := rfl
  have h₁ := h₀.tail (Lock.step_of_thread hcall)
  have h₂ := Lock.reachable_update h₁ (.cas false) rfl
  have h₃ := Lock.reachable_update h₂ .writeBootstrap rfl
  exact Lock.reachable_update h₃ .storeRunning rfl

end Runs

/-! ## `get` races with the overwrite of the cell -/

section Race

variable [DecidableEq ι] {fPanics : Bool}

/-- For any two threads and any values: from a new lock, thread `i` can publish its bootstrap
value `b` as `Running`, thread `j`'s `get` load it and fence, and `i` call `f` and store
`Saving`. Then `j`'s read of the cell and `i`'s write of `f`'s value `v` to it are both
pending, with nothing to order them: the read answers `b` if it goes first and `v` if the
write does. -/
theorem get_races_with_overwrite {i j : ι} (hij : i ≠ j) (b v : α) :
    ∃ s : Lock α ι, Transition.Reachable Lock.Init (Lock.Step fPanics) s ∧
      s.threads j = .loaded ∧ s.threads i = .saving v ∧
      Thread.step fPanics s.shared .loaded .assumeInitRef =
        some (s.shared, .returned (.get (some b))) ∧
      ∃ g, Thread.step fPanics s.shared (.saving v) .writeValue = some (g, .written v) ∧
        Thread.step fPanics g .loaded .assumeInitRef = some (g, .returned (.get (some v))) := by
  set s₄ := (Lock.new : Lock α ι).update i ⟨.running, some b, [], [b]⟩ (.running v) with hs₄
  have h₄ : Transition.Reachable Lock.Init (Lock.Step fPanics) s₄ := reachable_running i b v
  -- `j`'s `get` loads `Running`
  have hj₄ : s₄.threads j = .idle := Interleave.Sys.update_threads_of_ne hij.symm
  have hload : Thread.step fPanics s₄.shared (s₄.threads j) .get = some (s₄.shared, .loaded) := by
    rw [hj₄]
    rfl
  set s₅ := s₄.update j s₄.shared .loaded with hs₅
  have h₅ : Transition.Reachable Lock.Init (Lock.Step fPanics) s₅ :=
    h₄.tail (Lock.step_of_thread hload)
  -- `i` calls `f` and stores `Saving`
  have hi₅ : s₅.threads i = .running v := by
    rw [hs₅, Interleave.Sys.update_threads_of_ne hij, Interleave.Sys.update_threads_self]
  have hcall : Thread.step fPanics s₅.shared (s₅.threads i) .callF =
      some (⟨.saving, some b, [v], [b]⟩, .saving v) := by
    rw [hi₅]
    rfl
  have h₆ := h₅.tail (Lock.step_of_thread hcall)
  refine ⟨_, h₆, ?_, Interleave.Sys.update_threads_self, rfl, _, rfl, rfl⟩
  rw [Interleave.Sys.update_threads_of_ne hij.symm, Interleave.Sys.update_threads_self]

/-- The race between two threads sharing a `BootstrapOnceLock ℕ`, with bootstrap value `1` and
`f`'s value `2`. -/
theorem get_races_with_overwrite_two : (0 : Fin 2) ≠ 1 ∧ ∃ s : Lock ℕ (Fin 2),
    Transition.Reachable Lock.Init (Lock.Step false) s ∧
      s.threads 1 = .loaded ∧ s.threads 0 = .saving 2 ∧
      Thread.step false s.shared .loaded .assumeInitRef =
        some (s.shared, .returned (.get (some 1))) ∧
      ∃ g, Thread.step false s.shared (.saving 2) .writeValue = some (g, .written 2) ∧
        Thread.step false g .loaded .assumeInitRef = some (g, .returned (.get (some 2))) :=
  ⟨by decide, get_races_with_overwrite (by decide) 1 2⟩

end Race

/-! ## An `f` that unwinds leaves the lock `Running` -/

section Unwind

variable [DecidableEq ι] {s s' : Lock α ι}

/-- If `f` may unwind: at a reachable state whose word is `Running` with no thread about to
call `f` (its owner unwound), every later state keeps the word `Running` and the cell as it
is, and no thread has returned from `bootstrap` there. Nothing stores `Poison`, so a
`bootstrap` under way spins for good. -/
theorem unwound_bootstrap_never_returns
    (h : Transition.Reachable Lock.Init (Lock.Step true) s) (hstate : s.shared.state = .running)
    (hunwound : ∀ i v, s.threads i ≠ .running v) (hrun : Relation.ReflTransGen (Lock.Step true) s s') :
    s'.shared.state = .running ∧ s'.shared.data = s.shared.data ∧
      ∀ i x, s'.threads i ≠ .returned (.bootstrap x) := by
  obtain ⟨ph, hph, -⟩ := refines_of_reachable h
  have hphstate : ph.state = .running := by rw [← Phase.lock_state, ← hph.shared_eq, hstate]
  -- a `Running` word with no owner about to call `f` is an abandoned lock
  obtain ⟨b, rfl⟩ : ∃ b, ph = .abandoned b := by
    rcases Phase.state_eq_running hphstate with ⟨o, b, v, rfl⟩ | hab
    · exact absurd ((hph.threads o).owner_pc rfl) (hunwound o v)
    · exact hab
  have h' := hph.abandoned_run hrun
  refine ⟨by rw [h'.shared_eq]; rfl, by rw [h'.shared_eq, hph.shared_eq], fun i x hx => ?_⟩
  obtain ⟨b', hb'⟩ := (h'.threads i).returned_bootstrap x hx
  cases hb'

/-- Thread `0` of two has won the exchange with bootstrap value `1`, published it and unwound
in `f`. -/
def unwoundLock : Lock ℕ (Fin 2) := (Lock.new : Lock ℕ (Fin 2)).update 0 ⟨.running, some 1, [], [1]⟩ .panicked

theorem unwoundLock_stays_running :
    Transition.Reachable Lock.Init (Lock.Step true) unwoundLock ∧
      unwoundLock.shared.state = .running ∧ (∀ i v, unwoundLock.threads i ≠ .running v) ∧
      (unwoundLock.shared.state = .running ∧ unwoundLock.shared.data = unwoundLock.shared.data ∧
        ∀ i x, unwoundLock.threads i ≠ .returned (.bootstrap x)) := by
  have hreach : Transition.Reachable Lock.Init (Lock.Step true) unwoundLock :=
    Lock.reachable_update (reachable_running 0 1 2) .unwind rfl
  have hunwound : ∀ i v, unwoundLock.threads i ≠ .running v := by
    intro i v
    fin_cases i <;> simp [unwoundLock, Lock.new, Interleave.Sys.update]
  exact ⟨hreach, rfl, hunwound, unwound_bootstrap_never_returns hreach rfl hunwound .refl⟩

end Unwind

/-! ## Every `bootstrap` can return -/

section Progress

variable [DecidableEq ι] {s : Lock α ι} {ph : Phase α ι} {i o : ι} {b v w v' : α}

/-- A thread inside `bootstrap`: in its loop, or running the initialisation. -/
def Pc.inBootstrap : Pc α → Bool
  | .bootstrap .. | .won .. | .bootstrapped _ | .running _ | .saving _ | .written _ => true
  | _ => false

/-- Some run from `s` in which `f` returns brings thread `i`'s `bootstrap` to return. -/
def CanReturn (s : Lock α ι) (i : ι) : Prop :=
  ∃ s' x, Relation.ReflTransGen (Lock.Step false) s s' ∧ s'.threads i = .returned (.bootstrap x)

theorem CanReturn.head_run {s' : Lock α ι} (hrun : Relation.ReflTransGen (Lock.Step false) s s')
    (h : CanReturn s' i) : CanReturn s i := by
  obtain ⟨s'', x, hrun', hi⟩ := h
  exact ⟨s'', x, hrun.trans hrun', hi⟩

/-- A run of the owner `o` alone from `s` to the published phase of `v`, with `o`'s
`bootstrap` returned. -/
def Finishes (s : Lock α ι) (o : ι) (b v : α) : Prop :=
  ∃ s', Relation.ReflTransGen (Lock.Step false) s s' ∧ Refines s' (.init b v) ∧
    s'.threads o = .returned (.bootstrap v) ∧ ∀ j, j ≠ o → s'.threads j = s.threads j

theorem Finishes.head {s₁ : Lock α ι} (hstep : Lock.Step false s s₁)
    (hframe : ∀ j, j ≠ o → s₁.threads j = s.threads j) (h : Finishes s₁ o b v) :
    Finishes s o b v := by
  obtain ⟨s', hrun, h', ho, hframe'⟩ := h
  exact ⟨s', .head hstep hrun, h', ho, fun j hj => (hframe' j hj).trans (hframe j hj)⟩

/-- The owner's step from its place moves the phase, and no other thread. -/
theorem Refines.exists_owner_step (h : Refines s ph) (hown : ph.owner = some o)
    {ph' : Phase α ι} {t : Pc α} (hm : Phase.Moves false o ph ph') (ht : ThreadOk ph' o t)
    (act : Act α) (hact : Thread.step false ph.lock ph.ownerPc act = some (ph'.lock, t)) :
    ∃ s', Lock.Step false s s' ∧ Refines s' ph' ∧ s'.threads o = t ∧
      ∀ j, j ≠ o → s'.threads j = s.threads j := by
  have hstep : Thread.step false s.shared (s.threads o) act = some (ph'.lock, t) := by
    rw [h.shared_eq, (h.threads o).owner_pc hown]
    exact hact
  exact ⟨_, Lock.step_of_thread hstep, h.move hm ht, Interleave.Sys.update_threads_self,
    fun j hj => Interleave.Sys.update_threads_of_ne hj⟩

/-! From each of its places the owner finishes, by its next step and the finish from there. -/

theorem Refines.finishes_written (h : Refines s (.written o b v)) : Finishes s o b v := by
  obtain ⟨s', hstep, h', ho, hframe⟩ :=
    h.exists_owner_step rfl (.publish b v) ThreadOk.returned_init .storeInit rfl
  exact ⟨s', .single hstep, h', ho, hframe⟩

theorem Refines.finishes_saving (h : Refines s (.saving o b v)) : Finishes s o b v := by
  obtain ⟨s₁, hstep, h₁, -, hframe⟩ :=
    h.exists_owner_step rfl (.write b v) (ThreadOk.ownerPc rfl) .writeValue rfl
  exact h₁.finishes_written.head hstep hframe

theorem Refines.finishes_running (h : Refines s (.running o b v)) : Finishes s o b v := by
  obtain ⟨s₁, hstep, h₁, -, hframe⟩ :=
    h.exists_owner_step rfl (.save b v) (ThreadOk.ownerPc rfl) .callF rfl
  exact h₁.finishes_saving.head hstep hframe

theorem Refines.finishes_bootstrapped (h : Refines s (.bootstrapped o b v)) : Finishes s o b v := by
  obtain ⟨s₁, hstep, h₁, -, hframe⟩ :=
    h.exists_owner_step rfl (.run b v) (ThreadOk.ownerPc rfl) .storeRunning rfl
  exact h₁.finishes_running.head hstep hframe

theorem Refines.finishes_won (h : Refines s (.won o b v)) : Finishes s o b v := by
  obtain ⟨s₁, hstep, h₁, -, hframe⟩ :=
    h.exists_owner_step rfl (.bootstrap b v) (ThreadOk.ownerPc rfl) .writeBootstrap rfl
  exact h₁.finishes_bootstrapped.head hstep hframe

/-- The owner, wherever it is, finishes. -/
theorem Refines.finishes (h : Refines s ph) (hown : ph.owner = some o) : ∃ b v, Finishes s o b v := by
  cases ph with
  | won o' b v => cases hown; exact ⟨b, v, h.finishes_won⟩
  | bootstrapped o' b v => cases hown; exact ⟨b, v, h.finishes_bootstrapped⟩
  | running o' b v => cases hown; exact ⟨b, v, h.finishes_running⟩
  | saving o' b v => cases hown; exact ⟨b, v, h.finishes_saving⟩
  | written o' b v => cases hown; exact ⟨b, v, h.finishes_written⟩
  | _ => cases hown

/-- A thread in the loop returns from an `Init` word at its next pass. -/
theorem Refines.canReturn_of_init (h : Refines s (.init b v)) (hi : s.threads i = .bootstrap w v') :
    CanReturn s i := by
  have hstep : Thread.step false s.shared (s.threads i) (.cas false) =
      some ((Phase.init b v : Phase α ι).lock, .returned (.bootstrap v)) := by
    rw [hi, h.shared_eq]
    rfl
  exact ⟨_, v, .single (Lock.step_of_thread hstep), Interleave.Sys.update_threads_self⟩

/-- A thread in `bootstrap`'s loop can be brought to return unless the lock was abandoned: it
wins the exchange on `Uncalled` and runs the initialisation itself, or the owner finishes and
the thread's next pass reads `Init`. -/
theorem Refines.canReturn_of_bootstrap (h : Refines s ph) (hab : ∀ b, ph ≠ .abandoned b)
    (hi : s.threads i = .bootstrap w v') : CanReturn s i := by
  cases hown : ph.owner with
  | some o =>
    -- the thread in the loop is not the owner
    have hne : i ≠ o := by
      rintro rfl
      exact (h.threads i).owner_ne (by rw [hi]; rfl) hown
    obtain ⟨b, v, s', hrun, h', -, hframe⟩ := h.finishes hown
    exact CanReturn.head_run hrun (h'.canReturn_of_init ((hframe i hne).trans hi))
  | none =>
    cases ph with
    | uncalled =>
      have hstep : Thread.step false s.shared (s.threads i) (.cas false) =
          some ((Phase.won i w v' : Phase α ι).lock, .won w v') := by
        rw [hi, h.shared_eq]
        rfl
      have h₁ := h.move (Phase.Moves.win w v' : Phase.Moves false i _ _) (ThreadOk.ownerPc rfl)
      obtain ⟨s', hrun, -, hi', -⟩ := h₁.finishes_won
      exact ⟨s', v', .head (Lock.step_of_thread hstep) hrun, hi'⟩
    | abandoned b => exact absurd rfl (hab b)
    | init b v => exact h.canReturn_of_init hi
    | _ => cases hown

/-- A thread at an owner's place finishes its `bootstrap`. -/
theorem Refines.canReturn_of_owns {p : Pc α} (h : Refines s ph) (hi : s.threads i = p)
    (hp : p.owns = true) : CanReturn s i := by
  obtain ⟨hown, -⟩ := h.owner_of_pc hi hp
  obtain ⟨b, v, s', hrun, -, ho, -⟩ := h.finishes hown
  exact ⟨s', v, hrun, ho⟩

/-- With an `f` that returns, every `bootstrap` under way at a reachable state, spinning in
its loop or running the initialisation, can be brought to return. -/
theorem bootstrap_can_return (h : Transition.Reachable Lock.Init (Lock.Step false) s)
    (hi : (s.threads i).inBootstrap = true) : CanReturn s i := by
  obtain ⟨ph, hph, hab⟩ := refines_of_reachable h
  cases hp : s.threads i with
  | bootstrap w v => exact hph.canReturn_of_bootstrap (fun b hb => Bool.false_ne_true (hab b hb)) hp
  | won w v => exact hph.canReturn_of_owns hp rfl
  | bootstrapped v => exact hph.canReturn_of_owns hp rfl
  | running v => exact hph.canReturn_of_owns hp rfl
  | saving v => exact hph.canReturn_of_owns hp rfl
  | written v => exact hph.canReturn_of_owns hp rfl
  | _ =>
    rw [hp] at hi
    cases hi

/-- Thread `0` of two has called `bootstrap` with bootstrap value `1` and an `f` producing
`2`. -/
def startedLock : Lock ℕ (Fin 2) := (Lock.new : Lock ℕ (Fin 2)).update 0 BootstrapOnceLock.new (.bootstrap 1 2)

theorem startedLock_can_return :
    Transition.Reachable Lock.Init (Lock.Step false) startedLock ∧
      (startedLock.threads 0).inBootstrap = true ∧ CanReturn startedLock 0 := by
  have hcall : Thread.step false (Lock.new : Lock ℕ (Fin 2)).shared ((Lock.new : Lock ℕ (Fin 2)).threads 0)
      (.bootstrap 1 2) = some (BootstrapOnceLock.new, .bootstrap 1 2) := rfl
  have hreach : Transition.Reachable Lock.Init (Lock.Step false) startedLock :=
    (Transition.Reachable.of_init ⟨rfl, fun _ => rfl⟩).tail (Lock.step_of_thread hcall)
  exact ⟨hreach, rfl, bootstrap_can_return hreach rfl⟩

end Progress

end Popcorn.Sync.Bootstrap
