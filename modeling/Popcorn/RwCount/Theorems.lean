import Mathlib
import Popcorn.Lib.Run
import Popcorn.RwCount.Word

/-!
# The lock word counts the guards

The invariant, `Encodes`: the lock word is `pack W U R`, where `W`, `U` and `R` are the
numbers of write, upgradable and shared guards held over all threads, `W` and `U` are at
most one, and a writer is alone. Each atomic step of a thread keeps it
(`Thread.step_encodes`): the step changes the word and that thread's guards by the same
amounts. So it holds in every reachable state of the lock, for any number of threads and
any interleaving (`rwcount_word_invariant`).

A thread inside a loop also keeps the value it read while it held its guard
(`Thread.Held`); with it, no step ever reaches the `BUG` assertions or the `expect` of a
write release, and the only panics left are the reader-count overflows
(`Thread.step_panicked`, `panic_only_on_reader_overflow`).
-/

namespace Popcorn.RwCount

/-- The word encodes `R` shared, `U` upgradable and `W` write guards. -/
structure Encodes (word : BitVec 64) (R U W : Nat) : Prop where
  word_eq : word = pack (decide (W = 1)) (decide (U = 1)) R
  writers_le : W ≤ 1
  upgraders_le : U ≤ 1
  readers_lt : R < 2 ^ 62
  exclusive : W = 1 → U = 0 ∧ R = 0

section Encodes

variable {word : BitVec 64} {R U W : Nat}

theorem Encodes.of_pack {w u : Bool} {r : Nat} (hW : W ≤ 1) (hU : U ≤ 1) (hR : R < 2 ^ 62)
    (hx : W = 1 → U = 0 ∧ R = 0) (hw : decide (W = 1) = w) (hu : decide (U = 1) = u)
    (hr : R = r) : Encodes (pack w u r) R U W := by
  subst hw hu hr
  exact ⟨rfl, hW, hU, hR, hx⟩

/-- With a writer the word is exactly the write bit. -/
theorem Encodes.of_writer (h : Encodes word R U W) (hw : 0 < W) :
    W = 1 ∧ U = 0 ∧ R = 0 ∧ word = writeBitMask := by
  have hW : W = 1 := by have := h.writers_le; omega
  obtain ⟨hU, hR⟩ := h.exclusive hW
  refine ⟨hW, hU, hR, ?_⟩
  rw [h.word_eq, writeBitMask_eq, hW, hU, hR]
  rfl

/-- With a reader there is no writer. -/
theorem Encodes.of_reader (h : Encodes word R U W) (hr : 0 < R) :
    W = 0 ∧ word = pack false (decide (U = 1)) R := by
  have hW : W ≠ 1 := fun hW => by have := (h.exclusive hW).2; omega
  have hW0 : W = 0 := by have := h.writers_le; omega
  refine ⟨hW0, ?_⟩
  rw [h.word_eq, decide_eq_false hW]

/-- With an upgradable reader there is no writer. -/
theorem Encodes.of_upgrader (h : Encodes word R U W) (hu : 0 < U) :
    W = 0 ∧ U = 1 ∧ word = pack false true R := by
  have hU : U = 1 := by have := h.upgraders_le; omega
  have hW : W ≠ 1 := fun hW => by have := (h.exclusive hW).1; omega
  have hW0 : W = 0 := by have := h.writers_le; omega
  refine ⟨hW0, hU, ?_⟩
  rw [h.word_eq, decide_eq_false hW, hU]
  rfl

/-- A zero word: nothing is held. -/
theorem Encodes.of_zero (h : Encodes 0 R U W) : R = 0 ∧ U = 0 ∧ W = 0 := by
  have hfields := h.word_eq
  rw [eq_comm, pack_eq_zero_iff h.readers_lt, decide_eq_false_iff_not,
    decide_eq_false_iff_not] at hfields
  have := h.writers_le
  have := h.upgraders_le
  omega

/-! The words a single access writes, with the guards each stands for. -/

theorem encodes_zero (hR : R = 0) (hU : U = 0) (hW : W = 0) : Encodes 0 R U W := by
  subst hR hU hW
  rw [zero_eq_pack]
  exact Encodes.of_pack (by norm_num) (by norm_num) (by norm_num) (fun h => absurd h (by norm_num))
    rfl rfl rfl

theorem encodes_one (hR : R = 1) (hU : U = 0) (hW : W = 0) : Encodes 1 R U W := by
  subst hR hU hW
  rw [one_eq_pack]
  exact Encodes.of_pack (by norm_num) (by norm_num) (by norm_num) (fun h => absurd h (by norm_num))
    rfl rfl rfl

theorem encodes_upgradeableBitMask (hR : R = 0) (hU : U = 1) (hW : W = 0) :
    Encodes upgradeableBitMask R U W := by
  subst hR hU hW
  rw [upgradeableBitMask_eq]
  exact Encodes.of_pack (by norm_num) (by norm_num) (by norm_num) (fun h => absurd h (by norm_num))
    rfl rfl rfl

theorem encodes_writeBitMask (hR : R = 0) (hU : U = 0) (hW : W = 1) :
    Encodes writeBitMask R U W := by
  subst hR hU hW
  rw [writeBitMask_eq]
  exact Encodes.of_pack (by norm_num) (by norm_num) (by norm_num) (fun _ => ⟨rfl, rfl⟩) rfl rfl rfl

theorem toNat_decide_eq_one {n : Nat} (h : n ≤ 1) : (decide (n = 1)).toNat = n := by
  rcases Nat.le_one_iff_eq_zero_or_eq_one.mp h with rfl | rfl <;> rfl

/-- The word as a number: `W * 2^63 + U * 2^62 + R`. -/
theorem Encodes.toNat_eq (h : Encodes word R U W) : word.toNat = W * 2 ^ 63 + U * 2 ^ 62 + R := by
  rw [h.word_eq, toNat_pack h.readers_lt, toNat_decide_eq_one h.writers_le,
    toNat_decide_eq_one h.upgraders_le]

end Encodes

/-! ## One step of one thread -/

/-- What a thread inside a loop has kept since it started: the guard it is giving up, and a
value read while it held that guard. -/
def Thread.Held (t : Thread) : Prop :=
  match t.pc with
  | .loop .unlockShared oldValue =>
    0 < t.guards.shared ∧ ∃ u r, oldValue = pack false u r ∧ 0 < r ∧ r < 2 ^ 62
  | .loop .unlockUpgradable oldValue =>
    0 < t.guards.upgradable ∧ ∃ r, oldValue = pack false true r ∧ r < 2 ^ 62
  | .loop .downgradeUpgradable oldValue =>
    0 < t.guards.upgradable ∧ ∃ r, oldValue = pack false true r ∧ r < 2 ^ 62
  | _ => True

section Step

variable {d : Bool} {word word' oldValue : BitVec 64} {g : Guards} {t t' : Thread}
  {op : LoopOp} {R U W : Nat}

/-- A step is the start of an operation from `idle`, or a pass of the loop the thread is in. -/
theorem Thread.step_cases {act : Act} (h : t.step d word act = some (word', t')) :
    (∃ o, t.pc = .idle ∧ o.issuable t.guards ∧ start d o word t.guards = (word', t')) ∨
      ∃ op oldValue, t.pc = .loop op oldValue ∧ pass d op oldValue word t.guards = (word', t') := by
  cases act with
  | start o =>
    cases hpc : t.pc with
    | idle =>
      simp only [Thread.step, hpc] at h
      split_ifs at h with hiss
      exact .inl ⟨o, rfl, hiss, Option.some.inj h⟩
    | loop op oldValue => simp [Thread.step, hpc] at h
    | panicked => simp [Thread.step, hpc] at h
  | pass =>
    cases hpc : t.pc with
    | loop op oldValue =>
      simp only [Thread.step, hpc] at h
      exact .inr ⟨op, oldValue, rfl, Option.some.inj h⟩
    | idle => simp [Thread.step, hpc] at h
    | panicked => simp [Thread.step, hpc] at h

/-- A pass either leaves the word alone (a panic, a return, or a failed compare-exchange that
goes round again with the word it read), or writes the new value over the value it read. -/
theorem pass_cases (h : pass d op oldValue word g = (word', t')) :
    word' = word ∧ (t' = ⟨.panicked, g⟩ ∨ t' = ⟨.idle, g⟩ ∨ t' = ⟨.loop op word, g⟩) ∨
      ∃ new, op.pass d oldValue = .cas new ∧ word = oldValue ∧ word' = new ∧
        t' = ⟨.idle, op.op.apply g⟩ := by
  unfold pass compareExchange at h
  split at h
  · simp only [Prod.mk.injEq] at h
    exact .inl ⟨h.1.symm, .inl h.2.symm⟩
  · simp only [Prod.mk.injEq] at h
    exact .inl ⟨h.1.symm, .inr (.inl h.2.symm)⟩
  · next new hpass =>
    split_ifs at h with hword
    · simp only [Prod.mk.injEq] at h
      exact .inr ⟨new, hpass, hword, h.1.symm, h.2.symm⟩
    · simp only [Prod.mk.injEq] at h
      exact .inl ⟨h.1.symm, .inr (.inr h.2.symm)⟩

theorem releaseWrite_writeBitMask (value : BitVec 64) :
    releaseWrite d writeBitMask value = some value := by
  cases d <;> simp [releaseWrite, compareExchange]

theorem Thread.Held.issuable (h : t.Held) (hpc : t.pc = .loop op oldValue) :
    op.op.issuable t.guards := by
  cases op <;> simp_all [Thread.Held, LoopOp.op, Op.issuable]

section Rest

/-! `R`, `U` and `W` are the guards the other threads hold. -/

variable (he : Encodes word (R + g.shared) (U + g.upgradable) (W + g.write))
include he

/-- A thread that enters a loop, or reads the word again in it, keeps what `Held` asks. -/
theorem held_loop (hiss : op.op.issuable g) : Thread.Held ⟨.loop op word, g⟩ := by
  cases op with
  | unlockShared =>
    have hs : 0 < g.shared := by simpa [LoopOp.op, Op.issuable] using hiss
    obtain ⟨-, hword⟩ := he.of_reader (by omega)
    exact ⟨hs, _, _, hword, by omega, he.readers_lt⟩
  | unlockUpgradable =>
    have hu : 0 < g.upgradable := by simpa [LoopOp.op, Op.issuable] using hiss
    obtain ⟨-, -, hword⟩ := he.of_upgrader (by omega)
    exact ⟨hu, _, hword, he.readers_lt⟩
  | downgradeUpgradable =>
    have hu : 0 < g.upgradable := by simpa [LoopOp.op, Op.issuable] using hiss
    obtain ⟨-, -, hword⟩ := he.of_upgrader (by omega)
    exact ⟨hu, _, hword, he.readers_lt⟩
  | tryLockShared => trivial
  | tryLockUpgradable => trivial

/-- A successful compare-exchange of a loop, on the value the word had, keeps the encoding
with the guards of the finished operation. -/
theorem cas_encodes {new : BitVec 64} (hiss : op.op.issuable g) (hpass : op.pass d word = .cas new) :
    Encodes new (R + (op.op.apply g).shared) (U + (op.op.apply g).upgradable)
      (W + (op.op.apply g).write) := by
  have hword := he.word_eq
  cases op with
  | tryLockShared =>
    simp only [LoopOp.pass, hword, tryLockSharedPass_pack he.readers_lt] at hpass
    split_ifs at hpass with hfull hw
    cases hpass
    simp only [LoopOp.op, Op.apply]
    have hW : W + g.write ≠ 1 := by simpa using hw
    apply Encodes.of_pack he.writers_le he.upgraders_le (by have := he.readers_lt; omega)
      (fun h => absurd h hW) (decide_eq_false hW) rfl (by omega)
  | unlockShared =>
    have hs : 0 < g.shared := by simpa [LoopOp.op, Op.issuable] using hiss
    obtain ⟨hW, hword⟩ := he.of_reader (by omega)
    simp only [LoopOp.pass, hword, unlockSharedPass_pack d (by omega) he.readers_lt,
      Pass.cas.injEq] at hpass
    subst hpass
    simp only [LoopOp.op, Op.apply]
    apply Encodes.of_pack he.writers_le he.upgraders_le (by have := he.readers_lt; omega)
      (fun h => by omega) (decide_eq_false (by omega)) rfl (by omega)
  | tryLockUpgradable =>
    simp only [LoopOp.pass, hword, tryLockUpgradablePass_pack he.readers_lt] at hpass
    split_ifs at hpass with hwu
    cases hpass
    simp only [Bool.or_eq_true, decide_eq_true_eq, not_or] at hwu
    have hU := he.upgraders_le
    simp only [LoopOp.op, Op.apply]
    apply Encodes.of_pack he.writers_le (by omega) he.readers_lt (fun h => absurd h hwu.1)
      (decide_eq_false hwu.1) (decide_eq_true (by omega)) rfl
  | unlockUpgradable =>
    have hu : 0 < g.upgradable := by simpa [LoopOp.op, Op.issuable] using hiss
    obtain ⟨hW, hU, hword⟩ := he.of_upgrader (by omega)
    simp only [LoopOp.pass, hword, unlockUpgradablePass_pack d he.readers_lt,
      Pass.cas.injEq] at hpass
    subst hpass
    simp only [LoopOp.op, Op.apply]
    apply Encodes.of_pack he.writers_le (by omega) he.readers_lt (fun h => by omega)
      (decide_eq_false (by omega)) (decide_eq_false (by omega)) rfl
  | downgradeUpgradable =>
    have hu : 0 < g.upgradable := by simpa [LoopOp.op, Op.issuable] using hiss
    obtain ⟨hW, hU, hword⟩ := he.of_upgrader (by omega)
    simp only [LoopOp.pass, hword, downgradeUpgradablePass_pack d he.readers_lt] at hpass
    split_ifs at hpass with hfull
    cases hpass
    simp only [LoopOp.op, Op.apply]
    apply Encodes.of_pack he.writers_le (by omega) (by have := he.readers_lt; omega)
      (fun h => by omega) (decide_eq_false (by omega)) (decide_eq_false (by omega)) (by omega)

/-- A write release by the writer goes through: the word is the write bit, so the debug
build's compare-exchange succeeds, and the word becomes `value`. -/
theorem finishRelease_releaseWrite (hw : 0 < g.write) (o : Op) (value : BitVec 64) :
    finishRelease o word g (releaseWrite d word value) = (value, ⟨.idle, o.apply g⟩) := by
  obtain ⟨-, -, -, hword⟩ := he.of_writer (by omega)
  rw [hword, releaseWrite_writeBitMask]
  rfl

/-- The first step of an operation keeps the encoding. -/
theorem start_encodes {o : Op} (hiss : o.issuable g) (hstart : start d o word g = (word', t')) :
    Encodes word' (R + t'.guards.shared) (U + t'.guards.upgradable) (W + t'.guards.write) ∧
      t'.Held := by
  cases o with
  | tryLockShared | unlockShared | tryLockUpgradable | unlockUpgradable | downgradeUpgradable =>
    -- the loops begin with a load
    simp only [start, Prod.mk.injEq] at hstart
    obtain ⟨rfl, rfl⟩ := hstart
    exact ⟨he, held_loop he hiss⟩
  | tryLockExclusive =>
    simp only [start, tryLockExclusive, compareExchange] at hstart
    split_ifs at hstart with hzero
    · -- the word was zero: nothing was held, and now one writer
      simp only [finishCas, Prod.mk.injEq] at hstart
      obtain ⟨rfl, rfl⟩ := hstart
      obtain ⟨hR, hU, hW⟩ := (hzero ▸ he).of_zero
      simp only [Op.apply]
      exact ⟨encodes_writeBitMask (by omega) (by omega) (by omega), trivial⟩
    · simp only [finishCas, Prod.mk.injEq] at hstart
      obtain ⟨rfl, rfl⟩ := hstart
      exact ⟨he, trivial⟩
  | tryUpgrade =>
    have hu : 0 < g.upgradable := by simpa [Op.issuable] using hiss
    obtain ⟨hW, hU, hword⟩ := he.of_upgrader (by omega)
    simp only [start, tryUpgrade, compareExchange] at hstart
    split_ifs at hstart with hmask
    · -- the upgradable reader was alone: it becomes the writer
      simp only [finishCas, Prod.mk.injEq] at hstart
      obtain ⟨rfl, rfl⟩ := hstart
      rw [hword, upgradeableBitMask_eq, pack_inj he.readers_lt (by norm_num)] at hmask
      simp only [Op.apply]
      exact ⟨encodes_writeBitMask (by omega) (by omega) (by omega), trivial⟩
    · simp only [finishCas, Prod.mk.injEq] at hstart
      obtain ⟨rfl, rfl⟩ := hstart
      exact ⟨he, trivial⟩
  | unlockExclusive =>
    have hw : 0 < g.write := by simpa [Op.issuable] using hiss
    obtain ⟨hW, hU, hR, -⟩ := he.of_writer (by omega)
    simp only [start, unlockExclusive] at hstart
    rw [finishRelease_releaseWrite he hw, Prod.mk.injEq] at hstart
    obtain ⟨rfl, rfl⟩ := hstart
    simp only [Op.apply]
    exact ⟨encodes_zero (by omega) (by omega) (by omega), trivial⟩
  | downgrade =>
    -- the writer keeps a shared guard
    have hw : 0 < g.write := by simpa [Op.issuable] using hiss
    obtain ⟨hW, hU, hR, -⟩ := he.of_writer (by omega)
    simp only [start, downgrade] at hstart
    rw [finishRelease_releaseWrite he hw, Prod.mk.injEq] at hstart
    obtain ⟨rfl, rfl⟩ := hstart
    simp only [Op.apply]
    exact ⟨encodes_one (by omega) (by omega) (by omega), trivial⟩
  | downgradeToUpgradable =>
    -- the writer keeps the upgradable guard
    have hw : 0 < g.write := by simpa [Op.issuable] using hiss
    obtain ⟨hW, hU, hR, -⟩ := he.of_writer (by omega)
    simp only [start, downgradeToUpgradable] at hstart
    rw [finishRelease_releaseWrite he hw, Prod.mk.injEq] at hstart
    obtain ⟨rfl, rfl⟩ := hstart
    simp only [Op.apply]
    exact ⟨encodes_upgradeableBitMask (by omega) (by omega) (by omega), trivial⟩

/-- No operation panics on its first step: the only ones that can are the write releases, and
a writer's word is the write bit. -/
theorem start_ne_panicked {o : Op} (hiss : o.issuable g) : (start d o word g).2.pc ≠ .panicked := by
  cases o with
  | unlockExclusive | downgrade | downgradeToUpgradable =>
    have hw : 0 < g.write := by simpa [Op.issuable] using hiss
    simp [start, unlockExclusive, downgrade, downgradeToUpgradable,
      finishRelease_releaseWrite he hw]
  | tryLockExclusive | tryUpgrade =>
    simp only [start, tryLockExclusive, tryUpgrade, compareExchange]
    split_ifs <;> simp [finishCas]
  | tryLockShared | unlockShared | tryLockUpgradable | unlockUpgradable | downgradeUpgradable =>
    simp [start]

end Rest

/-- The passes that can panic on a value read while the guard was held are the two that add a
reader, and only on a full reader count: the `BUG` checks of the unlock paths never fire. -/
theorem pass_eq_panic (hheld : Thread.Held ⟨.loop op oldValue, g⟩)
    (h : op.pass d oldValue = .panic) :
    (op = .tryLockShared ∨ op = .downgradeUpgradable) ∧ oldValue &&& readCountMask = readCountMask := by
  cases op with
  | tryLockShared =>
    simp only [LoopOp.pass, tryLockSharedPass] at h
    split_ifs at h with hfull
    exact ⟨.inl rfl, hfull⟩
  | unlockShared =>
    obtain ⟨-, u, r, rfl, hr, hr'⟩ := hheld
    simp [LoopOp.pass, unlockSharedPass_pack d hr hr'] at h
  | tryLockUpgradable =>
    simp only [LoopOp.pass, tryLockUpgradablePass] at h
    split_ifs at h
  | unlockUpgradable =>
    obtain ⟨-, r, rfl, hr⟩ := hheld
    simp [LoopOp.pass, unlockUpgradablePass_pack d hr] at h
  | downgradeUpgradable =>
    obtain ⟨-, r, rfl, hr⟩ := hheld
    simp only [LoopOp.pass, downgradeUpgradablePass_pack d hr] at h
    split_ifs at h with hfull
    refine ⟨.inr rfl, ?_⟩
    rw [pack_and_readCountMask hr, readCountMask_eq, hfull]

theorem pass_panicked (h : pass d op oldValue word g = (word', t')) (hpanic : t'.pc = .panicked) :
    op.pass d oldValue = .panic := by
  rcases pass_cases h with ⟨-, rfl | rfl | rfl⟩ | ⟨new, -, -, -, rfl⟩
  · unfold pass at h
    split at h
    · next hpass => exact hpass
    · simp at h
    · split at h <;> simp at h
  all_goals simp at hpanic

section Thread

variable {act : Act}
  (he : Encodes word (R + t.guards.shared) (U + t.guards.upgradable) (W + t.guards.write))
include he

/-- One step of a thread keeps the encoding, with the other threads' guards unchanged, and
keeps what a thread in a loop has read. -/
theorem Thread.step_encodes (hheld : t.Held) (hstep : t.step d word act = some (word', t')) :
    Encodes word' (R + t'.guards.shared) (U + t'.guards.upgradable) (W + t'.guards.write) ∧
      t'.Held := by
  rcases Thread.step_cases hstep with ⟨o, -, hiss, hstart⟩ | ⟨op, oldValue, hpc, hpass⟩
  · exact start_encodes he hiss hstart
  · have hiss := hheld.issuable hpc
    rcases pass_cases hpass with ⟨rfl, rfl | rfl | rfl⟩ | ⟨new, hcas, rfl, rfl, rfl⟩
    · exact ⟨he, trivial⟩
    · exact ⟨he, trivial⟩
    · -- the compare-exchange failed: the loop goes on with the word it read
      exact ⟨he, held_loop he hiss⟩
    · exact ⟨cas_encodes he hiss hcas, trivial⟩

/-- A step that stops a thread with a panic is a pass of `try_lock_shared` or
`downgrade_upgradable` on a value whose reader count was full. -/
theorem Thread.step_panicked (hheld : t.Held) (hstep : t.step d word act = some (word', t'))
    (hpanic : t'.pc = .panicked) :
    ∃ op oldValue, t.pc = .loop op oldValue ∧ (op = .tryLockShared ∨ op = .downgradeUpgradable) ∧
      oldValue &&& readCountMask = readCountMask := by
  rcases Thread.step_cases hstep with ⟨o, -, hiss, hstart⟩ | ⟨op, oldValue, hpc, hpass⟩
  · have ht' : t' = (start d o word t.guards).2 := by rw [hstart]
    exact absurd (ht' ▸ hpanic) (start_ne_panicked he hiss)
  · have hheld' : Thread.Held ⟨.loop op oldValue, t.guards⟩ := by
      rw [← hpc]
      exact hheld
    exact ⟨op, oldValue, hpc, pass_eq_panic hheld' (pass_panicked hpass hpanic)⟩

end Thread

end Step

/-! ## The lock: every thread, every interleaving -/

section Lock

variable {ι : Type} [Fintype ι] [DecidableEq ι] {d : Bool} {s s' : Lock ι}

/-- The guards of one kind held over all threads. -/
def guardCount (f : Guards → Nat) (s : Lock ι) : Nat :=
  Interleave.total (fun t => f t.guards) s

/-- The shared guards held. -/
def readers (s : Lock ι) : Nat := guardCount Guards.shared s

/-- The upgradable guards held. -/
def upgraders (s : Lock ι) : Nat := guardCount Guards.upgradable s

/-- The write guards held. -/
def writers (s : Lock ι) : Nat := guardCount Guards.write s

/-- A count is what the other threads hold and thread `i`'s own, before and after a step of
`i`. -/
theorem guardCount_split (f : Guards → Nat) (s : Lock ι) (i : ι) (word : BitVec 64) (t : Thread) :
    ∃ rest, guardCount f s = rest + f (s.threads i).guards ∧
      guardCount f (s.update i word t) = rest + f t.guards :=
  ⟨guardCount f s - f (s.threads i).guards,
    (Nat.sub_add_cancel (Interleave.le_total (fun t : Thread => f t.guards) s i)).symm,
    Interleave.total_update_eq _ s i word t⟩

omit [DecidableEq ι] in
theorem guardCount_pos_iff (f : Guards → Nat) (s : Lock ι) :
    0 < guardCount f s ↔ ∃ i, 0 < f (s.threads i).guards :=
  Interleave.total_pos_iff _ s

/-- The invariant of the lock: the word counts the guards, and every thread in a loop has
kept what it read. -/
structure Inv (s : Lock ι) : Prop where
  encodes : Encodes s.shared (readers s) (upgraders s) (writers s)
  held : ∀ i, (s.threads i).Held

omit [DecidableEq ι] in
theorem inv_init (h : Lock.Init s) : Inv s := by
  obtain ⟨hword, hthreads⟩ := h
  have hnone : ∀ f : Guards → Nat, f ⟨0, 0, 0⟩ = 0 → guardCount f s = 0 := by
    intro f hf
    simp [guardCount, Interleave.total, hthreads, hf]
  refine ⟨?_, fun i => by rw [hthreads i]; trivial⟩
  rw [hword]
  exact encodes_zero (hnone _ rfl) (hnone _ rfl) (hnone _ rfl)

/-- The word seen by thread `i`: what the others hold, and `i`'s guards; a step of `i` that
keeps that encoding keeps the lock's. -/
theorem Inv.split (hs : Inv s) (i : ι) :
    ∃ R U W, Encodes s.shared (R + (s.threads i).guards.shared)
        (U + (s.threads i).guards.upgradable) (W + (s.threads i).guards.write) ∧
      ∀ word t, Encodes word (R + t.guards.shared) (U + t.guards.upgradable) (W + t.guards.write) →
        Encodes (s.update i word t).shared (readers (s.update i word t))
          (upgraders (s.update i word t)) (writers (s.update i word t)) := by
  obtain ⟨R, hR, -⟩ := guardCount_split Guards.shared s i 0 (s.threads i)
  obtain ⟨U, hU, -⟩ := guardCount_split Guards.upgradable s i 0 (s.threads i)
  obtain ⟨W, hW, -⟩ := guardCount_split Guards.write s i 0 (s.threads i)
  refine ⟨R, U, W, ?_, fun word t he => ?_⟩
  · have he := hs.encodes
    rwa [readers, upgraders, writers, hR, hU, hW] at he
  · obtain ⟨R', hR₀, hR'⟩ := guardCount_split Guards.shared s i word t
    obtain ⟨U', hU₀, hU'⟩ := guardCount_split Guards.upgradable s i word t
    obtain ⟨W', hW₀, hW'⟩ := guardCount_split Guards.write s i word t
    -- the others' part is the same whichever step `i` takes
    obtain rfl : R' = R := by omega
    obtain rfl : U' = U := by omega
    obtain rfl : W' = W := by omega
    rw [readers, upgraders, writers, hR', hU', hW']
    exact he

theorem Inv.step (hs : Inv s) (hstep : Lock.Step d s s') : Inv s' := by
  obtain ⟨i, word', t', ⟨act, hact⟩, rfl⟩ := hstep
  obtain ⟨R, U, W, he, hupdate⟩ := hs.split i
  obtain ⟨he', hheld'⟩ := Thread.step_encodes he (hs.held i) hact
  refine ⟨hupdate word' t' he', fun j => ?_⟩
  by_cases hj : j = i
  · subst hj
    rw [Interleave.Sys.update_threads_self]
    exact hheld'
  · rw [Interleave.Sys.update_threads_of_ne hj]
    exact hs.held j

theorem inv_of_reachable (h : Transition.Reachable Lock.Init (Lock.Step d) s) : Inv s :=
  h.induction (fun _ => inv_init) (fun _ _ hs hstep => hs.step hstep)

/-- What the word says about the guards: it is `W * 2^63 + U * 2^62 + R`, with `W` the write
guards held, `U` the upgradable ones and `R` the shared ones; `W` is one exactly when some
thread holds the write guard, `U` likewise, and a writer is alone. -/
structure WordInvariant (s : Lock ι) : Prop where
  word_toNat : s.shared.toNat = writers s * 2 ^ 63 + upgraders s * 2 ^ 62 + readers s
  writers_le_one : writers s ≤ 1
  upgraders_le_one : upgraders s ≤ 1
  writers_eq_one_iff : writers s = 1 ↔ ∃ i, 0 < (s.threads i).guards.write
  upgraders_eq_one_iff : upgraders s = 1 ↔ ∃ i, 0 < (s.threads i).guards.upgradable
  writer_alone : writers s = 1 → upgraders s = 0 ∧ readers s = 0

omit [DecidableEq ι] in
theorem Inv.wordInvariant (hs : Inv s) : WordInvariant s where
  word_toNat := hs.encodes.toNat_eq
  writers_le_one := hs.encodes.writers_le
  upgraders_le_one := hs.encodes.upgraders_le
  writers_eq_one_iff := by
    rw [← guardCount_pos_iff Guards.write s]
    have := hs.encodes.writers_le
    unfold writers at this ⊢
    omega
  upgraders_eq_one_iff := by
    rw [← guardCount_pos_iff Guards.upgradable s]
    have := hs.encodes.upgraders_le
    unfold upgraders at this ⊢
    omega
  writer_alone := hs.encodes.exclusive

theorem rwcount_word_invariant (h : Transition.Reachable Lock.Init (Lock.Step d) s) :
    WordInvariant s :=
  (inv_of_reachable h).wordInvariant

/-- One thread takes a shared guard: the load, then the compare-exchange from `0` to `1`. -/
theorem rwcount_word_invariant_one_reader :
    WordInvariant ((Interleave.Sys.update ⟨0, fun _ => ⟨.idle, ⟨0, 0, 0⟩⟩⟩ () 0
      ⟨.loop .tryLockShared 0, ⟨0, 0, 0⟩⟩ : Lock Unit).update () 1 ⟨.idle, ⟨1, 0, 0⟩⟩) :=
  rwcount_word_invariant (d := true) ⟨_, ⟨rfl, fun _ => rfl⟩,
    .tail (.single ⟨(), _, _, ⟨.start .tryLockShared, by decide⟩, rfl⟩)
      ⟨(), _, _, ⟨.pass, by decide⟩, rfl⟩⟩

/-- The only panics a thread can reach are the reader-count overflows: with debug assertions
on, no `BUG` check of an unlock and no `expect` of a write release ever fires. -/
theorem panic_only_on_reader_overflow (h : Transition.Reachable Lock.Init (Lock.Step d) s)
    (hstep : Lock.Step d s s') {i : ι} (hi : (s.threads i).pc ≠ .panicked)
    (hi' : (s'.threads i).pc = .panicked) :
    ∃ op oldValue, (s.threads i).pc = .loop op oldValue ∧
      (op = .tryLockShared ∨ op = .downgradeUpgradable) ∧
      oldValue &&& readCountMask = readCountMask := by
  have hs := inv_of_reachable h
  obtain ⟨j, word', t', ⟨act, hact⟩, rfl⟩ := hstep
  by_cases hj : i = j
  · subst hj
    obtain ⟨R, U, W, he, -⟩ := hs.split i
    rw [Interleave.Sys.update_threads_self] at hi'
    exact Thread.step_panicked he (hs.held i) hact hi'
  · rw [Interleave.Sys.update_threads_of_ne hj] at hi'
    exact absurd hi' hi

end Lock

/-! ## A reader overflow

One thread that takes shared guards one after the other counts the word up to the top of the
read count; its next `try_lock_shared` panics. -/

/-- One thread holding `r` shared guards, the word counting them. -/
def sharedHolder (r : Nat) : Lock Unit := ⟨pack false false r, fun _ => ⟨.idle, ⟨r, 0, 0⟩⟩⟩

/-- The thread of `sharedHolder r` after the load of a `try_lock_shared`. -/
def sharedHolderLoading (r : Nat) : Lock Unit :=
  ⟨pack false false r, fun _ => ⟨.loop .tryLockShared (pack false false r), ⟨r, 0, 0⟩⟩⟩

/-- With one thread, an update replaces the thread. -/
theorem update_unit {σ τ : Type} (s : Interleave.Sys σ τ Unit) (g : σ) (t : τ) :
    s.update () g t = ⟨g, fun _ => t⟩ := by
  unfold Interleave.Sys.update
  congr 1

/-- The thread starts a `try_lock_shared` with its load of the word. -/
theorem sharedHolder_load (d : Bool) (r : Nat) :
    Lock.Step d (sharedHolder r) (sharedHolderLoading r) :=
  ⟨(), _, _, ⟨.start .tryLockShared, rfl⟩, (update_unit _ _ _).symm⟩

/-- Below the top of the read count, the compare-exchange takes one more shared guard. -/
theorem sharedHolder_pass {d : Bool} {r : Nat} (hr : r + 1 < 2 ^ 62) :
    Lock.Step d (sharedHolderLoading r) (sharedHolder (r + 1)) := by
  have hpass : tryLockSharedPass (pack false false r) = .cas (pack false false (r + 1)) := by
    rw [tryLockSharedPass_pack (by omega), if_neg (by omega), if_neg Bool.false_ne_true]
  refine ⟨(), _, _, ⟨.pass, ?_⟩, (update_unit _ _ _).symm⟩
  simp only [sharedHolderLoading, Thread.step, pass, LoopOp.pass, hpass, compareExchange, if_pos]
  rfl

/-- A thread reaches every count of shared guards the word holds. -/
theorem sharedHolder_reachable (d : Bool) :
    ∀ r < 2 ^ 62, Transition.Reachable Lock.Init (Lock.Step d) (sharedHolder r)
  | 0, _ => Transition.Reachable.of_init ⟨by rw [sharedHolder, ← zero_eq_pack], fun _ => rfl⟩
  | r + 1, hr => by
    obtain ⟨s₀, hinit, hpath⟩ := sharedHolder_reachable d r (by omega)
    exact ⟨s₀, hinit, (hpath.tail (sharedHolder_load d r)).tail (sharedHolder_pass hr)⟩

/-- At the top of the read count, the next `try_lock_shared` panics. -/
theorem panic_only_on_reader_overflow_at_top :
    ∃ op oldValue, ((sharedHolderLoading (2 ^ 62 - 1)).threads ()).pc = .loop op oldValue ∧
      (op = .tryLockShared ∨ op = .downgradeUpgradable) ∧
      oldValue &&& readCountMask = readCountMask := by
  have hpanic : tryLockSharedPass (pack false false (2 ^ 62 - 1)) = .panic := by
    rw [tryLockSharedPass_pack (by norm_num), if_pos rfl]
  obtain ⟨s₀, hinit, hpath⟩ := sharedHolder_reachable true (2 ^ 62 - 1) (by norm_num)
  -- the loading reader's pass finds the count full and panics
  have hstep : Lock.Step true (sharedHolderLoading (2 ^ 62 - 1))
      ⟨pack false false (2 ^ 62 - 1), fun _ => ⟨.panicked, ⟨2 ^ 62 - 1, 0, 0⟩⟩⟩ := by
    refine ⟨(), _, _, ⟨.pass, ?_⟩, (update_unit _ _ _).symm⟩
    simp only [sharedHolderLoading, Thread.step, pass, LoopOp.pass, hpanic]
  exact panic_only_on_reader_overflow ⟨s₀, hinit, hpath.tail (sharedHolder_load true _)⟩ hstep
    (i := ()) (by simp [sharedHolderLoading]) rfl

end Popcorn.RwCount
