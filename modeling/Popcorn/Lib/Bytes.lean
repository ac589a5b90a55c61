import Mathlib

/-!
# Byte buffers

A buffer is a list of bytes. A Rust slice `data[off..off + w]` is the window of `w` bytes at
`off`, and exists only when it lies inside the buffer (`window`; the slice panics
otherwise). A multi-byte field of a header is read little-endian, as the digits of a number
in base 256 (`Nat.ofDigits`), so a field of `w` bytes is below `256 ^ w` (`field_lt`).

A window of the buffer with its first `n` bytes dropped is a window of the buffer further on
(`window_drop`), and a field that lies in the first `n` bytes reads the same in them
(`field_take`): the fields of a header read through `data[..size]` are fields of the buffer.

A byte masked with `1 << k` is non-zero exactly when bit `k` of it is set
(`and_one_shiftLeft_ne_zero`).

A store of `bytes` at `off` inside the buffer (`write`) replaces the bytes it covers and keeps
every other (`getElem?_write`); a field reads only its own bytes (`field_congr`), so a field
over the store reads what was stored (`field_write_self`) and one away from it reads as
before (`field_write_of_disjoint`). An integer is stored as its `w` low bytes, least
significant first (`toLE`), which read back as it is below `256 ^ w` (`ofLE_toLE`). Of
stores made in turn at disjoint places (`writeAll`), each reads back what it stored
(`field_writeAll_of_mem`), and a byte none covers is as before (`getElem?_writeAll_of_not_mem`).
-/

namespace Bytes

/-- The natural with the given little-endian bytes. -/
def ofLE (l : List UInt8) : ℕ := Nat.ofDigits 256 (l.map UInt8.toNat)

/-- The little-endian field of `w` bytes at `off`. -/
def field (data : List UInt8) (off w : ℕ) : ℕ := ofLE ((data.drop off).take w)

/-- The `w` bytes at `off`, when they lie inside `data`. -/
def window (data : List UInt8) (off w : ℕ) : Option (List UInt8) :=
  if off + w ≤ data.length then some ((data.drop off).take w) else none

theorem ofLE_lt (l : List UInt8) : ofLE l < 256 ^ l.length := by
  have hdigits : ∀ x ∈ l.map UInt8.toNat, x < 256 := by
    intro x hx
    obtain ⟨b, -, rfl⟩ := List.mem_map.mp hx
    exact b.toNat_lt
  have h := Nat.ofDigits_lt_base_pow_length (by norm_num) hdigits
  rwa [List.length_map] at h

theorem field_lt (data : List UInt8) (off w : ℕ) : field data off w < 256 ^ w := by
  have hlen : ((data.drop off).take w).length ≤ w := List.length_take_le _ _
  calc field data off w < 256 ^ ((data.drop off).take w).length := ofLE_lt _
    _ ≤ 256 ^ w := Nat.pow_le_pow_right (by norm_num) hlen

theorem field_take {data : List UInt8} {off w n : ℕ} (h : off + w ≤ n) :
    field (data.take n) off w = field data off w := by
  unfold field
  rw [List.drop_take, List.take_take, Nat.min_eq_left (by omega)]

theorem window_eq_some_iff {data l : List UInt8} {off w : ℕ} :
    window data off w = some l ↔ off + w ≤ data.length ∧ l = (data.drop off).take w := by
  unfold window
  split <;> simp_all [eq_comm]

theorem window_eq_none_iff {data : List UInt8} {off w : ℕ} :
    window data off w = none ↔ data.length < off + w := by
  unfold window
  split <;> simp_all

theorem length_of_window {data l : List UInt8} {off w : ℕ} (h : window data off w = some l) :
    l.length = w := by
  obtain ⟨hle, rfl⟩ := window_eq_some_iff.mp h
  rw [List.length_take, List.length_drop]
  omega

theorem getElem?_of_window {data l : List UInt8} {off w : ℕ} (h : window data off w = some l)
    {i : ℕ} (hi : i < w) : l[i]? = data[off + i]? := by
  obtain ⟨-, rfl⟩ := window_eq_some_iff.mp h
  rw [List.getElem?_take_of_lt hi, List.getElem?_drop]

theorem window_drop {data : List UInt8} {n : ℕ} (hn : n ≤ data.length) (off w : ℕ) :
    window (data.drop n) off w = window data (n + off) w := by
  unfold window
  rw [List.length_drop, List.drop_drop]
  by_cases h : off + w ≤ data.length - n
  · rw [if_pos h, if_pos (by omega)]
  · rw [if_neg h, if_neg (by omega)]

theorem and_one_shiftLeft_ne_zero (b : UInt8) {k : ℕ} (hk : k < 8) :
    decide (b &&& 1 <<< k.toUInt8 ≠ 0) = b.toNat.testBit k := by
  have hpow : ((1 : UInt8) <<< k.toUInt8).toNat = 2 ^ k := by
    simp only [UInt8.toNat_shiftLeft, UInt8.reduceToNat, Nat.toUInt8, UInt8.toNat_ofNat',
      Nat.one_shiftLeft, Nat.mod_eq_of_lt (show k < 2 ^ 8 by omega), Nat.mod_eq_of_lt hk]
    exact Nat.mod_eq_of_lt (Nat.pow_lt_pow_right (by decide) hk)
  have hand : (b &&& 1 <<< k.toUInt8).toNat = (b.toNat.testBit k).toNat * 2 ^ k := by
    rw [UInt8.toNat_and, hpow, Nat.and_two_pow]
  cases hb : b.toNat.testBit k
  · simp [← UInt8.toNat_inj, hand, hb]
  · simp [← UInt8.toNat_inj, hand, hb]

/-! ## Writing -/

/-- `v.to_le_bytes()` of a `w`-byte integer: the `w` low bytes of `v`, the least significant
first. -/
def toLE (v : ℕ) : ℕ → List UInt8
  | 0 => []
  | w + 1 => (v % 256).toUInt8 :: toLE (v / 256) w

/-- A store of `bytes` at `off`: the buffer with the bytes from `off` on replaced by them. -/
def write (data : List UInt8) (off : ℕ) (bytes : List UInt8) : List UInt8 :=
  data.take off ++ bytes ++ data.drop (off + bytes.length)

@[simp] theorem length_toLE (v w : ℕ) : (toLE v w).length = w := by
  induction w generalizing v with
  | zero => rfl
  | succ w ih => simp [toLE, ih]

/-- The bytes of `v` read back: `v` below `256 ^ w`. -/
@[simp] theorem ofLE_toLE (v w : ℕ) : ofLE (toLE v w) = v % 256 ^ w := by
  induction w generalizing v with
  | zero =>
    rw [pow_zero, Nat.mod_one]
    rfl
  | succ w ih =>
    have hlow : ((v % 256).toUInt8).toNat = v % 256 := by simp
    have hcons : ofLE (toLE v (w + 1)) = v % 256 + 256 * ofLE (toLE (v / 256) w) := by
      simp only [toLE, ofLE, List.map_cons, Nat.ofDigits_cons, hlow]
    rw [hcons, ih, pow_succ', Nat.mod_mul]

section Write

variable {data bytes : List UInt8} {off : ℕ}

theorem length_write (h : off + bytes.length ≤ data.length) :
    (write data off bytes).length = data.length := by
  simp only [write, List.length_append, List.length_take, List.length_drop]
  omega

/-- A store changes the bytes it covers, and only them. -/
theorem getElem?_write (h : off + bytes.length ≤ data.length) (i : ℕ) :
    (write data off bytes)[i]? =
      if off ≤ i ∧ i < off + bytes.length then bytes[i - off]? else data[i]? := by
  have htake : (data.take off).length = off := by
    rw [List.length_take]
    omega
  unfold write
  by_cases hlo : i < off
  · -- before the store
    rw [List.append_assoc, List.getElem?_append_left (by omega), List.getElem?_take,
      if_pos hlo, if_neg (by omega)]
  · rw [List.append_assoc, List.getElem?_append_right (by omega), htake]
    by_cases hhi : i < off + bytes.length
    · -- inside the store
      rw [List.getElem?_append_left (by omega), if_pos ⟨by omega, hhi⟩]
    · -- after it
      rw [List.getElem?_append_right (by omega), List.getElem?_drop, if_neg (by omega)]
      congr 1
      omega

theorem getElem?_write_of_not_mem (h : off + bytes.length ≤ data.length) {i : ℕ}
    (hi : i < off ∨ off + bytes.length ≤ i) : (write data off bytes)[i]? = data[i]? := by
  rw [getElem?_write h, if_neg (by omega)]

/-- A field reads only its own bytes. -/
theorem field_congr {data' : List UInt8} {off w : ℕ}
    (h : ∀ i, off ≤ i → i < off + w → data[i]? = data'[i]?) :
    field data off w = field data' off w := by
  unfold field
  congr 1
  apply List.ext_getElem?
  intro i
  rw [List.getElem?_take, List.getElem?_take, List.getElem?_drop, List.getElem?_drop]
  split_ifs with hi
  · exact h (off + i) (by omega) (by omega)
  · rfl

/-- The field a store covers reads the bytes stored. -/
theorem field_write_self (h : off + bytes.length ≤ data.length) :
    field (write data off bytes) off bytes.length = ofLE bytes := by
  unfold field
  congr 1
  apply List.ext_getElem?
  intro i
  rw [List.getElem?_take, List.getElem?_drop, getElem?_write h]
  by_cases hi : i < bytes.length
  · rw [if_pos hi, if_pos ⟨by omega, by omega⟩, Nat.add_sub_cancel_left]
  · rw [if_neg hi, List.getElem?_eq_none (by omega)]

/-- A field away from a store reads as before it. -/
theorem field_write_of_disjoint (h : off + bytes.length ≤ data.length) {off' w : ℕ}
    (hdisj : off' + w ≤ off ∨ off + bytes.length ≤ off') :
    field (write data off bytes) off' w = field data off' w :=
  field_congr fun _ hlo hhi => getElem?_write_of_not_mem h (by omega)

/-- A second store over the same bytes replaces the first. -/
theorem write_write_self (h : off + bytes.length ≤ data.length) {bytes' : List UInt8}
    (hlen : bytes'.length = bytes.length) :
    write (write data off bytes) off bytes' = write data off bytes' := by
  have h' : off + bytes'.length ≤ data.length := by
    rw [hlen]
    exact h
  have h'' : off + bytes'.length ≤ (write data off bytes).length := by
    rw [length_write h]
    exact h'
  apply List.ext_getElem?
  intro i
  rw [getElem?_write h'', getElem?_write h', getElem?_write h, hlen]
  split_ifs <;> rfl

/-! ### Several stores -/

/-- Stores made in turn, each a place and its bytes. -/
def writeAll (data : List UInt8) (stores : List (ℕ × List UInt8)) : List UInt8 :=
  stores.foldl (fun data s => write data s.1 s.2) data

theorem length_writeAll :
    ∀ {stores : List (ℕ × List UInt8)} {data : List UInt8},
      (∀ s ∈ stores, s.1 + s.2.length ≤ data.length) → (writeAll data stores).length = data.length := by
  intro stores
  induction stores with
  | nil =>
    intro _ _
    rfl
  | cons s stores ih =>
    intro data hfit
    have hlen := length_write (hfit s List.mem_cons_self)
    have hrest : ∀ t ∈ stores, t.1 + t.2.length ≤ (write data s.1 s.2).length := fun t ht => by
      rw [hlen]
      exact hfit t (List.mem_cons_of_mem _ ht)
    exact (ih hrest).trans hlen

/-- A byte no store covers is as before the stores. -/
theorem getElem?_writeAll_of_not_mem :
    ∀ {stores : List (ℕ × List UInt8)} {data : List UInt8},
      (∀ s ∈ stores, s.1 + s.2.length ≤ data.length) → ∀ {i : ℕ},
      (∀ s ∈ stores, i < s.1 ∨ s.1 + s.2.length ≤ i) → (writeAll data stores)[i]? = data[i]? := by
  intro stores
  induction stores with
  | nil =>
    intro _ _ _ _
    rfl
  | cons s stores ih =>
    intro data hfit i hi
    have hs := hfit s List.mem_cons_self
    have hrest : ∀ t ∈ stores, t.1 + t.2.length ≤ (write data s.1 s.2).length := fun t ht => by
      rw [length_write hs]
      exact hfit t (List.mem_cons_of_mem _ ht)
    calc (writeAll data (s :: stores))[i]? = (writeAll (write data s.1 s.2) stores)[i]? := rfl
      _ = (write data s.1 s.2)[i]? := ih hrest fun t ht => hi t (List.mem_cons_of_mem _ ht)
      _ = data[i]? := getElem?_write_of_not_mem hs (hi s List.mem_cons_self)

/-- Among stores at disjoint places, each reads back what it stored. -/
theorem field_writeAll_of_mem :
    ∀ {stores : List (ℕ × List UInt8)} {data : List UInt8},
      (∀ s ∈ stores, s.1 + s.2.length ≤ data.length) →
      stores.Pairwise (fun s t => s.1 + s.2.length ≤ t.1 ∨ t.1 + t.2.length ≤ s.1) →
      ∀ {s}, s ∈ stores → field (writeAll data stores) s.1 s.2.length = ofLE s.2 := by
  intro stores
  induction stores with
  | nil =>
    intro _ _ _ s hs
    exact (List.not_mem_nil hs).elim
  | cons t stores ih =>
    intro data hfit hdisj s hs
    have ht := hfit t List.mem_cons_self
    have hrest : ∀ u ∈ stores, u.1 + u.2.length ≤ (write data t.1 t.2).length := fun u hu => by
      rw [length_write ht]
      exact hfit u (List.mem_cons_of_mem _ hu)
    obtain ⟨hapart, hdisj⟩ := List.pairwise_cons.mp hdisj
    rcases List.mem_cons.mp hs with rfl | hs
    · -- the later stores lie away from this one
      calc field (writeAll (write data s.1 s.2) stores) s.1 s.2.length
          = field (write data s.1 s.2) s.1 s.2.length := field_congr fun i hlo hhi =>
            getElem?_writeAll_of_not_mem hrest fun u hu => by
              have := hapart u hu
              omega
        _ = ofLE s.2 := field_write_self ht
    · exact ih hrest hdisj hs

end Write

end Bytes
