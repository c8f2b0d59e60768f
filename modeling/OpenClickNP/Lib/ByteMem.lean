import Mathlib.Algebra.Order.Ring.Nat
import Mathlib.Data.Nat.ModEq
import Mathlib.Tactic.Ring

/-!
# Byte-addressed memory, little-endian

`load m off n` is the number the `n` bytes at `off` spell, `store m off n v` writes the `n` low
bytes of `v` there. A load sees the store to the same place (`load_store`), no store to another
place (`load_store_of_disjoint`), and splits where the accesses of two widths meet (`load_add`).
-/

namespace ByteMem

abbrev Mem := Nat → UInt8

/-- Byte `i` of `v`. -/
def byteAt (v i : Nat) : UInt8 := UInt8.ofNat (v / 256 ^ i)

def load (m : Mem) (off : Nat) : Nat → Nat
  | 0 => 0
  | n + 1 => load m off n + 256 ^ n * (m (off + n)).toNat

def store (m : Mem) (off n v : Nat) : Mem := fun a =>
  if off ≤ a ∧ a < off + n then byteAt v (a - off) else m a

theorem toNat_byteAt (v i : Nat) : (byteAt v i).toNat = v / 256 ^ i % 256 := by
  simp [byteAt]

theorem load_lt (m : Mem) (off n : Nat) : load m off n < 256 ^ n := by
  induction n with
  | zero => simp [load]
  | succ n ih =>
    have hb : (m (off + n)).toNat ≤ 255 := Nat.le_of_lt_succ (m (off + n)).toNat_lt
    have hmul : 256 ^ n * (m (off + n)).toNat ≤ 256 ^ n * 255 := Nat.mul_le_mul_left _ hb
    rw [load, pow_succ]
    omega

theorem load_congr {m m' : Mem} {off off' n : Nat} (h : ∀ i < n, m (off + i) = m' (off' + i)) :
    load m off n = load m' off' n := by
  induction n with
  | zero => rfl
  | succ n ih =>
    rw [load, load, ih (fun i hi => h i (Nat.lt_succ_of_lt hi)), h n (Nat.lt_succ_self n)]

/-- A load of `a + b` bytes is a load of the low `a` and of the high `b`. -/
theorem load_add (m : Mem) (off a b : Nat) :
    load m off (a + b) = load m off a + 256 ^ a * load m (off + a) b := by
  induction b with
  | zero => simp [load]
  | succ b ih =>
    rw [← Nat.add_assoc, load, ih, load, Nat.add_assoc off a b]
    ring

/-- A narrower load at the place of a store sees the low bytes stored. -/
theorem load_store_of_le {m : Mem} {off n v k : Nat} (hk : k ≤ n) :
    load (store m off n v) off k = v % 256 ^ k := by
  induction k with
  | zero => simp [load, Nat.mod_one]
  | succ k ih =>
    have hin : off ≤ off + k ∧ off + k < off + n := by omega
    rw [load, ih (by omega), store, if_pos hin, Nat.add_sub_cancel_left, toNat_byteAt,
      pow_succ, Nat.mod_mul]

theorem load_store (m : Mem) (off n v : Nat) : load (store m off n v) off n = v % 256 ^ n :=
  load_store_of_le le_rfl

/-- The bytes of a number that has been loaded are those in the memory. -/
theorem byteAt_load (m : Mem) (off : Nat) {n i : Nat} (hi : i < n) :
    byteAt (load m off n) i = m (off + i) := by
  have hlow := load_lt m off i
  have hsplit : load m off n = load m off i
      + 256 ^ i * ((m (off + i)).toNat + 256 * load m (off + (i + 1)) (n - i - 1)) := by
    conv_lhs => rw [show n = (i + 1) + (n - i - 1) by omega]
    rw [load_add, load]
    ring
  apply UInt8.toNat_inj.mp
  rw [toNat_byteAt, hsplit, Nat.add_mul_div_left _ _ (Nat.pow_pos (by decide)),
    Nat.div_eq_of_lt hlow, Nat.zero_add, Nat.add_mul_mod_self_left]
  exact Nat.mod_eq_of_lt (m (off + i)).toNat_lt

theorem store_load (m : Mem) (off n : Nat) : store m off n (load m off n) = m := by
  funext a
  unfold store
  split
  · rename_i hin
    rw [byteAt_load m off (by omega), Nat.add_sub_cancel' hin.1]
  · rfl

theorem load_store_of_disjoint {m : Mem} {off n v off' k : Nat}
    (h : off' + k ≤ off ∨ off + n ≤ off') : load (store m off n v) off' k = load m off' k := by
  refine load_congr fun i hi => ?_
  rw [store, if_neg]
  omega

theorem byteAt_mod {v n i : Nat} (hi : i < n) : byteAt (v % 256 ^ n) i = byteAt v i := by
  have hpow : 256 ^ n = 256 ^ i * (256 * 256 ^ (n - i - 1)) := by
    rw [← pow_succ', ← pow_add]
    congr 1
    omega
  have hdiv : v % 256 ^ n / 256 ^ i % 256 = v / 256 ^ i % 256 := by
    rw [hpow, Nat.mod_mul_right_div_self, Nat.mod_mul_right_mod]
  apply UInt8.toNat_inj.mp
  rw [toNat_byteAt, toNat_byteAt, hdiv]

theorem store_mod (m : Mem) (off n v : Nat) : store m off n (v % 256 ^ n) = store m off n v := by
  funext a
  unfold store
  split
  · exact byteAt_mod (by omega)
  · rfl

/-- Two adjacent stores of the low and the high part are one store. -/
theorem store_store_add (m : Mem) (off a b v : Nat) :
    store (store m off a v) (off + a) b (v / 256 ^ a) = store m off (a + b) v := by
  funext x
  unfold store
  by_cases hhigh : off + a ≤ x ∧ x < off + a + b
  · rw [if_pos hhigh, if_pos (by omega), byteAt, byteAt, Nat.div_div_eq_div_mul, ← pow_add]
    congr 3
    omega
  · rw [if_neg hhigh]
    by_cases hlow : off ≤ x ∧ x < off + a
    · rw [if_pos hlow, if_pos (by omega)]
    · rw [if_neg hlow, if_neg (by omega)]

/-! ## Arrays -/

/-- The elements `vs`, each `w` bytes wide, one after the other from `off` on. -/
def storeArray (m : Mem) (off w : Nat) : List Nat → Mem
  | [] => m
  | v :: vs => storeArray (store m off w v) (off + w) w vs

theorem load_storeArray_of_disjoint {m : Mem} {off w off' k : Nat} {vs : List Nat}
    (h : off' + k ≤ off ∨ off + w * vs.length ≤ off') :
    load (storeArray m off w vs) off' k = load m off' k := by
  induction vs generalizing m off with
  | nil => rfl
  | cons v vs ih =>
    rw [List.length_cons, Nat.mul_succ] at h
    rw [storeArray, ih (by omega), load_store_of_disjoint (by omega)]

theorem load_storeArray {m : Mem} {off w i : Nat} {vs : List Nat} (hi : i < vs.length) :
    load (storeArray m off w vs) (off + w * i) w = vs[i] % 256 ^ w := by
  induction vs generalizing m off i with
  | nil => cases hi
  | cons v vs ih =>
    cases i with
    | zero =>
      rw [storeArray, load_storeArray_of_disjoint (by omega)]
      exact load_store m off w v
    | succ i =>
      rw [storeArray, Nat.mul_succ, show off + (w * i + w) = off + w + w * i by omega,
        ih (Nat.lt_of_succ_lt_succ hi)]
      rfl

/-! ## The natural layout of a C structure -/

/-- The next multiple of `a`. -/
def alignUp (off a : Nat) : Nat := (off + a - 1) / a * a

/-- Offsets of fields given by the size of their scalar type, which is also its alignment, and
their number of elements. -/
def fieldOffsets (off : Nat) : List (Nat × Nat) → List Nat
  | [] => []
  | (size, n) :: fs => alignUp off size :: fieldOffsets (alignUp off size + size * n) fs

end ByteMem
