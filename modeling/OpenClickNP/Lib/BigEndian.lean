import Mathlib.Data.Nat.Digits.Lemmas
import Mathlib.Tactic.Ring

/-!
# Big-endian bytes

`bytes n v` spells the low `8 * n` bits of `v`, the highest byte first, and `value` reads a byte
string back. Strings of one length and the numbers they spell determine each other
(`value_bytes`, `bytes_value`).
-/

namespace BigEndian

/-- The number that the bytes spell. -/
def value (l : List UInt8) : Nat := l.foldl (fun acc b => 256 * acc + b.toNat) 0

/-- The `n` lowest bytes of `v`. -/
def bytes : Nat → Nat → List UInt8
  | 0, _ => []
  | n + 1, v => bytes n (v / 256) ++ [UInt8.ofNat v]

@[simp] theorem value_nil : value [] = 0 := rfl

theorem value_concat (l : List UInt8) (b : UInt8) : value (l ++ [b]) = 256 * value l + b.toNat := by
  simp [value]

@[simp] theorem length_bytes (n v : Nat) : (bytes n v).length = n := by
  induction n generalizing v with
  | zero => rfl
  | succ n ih => rw [bytes, List.length_append, ih, List.length_singleton]

/-- The bytes in front count for more. Induction on the bytes behind, from the last one. -/
theorem value_append (a b : List UInt8) : value (a ++ b) = value a * 256 ^ b.length + value b := by
  induction b using List.reverseRecOn with
  | nil => simp
  | append_singleton b x ih =>
    rw [← List.append_assoc, value_concat, value_concat, ih, List.length_append,
      List.length_singleton, pow_succ]
    ring

theorem value_lt (l : List UInt8) : value l < 256 ^ l.length := by
  induction l using List.reverseRecOn with
  | nil => exact Nat.one_pos
  | append_singleton l x ih =>
    have hx := x.toNat_lt
    rw [value_concat, List.length_append, List.length_singleton, pow_succ]
    omega

theorem value_bytes (n v : Nat) : value (bytes n v) = v % 256 ^ n := by
  induction n generalizing v with
  | zero => simp [bytes, Nat.mod_one]
  | succ n ih =>
    have hdigit : (UInt8.ofNat v).toNat = v % 256 := UInt8.toNat_ofNat'
    rw [bytes, value_concat, ih, hdigit, pow_succ', Nat.mod_mul]
    omega

theorem bytes_value (l : List UInt8) : bytes l.length (value l) = l := by
  induction l using List.reverseRecOn with
  | nil => rfl
  | append_singleton l x ih =>
    have hx := x.toNat_lt
    have hdiv : (256 * value l + x.toNat) / 256 = value l := by omega
    have hbyte : UInt8.ofNat (256 * value l + x.toNat) = x := by
      apply UInt8.toNat_inj.mp
      rw [UInt8.toNat_ofNat']
      omega
    rw [value_concat, List.length_append, List.length_singleton, bytes, hdiv, ih, hbyte]

/-- Strings of one length that spell the same number are equal. -/
theorem value_inj {a b : List UInt8} (hlen : a.length = b.length) (h : value a = value b) :
    a = b := by
  rw [← bytes_value a, ← bytes_value b, hlen, h]

end BigEndian
