import OpenClickNP.Lib.BigEndian
import OpenClickNP.Runtime.Aes128

/-!
# The counter of `aes128_ctr_xcrypt` and that of OpenSSL

The function counts the low 64 bits of the counter block up and leaves the other 64 alone;
`EVP_aes_128_ctr`, which the cross-check compares it with, counts all 128. The two keystreams are
the same up to the block before which the low half runs over, and from there on no whole block is
(`aes128CtrXcrypt_eq_evp_iff`).
-/

namespace OpenClickNP

namespace Aes

open BigEndian

/-! ## The reference -/

/-- The counter block with the 128-bit number `v`. -/
def blockOf (v : Nat) : Block := ⟨(bytes 16 v).toArray, by simp⟩

/-- The number of a counter block. -/
def number (b : Block) : Nat := value b.toList

/-- `EVP_aes_128_ctr`: block `j` of the text is combined with the cipher of the initial block
plus `j`. -/
def evpAes128Ctr (k : Key128) (iv : Block) (input : List UInt8) : List UInt8 :=
  input.mapIdx fun i x =>
    x ^^^ (aes128EncryptBlock k (blockOf (number iv + i / 16))).get ⟨i % 16, by omega⟩

theorem number_lt (b : Block) : number b < 2 ^ 128 := by
  have h := value_lt b.toList
  rwa [Vector.length_toList] at h

theorem number_inj {a b : Block} (h : number a = number b) : a = b := by
  apply Vector.toList_inj.mp
  exact value_inj (by rw [Vector.length_toList, Vector.length_toList]) h

theorem number_blockOf (v : Nat) : number (blockOf v) = v % 2 ^ 128 := by
  have h := value_bytes 16 v
  simpa [number, blockOf] using h

/-! ## Counting the low half up -/

/-- The upper and the lower 64 bits. -/
def high (b : Block) : Nat := value (b.toList.take 8)
def low (b : Block) : Nat := value (b.toList.drop 8)

theorem number_eq (b : Block) : number b = high b * 2 ^ 64 + low b := by
  have h := value_append (b.toList.take 8) (b.toList.drop 8)
  rw [List.take_append_drop, List.length_drop, Vector.length_toList] at h
  exact h

theorem low_lt (b : Block) : low b < 2 ^ 64 := by
  have h := value_lt (b.toList.drop 8)
  rwa [List.length_drop, Vector.length_toList] at h

theorem high_lt (b : Block) : high b < 2 ^ 64 := by
  have h := value_lt (b.toList.take 8)
  rwa [List.length_take, Vector.length_toList] at h

/-- The bytes 8 to `7 + n`, those still to be counted up. -/
def part (b : Block) (n : Nat) : List UInt8 := (b.toList.drop 8).take n

theorem part_succ (b : Block) {n : Nat} (hn : n < 8) : part b (n + 1) = part b n ++ [b[8 + n]] := by
  have hget : (b.toList.drop 8)[n]? = some b[8 + n] := by
    rw [List.getElem?_drop, List.getElem?_eq_getElem (by rw [Vector.length_toList]; omega)]
    rfl
  rw [part, part, List.take_add_one, hget]
  rfl

theorem part_set (b : Block) {n : Nat} (hn : n < 8) (x : UInt8) :
    part (b.set (8 + n) x) n = part b n := by
  rw [part, part, Vector.toList_set, List.drop_set, if_neg (by omega), Nat.add_sub_cancel_left,
    List.take_set_of_le (Nat.le_refl n)]

/-- The loop counts the bytes 8 to `7 + n` up as one number, and leaves the others alone.
Induction on the turns left. -/
theorem incrementFrom_spec (b : Block) (n : Nat) (hn : n ≤ 8) :
    value (part (incrementFrom b n hn) n) = (value (part b n) + 1) % 256 ^ n ∧
      (incrementFrom b n hn).toList.take 8 = b.toList.take 8 ∧
      ∀ i, 8 + n ≤ i → (incrementFrom b n hn).toList[i]? = b.toList[i]? := by
  induction n generalizing b with
  | zero => exact ⟨by simp [part], rfl, fun _ _ => rfl⟩
  | succ n ih =>
    have hbyte : (b[8 + n] + 1).toNat = (b[8 + n].toNat + 1) % 256 := UInt8.toNat_add _ _
    have hset : (b.set (8 + n) (b[8 + n] + 1))[8 + n] = b[8 + n] + 1 := Vector.getElem_set_self _
    have hhigh : (b.set (8 + n) (b[8 + n] + 1)).toList.take 8 = b.toList.take 8 := by
      rw [Vector.toList_set, List.take_set_of_le (by omega)]
    have hrest : ∀ i, 8 + n + 1 ≤ i →
        (b.set (8 + n) (b[8 + n] + 1)).toList[i]? = b.toList[i]? := by
      intro i hi
      rw [Vector.toList_set, List.getElem?_set_ne (by omega)]
    have hpart := value_lt (part b n)
    have hlen : (part b n).length = n := by
      rw [part, List.length_take, List.length_drop, Vector.length_toList]
      omega
    rw [hlen] at hpart
    have hlt := b[8 + n].toNat_lt
    rw [part_succ b (by omega), value_concat, incrementFrom]
    split
    · -- the byte does not run over, and the loop breaks
      rename_i hne
      have hno : (b[8 + n] + 1).toNat ≠ 0 := fun h => hne (UInt8.toNat_inj.mp h)
      refine ⟨?_, hhigh, hrest⟩
      rw [part_succ _ (by omega), part_set b (by omega), value_concat, hset, hbyte,
        Nat.mod_eq_of_lt (a := b[8 + n].toNat + 1) (by omega), Nat.mod_eq_of_lt]
      · omega
      · rw [pow_succ]
        omega
    · rename_i hzero
      have h0 : (b[8 + n] + 1).toNat = 0 := by
        rw [not_not.mp hzero]
        rfl
      obtain ⟨hvalue, htake, hrest'⟩ := ih (b.set (8 + n) (b[8 + n] + 1)) (by omega)
      have hlast := hrest' (8 + n) (Nat.le_refl _)
      refine ⟨?_, htake.trans hhigh, fun i hi => (hrest' i (by omega)).trans (hrest i hi)⟩
      have hkept : (incrementFrom (b.set (8 + n) (b[8 + n] + 1)) n (by omega))[8 + n]
          = b[8 + n] + 1 := by
        rw [Vector.getElem?_toList, Vector.getElem?_toList, Vector.getElem?_eq_getElem (by omega),
          Vector.getElem?_eq_getElem (by omega), hset] at hlast
        exact Option.some.inj hlast
      rw [part_succ _ (by omega), value_concat, hkept, h0, hvalue, part_set b (by omega), pow_succ',
        Nat.add_zero, show 256 * value (part b n) + b[8 + n].toNat + 1
          = 256 * (value (part b n) + 1) by omega, Nat.mul_mod_mul_left]

theorem high_increment (b : Block) : high (increment b) = high b :=
  congrArg value (incrementFrom_spec b 8 (by decide)).2.1

theorem low_increment (b : Block) : low (increment b) = (low b + 1) % 2 ^ 64 := by
  have hall : ∀ c : Block, part c 8 = c.toList.drop 8 := fun c =>
    List.take_of_length_le (by rw [List.length_drop, Vector.length_toList])
  have h := (incrementFrom_spec b 8 (by decide)).1
  rw [hall, hall] at h
  exact h

/-- The counter after `j` blocks. -/
theorem number_iterate_increment (b : Block) (j : Nat) :
    number (increment^[j] b) = high b * 2 ^ 64 + (low b + j) % 2 ^ 64 := by
  have hj : high (increment^[j] b) = high b ∧ low (increment^[j] b) = (low b + j) % 2 ^ 64 := by
    induction j with
    | zero => exact ⟨rfl, (Nat.mod_eq_of_lt (low_lt b)).symm⟩
    | succ j ih =>
      rw [Function.iterate_succ_apply', high_increment, low_increment, ih.1, ih.2]
      exact ⟨rfl, by omega⟩
  rw [number_eq, hj.1, hj.2]

/-! ## The two counters -/

/-- How many blocks there are before the low half runs over. -/
def blocksLeft (iv : Block) : Nat := 2 ^ 64 - low iv

theorem counter_eq_of_lt (iv : Block) {j : Nat} (hj : j < blocksLeft iv) :
    increment^[j] iv = blockOf (number iv + j) := by
  have hlow := low_lt iv
  have hnumber := number_lt iv
  have hhigh := high_lt iv
  apply number_inj
  unfold blocksLeft at hj
  rw [number_iterate_increment, number_blockOf, number_eq]
  omega

/-- When the low half runs over, the other counter carries into the high half. -/
theorem counter_ne (iv : Block) :
    increment^[blocksLeft iv] iv ≠ blockOf (number iv + blocksLeft iv) := by
  intro heq
  have h := congrArg number heq
  have hlow := low_lt iv
  have hhigh := high_lt iv
  rw [number_iterate_increment, number_blockOf, number_eq, blocksLeft] at h
  omega

theorem encryptBlock_inj {k : Key128} {a b : Block}
    (h : aes128EncryptBlock k a = aes128EncryptBlock k b) : a = b := by
  rw [← decryptBlock_encryptBlock k a, h, decryptBlock_encryptBlock]

/-- The bytes of the two keystreams in block `j`. -/
def keyByte (k : Key128) (iv : Block) (j : Nat) (r : Fin 16) : UInt8 :=
  (aes128EncryptBlock k (increment^[j] iv)).get r

def evpKeyByte (k : Key128) (iv : Block) (j : Nat) (r : Fin 16) : UInt8 :=
  (aes128EncryptBlock k (blockOf (number iv + j))).get r

/-- The text ends before the low half runs over, or in the block behind, in front of which the two
ciphers agree on as many bytes as there are. -/
def EndsInTime (k : Key128) (iv : Block) (len : Nat) : Prop :=
  len ≤ 16 * blocksLeft iv ∨
    len < 16 * (blocksLeft iv + 1) ∧ ∀ r : Fin 16, 16 * blocksLeft iv + r < len →
      keyByte k iv (blocksLeft iv) r = evpKeyByte k iv (blocksLeft iv) r

instance (k : Key128) (iv : Block) (len : Nat) : Decidable (EndsInTime k iv len) :=
  inferInstanceAs (Decidable (_ ∨ _ ∧ ∀ _, _))

theorem aes128CtrXcrypt_eq_evp (k : Key128) (iv : Block) (input : List UInt8) :
    aes128CtrXcrypt k iv input = evpAes128Ctr k iv input ↔ ∀ i (_ : i < input.length),
      keyByte k iv (i / 16) ⟨i % 16, by omega⟩ = evpKeyByte k iv (i / 16) ⟨i % 16, by omega⟩ := by
  have hcrypt : aes128CtrXcrypt k iv input = input.mapIdx fun i x =>
      x ^^^ keyByte k iv (i / 16) ⟨i % 16, by omega⟩ := by
    rw [aes128CtrXcrypt_eq, CounterMode.crypt_eq_mapIdx]
    rfl
  rw [hcrypt, evpAes128Ctr]
  constructor
  · intro h i hi
    have hbyte := congrArg (·[i]?) h
    simp only [List.getElem?_mapIdx, List.getElem?_eq_getElem hi, Option.map_some,
      Option.some.injEq, UInt8.xor_right_inj] at hbyte
    exact hbyte
  · intro h
    refine List.ext_getElem (by rw [List.length_mapIdx, List.length_mapIdx]) fun i hi _ => ?_
    rw [List.length_mapIdx] at hi
    simp only [List.getElem_mapIdx, h i hi]
    rfl

/-- The texts are the same when the keystreams are, up to the end of the text. -/
theorem keyBytes_agree_iff (k : Key128) (iv : Block) (input : List UInt8) :
    aes128CtrXcrypt k iv input = evpAes128Ctr k iv input ↔ EndsInTime k iv input.length := by
  have hbefore : ∀ j < blocksLeft iv, ∀ r, keyByte k iv j r = evpKeyByte k iv j r := by
    intro j hj r
    rw [keyByte, evpKeyByte, counter_eq_of_lt iv hj]
  rw [aes128CtrXcrypt_eq_evp]
  constructor
  · intro h
    by_cases hle : input.length ≤ 16 * blocksLeft iv
    · exact .inl hle
    have hagree : ∀ r : Fin 16, 16 * blocksLeft iv + r < input.length →
        keyByte k iv (blocksLeft iv) r = evpKeyByte k iv (blocksLeft iv) r := by
      intro r hr
      have hbyte := h _ hr
      have hdiv : (16 * blocksLeft iv + r) / 16 = blocksLeft iv := by omega
      have hmod : (16 * blocksLeft iv + r) % 16 = r := by omega
      simpa only [hdiv, hmod, Fin.eta] using hbyte
    refine .inr ⟨?_, hagree⟩
    -- a whole block of the keystream tells the counters apart
    by_contra hwhole
    refine counter_ne iv (encryptBlock_inj (k := k) (Vector.ext fun r hr => ?_))
    exact hagree ⟨r, hr⟩ (by simp only; omega)
  · intro h i hi
    by_cases hlt : i / 16 < blocksLeft iv
    · exact hbefore _ hlt _
    rcases h with hle | ⟨hle, hagree⟩
    · omega
    · have hdiv : i / 16 = blocksLeft iv := by omega
      rw [hdiv]
      exact hagree ⟨i % 16, by omega⟩ (by simp only; omega)

/-- **When the function computes what OpenSSL computes.** For every key, every initial block and
every message. -/
theorem aes128CtrXcrypt_eq_evp_iff (key iv : Block) (input : List UInt8) :
    aes128CtrXcrypt (aes128KeyExpand key) iv input
        = evpAes128Ctr (aes128KeyExpand key) iv input ↔
      EndsInTime (aes128KeyExpand key) iv input.length :=
  keyBytes_agree_iff (aes128KeyExpand key) iv input

/-- Two blocks, the low half of the counter about to run over. -/
theorem aes128CtrXcrypt_ne_evp :
    ¬ ∀ (key iv : Block) (input : List UInt8),
      aes128CtrXcrypt (aes128KeyExpand key) iv input
        = evpAes128Ctr (aes128KeyExpand key) iv input := by
  intro h
  have hleft : blocksLeft (blockOf (2 ^ 64 - 1)) = 1 := by decide
  have hends := (keyBytes_agree_iff (aes128KeyExpand (Vector.replicate 16 0))
    (blockOf (2 ^ 64 - 1)) (List.replicate 32 0)).mp (h _ _ _)
  rw [EndsInTime, hleft, List.length_replicate] at hends
  omega

end Aes

end OpenClickNP
