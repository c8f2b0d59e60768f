import OpenClickNP.Bigint.ModExp
import OpenClickNP.Ssl.LimbBytes

/-!
# The `bn_mod_exp` hook of the OpenSSL engine

libcrypto is a parameter: a type of numbers with the calls the engine makes (`LibCrypto`), and
what their manual pages promise of them (`LibCrypto.Exact`). `ocnp_bn_mod_exp` rounds the width
of the modulus up, converts the operands and runs one of the two exponentiations, or hands the
call back to libcrypto; either way `a ^ p mod m` comes out.
-/

namespace OpenClickNP.Ssl

open Bigint BigEndian

/-! ## libcrypto -/

/-- The calls of libcrypto that the engine makes, on non-negative numbers. A call that can fail
returns `none` for failure. `value` is the number that a `BIGNUM` stands for. -/
structure LibCrypto (B : Type) where
  value : B → Nat
  BN_num_bits : B → Nat
  BN_bn2binpad : B → Nat → Option (List UInt8)
  BN_bin2bn : List UInt8 → Option B
  /-- `BN_get_flags(x, BN_FLG_CONSTTIME)` -/
  constTimeFlag : B → Bool
  BN_mod_exp_mont : B → B → B → Option B
  BN_mod_exp_mont_consttime : B → B → B → Option B

namespace LibCrypto

variable {B : Type} (L : LibCrypto B)

/-- What is documented of the calls: the conversions are exact and the two exponentiations are
exponentiation for an odd modulus. -/
structure Exact : Prop where
  num_bits : ∀ x, L.BN_num_bits x = (L.value x).size
  bn2binpad : ∀ x n, L.value x < 256 ^ n → L.BN_bn2binpad x n = some (bytes n (L.value x))
  bin2bn : ∀ bs, ∃ x, L.BN_bin2bn bs = some x ∧ L.value x = BigEndian.value bs
  mod_exp_mont : ∀ a p m, L.value m % 2 = 1 →
    ∃ r, L.BN_mod_exp_mont a p m = some r ∧ L.value r = L.value a ^ L.value p % L.value m
  mod_exp_mont_consttime : ∀ a p m, L.value m % 2 = 1 →
    ∃ r, L.BN_mod_exp_mont_consttime a p m = some r
      ∧ L.value r = L.value a ^ L.value p % L.value m

/-- The macro `BN_num_bytes`. -/
def BN_num_bytes (x : B) : Nat := (L.BN_num_bits x + 7) / 8

/-! ## Conversions -/

/-- `bn_to_limbs(x, out, n_limbs)`. -/
def bnToLimbs (x : B) (nLimbs : Nat) : Option (U nLimbs) :=
  if nLimbs * 8 < L.BN_num_bytes x then none
  else (L.BN_bn2binpad x (nLimbs * 8)).map fun buf => limbsOfBytes buf nLimbs

/-- `limbs_to_bn(x, n_limbs, out)`. -/
def limbsToBn {nLimbs : Nat} (x : U nLimbs) : Option B := L.BN_bin2bn (bytesOfLimbs x)

section
variable {L} (hL : L.Exact)
include hL

theorem num_bytes_le_iff (x : B) (n : Nat) : L.BN_num_bytes x ≤ n ↔ L.value x < 2 ^ (8 * n) := by
  rw [← Nat.size_le, BN_num_bytes, hL.num_bits]
  omega

theorem bnToLimbs_of_lt {x : B} {n : Nat} (hx : L.value x < 2 ^ (64 * n)) :
    ∃ u : U n, L.bnToLimbs x n = some u ∧ u.toNat = L.value x := by
  have hpow : (2 : Nat) ^ (64 * n) = 256 ^ (n * 8) := by
    rw [show 64 * n = 8 * (n * 8) by ring, pow_mul]
    norm_num
  have hbytes : ¬ n * 8 < L.BN_num_bytes x := by
    rw [Nat.not_lt, num_bytes_le_iff hL, show 8 * (n * 8) = 64 * n by ring]
    exact hx
  refine ⟨limbsOfBytes (bytes (n * 8) (L.value x)) n, ?_, ?_⟩
  · rw [bnToLimbs, if_neg hbytes, hL.bn2binpad x _ (hpow ▸ hx)]
    rfl
  · rw [toNat_limbsOfBytes _ n (by rw [length_bytes, Nat.mul_comm]), value_bytes,
      Nat.mod_eq_of_lt (hpow ▸ hx)]

theorem bnToLimbs_of_le {x : B} {n : Nat} (hx : 2 ^ (64 * n) ≤ L.value x) :
    L.bnToLimbs x n = none := by
  have hbytes : n * 8 < L.BN_num_bytes x := by
    rw [← Nat.not_le, num_bytes_le_iff hL, show 8 * (n * 8) = 64 * n by ring]
    omega
  rw [bnToLimbs, if_pos hbytes]

theorem bnToLimbs_spec {x : B} {n : Nat} {u : U n} (h : L.bnToLimbs x n = some u) :
    u.toNat = L.value x := by
  rcases Nat.lt_or_ge (L.value x) (2 ^ (64 * n)) with hx | hx
  · obtain ⟨v, hv, hval⟩ := bnToLimbs_of_lt hL hx
    obtain rfl := Option.some.inj (h.symm.trans hv)
    exact hval
  · rw [bnToLimbs_of_le hL hx] at h
    cases h

theorem limbsToBn_spec {n : Nat} (x : U n) :
    ∃ r, L.limbsToBn x = some r ∧ L.value r = x.toNat := by
  obtain ⟨r, hr, hval⟩ := hL.bin2bn (bytesOfLimbs x)
  exact ⟨r, hr, hval.trans (value_bytesOfLimbs x)⟩

end

end LibCrypto

/-- `round_up_limbs_for_bits(bits)`; `0` is unsupported. -/
def roundUpLimbsForBits (bits : Nat) : Nat :=
  if bits ≤ 1024 then 16
  else if bits ≤ 2048 then 32
  else if bits ≤ 4096 then 64
  else 0

theorem roundUpLimbsForBits_eq_zero_iff {bits : Nat} :
    roundUpLimbsForBits bits = 0 ↔ 4096 < bits := by
  unfold roundUpLimbsForBits
  split_ifs <;> simp <;> omega

/-- The width holds the bits it was chosen for. -/
theorem le_roundUpLimbsForBits {bits : Nat} (h : bits ≤ 4096) :
    bits ≤ 64 * roundUpLimbsForBits bits := by
  unfold roundUpLimbsForBits
  split_ifs <;> omega

/-! ## The shim -/

/-- The widths that the shim is instantiated for. -/
def Instantiated (nLimbs : Nat) : Prop := nLimbs = 16 ∨ nLimbs = 32 ∨ nLimbs = 64

instance (nLimbs : Nat) : Decidable (Instantiated nLimbs) :=
  inferInstanceAs (Decidable (_ ∨ _ ∨ _))

theorem instantiated_roundUpLimbsForBits {bits : Nat} (h : bits ≤ 4096) :
    Instantiated (roundUpLimbsForBits bits) := by
  unfold roundUpLimbsForBits
  split_ifs <;> decide

section
variable {N : Nat}

/-- `(x.limbs[0] & 1u) == 0u` -/
def evenLimbs (x : U N) : Bool := (x.limbs.getD 0 0 &&& 1) == 0

/-- `openclicknp_modexp`; `none` is a non-zero return. -/
def openclicknpModexp (m e n : U N) : Option (U N) :=
  if Instantiated N then
    if evenLimbs n then none else some (modexp m e n)
  else none

/-- `openclicknp_modexp_consttime`. -/
def openclicknpModexpConsttime (m e n : U N) : Option (U N) :=
  if Instantiated N then
    if evenLimbs n then none else some (modexpConsttime m e n)
  else none

theorem evenLimbs_eq (x : U N) : evenLimbs x = decide (x.toNat % 2 = 0) := by
  have hlimb := x.toNat_getD_limbs 0
  rw [pow_zero, Nat.div_one] at hlimb
  have hbit : (x.limbs.getD 0 0 &&& 1).toNat = x.toNat % 2 := by
    rw [UInt64.toNat_and, show (1 : UInt64).toNat = 1 from rfl, Nat.and_one_is_mod, hlimb]
    omega
  rw [evenLimbs, Bool.eq_iff_iff, beq_iff_eq, decide_eq_true_iff, ← UInt64.toNat_inj, hbit]
  rfl

end

/-! ## `ocnp_bn_mod_exp` -/

/-- The engine's call counters. -/
structure Counters where
  modexpCalls : UInt64
  modexpConsttimeCalls : UInt64
  crtCalls : UInt64
  modexpUnsupported : UInt64
  deriving DecidableEq

namespace Counters

def modexp (g : Counters) : Counters := { g with modexpCalls := g.modexpCalls + 1 }

def consttime (g : Counters) : Counters :=
  { g with modexpConsttimeCalls := g.modexpConsttimeCalls + 1 }

def crt (g : Counters) : Counters := { g with crtCalls := g.crtCalls + 1 }

def unsupported (g : Counters) : Counters :=
  { g with modexpUnsupported := g.modexpUnsupported + 1 }

end Counters

section
variable {B : Type} (L : LibCrypto B)

/-- `ocnp_bn_mod_exp(r, a, p, m)`: the number stored in `r`, or `none` when `0` is returned, and
the counters after the call. -/
def ocnpBnModExp (a p m : B) (g : Counters) : Option B × Counters :=
  let nLimbs := roundUpLimbsForBits (L.BN_num_bits m)
  let fallback := (L.BN_mod_exp_mont a p m, g.unsupported)
  if nLimbs = 0 then fallback
  else match L.bnToLimbs a nLimbs, L.bnToLimbs p nLimbs, L.bnToLimbs m nLimbs with
    | some aLimbs, some pLimbs, some mLimbs =>
      if L.constTimeFlag p then
        match openclicknpModexpConsttime aLimbs pLimbs mLimbs with
        | some rLimbs => (L.limbsToBn rLimbs, g.consttime)
        | none => fallback
      else
        match openclicknpModexp aLimbs pLimbs mLimbs with
        | some rLimbs => (L.limbsToBn rLimbs, g.modexp)
        | none => fallback
    | _, _, _ => fallback

section
variable {L} (hL : L.Exact)
include hL

theorem limbsToBn_modexp {N : Nat} {a p m : U N} (hodd : m.toNat % 2 = 1) {r : U N}
    (hr : openclicknpModexp a p m = some r) :
    ∃ x, L.limbsToBn r = some x ∧ L.value x = a.toNat ^ p.toNat % m.toNat := by
  obtain ⟨x, hx, hval⟩ := LibCrypto.limbsToBn_spec hL r
  unfold openclicknpModexp at hr
  split_ifs at hr
  obtain rfl := Option.some.inj hr
  exact ⟨x, hx, hval.trans (toNat_modexp hodd a p)⟩

theorem limbsToBn_modexpConsttime {N : Nat} {a p m : U N} (hodd : m.toNat % 2 = 1) {r : U N}
    (hr : openclicknpModexpConsttime a p m = some r) :
    ∃ x, L.limbsToBn r = some x ∧ L.value x = a.toNat ^ p.toNat % m.toNat := by
  obtain ⟨x, hx, hval⟩ := LibCrypto.limbsToBn_spec hL r
  unfold openclicknpModexpConsttime at hr
  split_ifs at hr
  obtain rfl := Option.some.inj hr
  exact ⟨x, hx, hval.trans (toNat_modexpConsttime hodd a p)⟩

/-- The hook computes the power, on each of its paths. -/
theorem value_ocnpBnModExp (a p m : B) (g : Counters) (hodd : L.value m % 2 = 1) :
    ∃ r, (ocnpBnModExp L a p m g).1 = some r ∧ L.value r = L.value a ^ L.value p % L.value m := by
  have hfallback := hL.mod_exp_mont a p m hodd
  simp only [ocnpBnModExp]
  split
  · -- a modulus above 4096 bits
    exact hfallback
  split
  next aLimbs pLimbs mLimbs ha hp hm =>
    have ha := LibCrypto.bnToLimbs_spec hL ha
    have hp := LibCrypto.bnToLimbs_spec hL hp
    have hm := LibCrypto.bnToLimbs_spec hL hm
    rw [← ha, ← hp, ← hm]
    rw [← ha, ← hp, ← hm] at hfallback
    rw [← hm] at hodd
    split
    · split
      next r hr => exact limbsToBn_modexpConsttime hL hodd hr
      next => exact hfallback
    · split
      next r hr => exact limbsToBn_modexp hL hodd hr
      next => exact hfallback
  next =>
    -- an operand longer than the width of the modulus
    exact hfallback

end

/-- **`ocnp_bn_mod_exp` agrees with libcrypto**: for all operands with an odd modulus, of whatever
lengths and whatever flag `p` carries, it stores what `BN_mod_exp_mont` stores, `a ^ p mod m`. -/
theorem ocnpBnModExp_eq_modExpMont (hL : L.Exact) (a p m : B) (g : Counters)
    (hodd : L.value m % 2 = 1) :
    ∃ r s, (ocnpBnModExp L a p m g).1 = some r ∧ L.BN_mod_exp_mont a p m = some s
      ∧ L.value r = L.value s ∧ L.value r = L.value a ^ L.value p % L.value m := by
  obtain ⟨r, hr, hrval⟩ := value_ocnpBnModExp hL a p m g hodd
  obtain ⟨s, hs, hsval⟩ := hL.mod_exp_mont a p m hodd
  exact ⟨r, s, hr, hs, hrval.trans hsval.symm, hrval⟩

end

/-- A libcrypto whose numbers are pairs of a natural number and the flag. -/
def natCrypto : LibCrypto (Nat × Bool) where
  value x := x.1
  BN_num_bits x := x.1.size
  BN_bn2binpad x n := if x.1 < 256 ^ n then some (bytes n x.1) else none
  BN_bin2bn bs := some (BigEndian.value bs, false)
  constTimeFlag x := x.2
  BN_mod_exp_mont a p m := if m.1 % 2 = 1 then some (a.1 ^ p.1 % m.1, false) else none
  BN_mod_exp_mont_consttime a p m := if m.1 % 2 = 1 then some (a.1 ^ p.1 % m.1, false) else none

theorem natCrypto_exact : natCrypto.Exact where
  num_bits _ := rfl
  bn2binpad _ _ h := if_pos h
  bin2bn bs := ⟨(BigEndian.value bs, false), rfl, rfl⟩
  mod_exp_mont a p m h := ⟨(a.1 ^ p.1 % m.1, false), if_pos h, rfl⟩
  mod_exp_mont_consttime a p m h := ⟨(a.1 ^ p.1 % m.1, false), if_pos h, rfl⟩

/-- A base above the modulus with the constant-time flag on the exponent. -/
theorem ocnpBnModExp_eq_modExpMont_base_above :
    ∃ r s, (ocnpBnModExp natCrypto (12, false) (5, true) (7, false) ⟨0, 0, 0, 0⟩).1 = some r
      ∧ natCrypto.BN_mod_exp_mont (12, false) (5, true) (7, false) = some s
      ∧ natCrypto.value r = natCrypto.value s ∧ natCrypto.value r = 12 ^ 5 % 7 :=
  ocnpBnModExp_eq_modExpMont natCrypto natCrypto_exact (12, false) (5, true) (7, false)
    ⟨0, 0, 0, 0⟩ rfl

end OpenClickNP.Ssl
