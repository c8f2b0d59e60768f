import OpenClickNP.Lib.BlockTransfer
import OpenClickNP.Runtime.Aes128

/-!
# The ECB cipher of the OpenSSL engine

`EVP_EncryptUpdate` and `EVP_DecryptUpdate` hand a text on to `ocnp_aes128_ecb_do_cipher` in pieces,
with pointers into memory that may be the same. However the text is cut, decrypting what has been
encrypted under the same key gives it back (`ecb_restores`).
-/

namespace OpenClickNP.Ssl

open Aes BlockTransfer

/-- What the cipher has of its `EVP_CIPHER_CTX`: the data of the implementation, and
`EVP_CIPHER_CTX_encrypting`. -/
structure CipherCtx where
  cipherData : Key128
  encrypting : Bool

/-- `ocnp_aes128_ecb_init`; libcrypto sets `encrypting`. -/
def ocnpAes128EcbInit (key : Block) (encrypting : Bool) : CipherCtx where
  cipherData := aes128KeyExpand key
  encrypting := encrypting

/-- The memory of the process, and `g_aes_blocks`. -/
structure Process where
  mem : Nat → UInt8
  aesBlocks : UInt64

/-- `openclicknp_aes128_encrypt_block` or `openclicknp_aes128_decrypt_block`. -/
def CipherCtx.block (ctx : CipherCtx) (b : Block) : Block :=
  if ctx.encrypting then aes128EncryptBlock ctx.cipherData b
  else aes128DecryptBlock ctx.cipherData b

/-- `for (size_t off = 0; off < inl; off += 16)`. -/
def cipherLoop (ctx : CipherCtx) (out inp inl off : Nat) (s : Process) : Process :=
  if off < inl then
    cipherLoop ctx out inp inl (off + 16)
      { mem := write s.mem (out + off) (ctx.block (read 16 s.mem (inp + off)))
        aesBlocks := s.aesBlocks + 1 }
  else s
termination_by inl - off

/-- `ocnp_aes128_ecb_do_cipher`. -/
def ocnpAes128EcbDoCipher (ctx : CipherCtx) (out inp inl : Nat) (s : Process) : Int × Process :=
  if inl % 16 ≠ 0 then (0, s) else (1, cipherLoop ctx out inp inl 0 s)

/-- Calls for the pieces of a text, one after the other. -/
def ciphered (ctx : CipherCtx) (out inp : Nat) : List Nat → Process → Process
  | [], s => s
  | inl :: cuts, s =>
    ciphered ctx (out + inl) (inp + inl) cuts (ocnpAes128EcbDoCipher ctx out inp inl s).2

/-! ## The loop -/

/-- The turns from block `i` on. Induction on the blocks left. -/
theorem cipherLoop_eq (ctx : CipherCtx) (out inp n i : Nat) (s : Process) :
    cipherLoop ctx out inp (16 * (i + n)) (16 * i) s
      = { mem := transfer ctx.block (out + 16 * i) (inp + 16 * i) s.mem n
          aesBlocks := s.aesBlocks + UInt64.ofNat n } := by
  induction n generalizing i s with
  | zero =>
    rw [cipherLoop, if_neg (by omega)]
    show s = { mem := s.mem, aesBlocks := s.aesBlocks + 0 }
    rw [UInt64.add_zero]
  | succ n ih =>
    have hnext := ih (i + 1)
      { mem := write s.mem (out + 16 * i) (ctx.block (read 16 s.mem (inp + 16 * i)))
        aesBlocks := s.aesBlocks + 1 }
    have hend : 16 * (i + 1 + n) = 16 * (i + (n + 1)) := by omega
    rw [hend] at hnext
    rw [cipherLoop, if_pos (by omega), ← Nat.mul_succ, hnext, Nat.add_comm n 1, transfer_add,
      UInt64.ofNat_add, UInt64.add_assoc]
    rfl

/-- A call for whole blocks. -/
theorem doCipher_eq (ctx : CipherCtx) (out inp n : Nat) (s : Process) :
    ocnpAes128EcbDoCipher ctx out inp (16 * n) s
      = (1, { mem := transfer ctx.block out inp s.mem n
              aesBlocks := s.aesBlocks + UInt64.ofNat n }) := by
  have hloop := cipherLoop_eq ctx out inp n 0 s
  rw [Nat.zero_add] at hloop
  unfold ocnpAes128EcbDoCipher
  rw [if_neg (by omega)]
  exact congrArg _ hloop

/-- **However the text is cut**, the calls do what one call does. -/
theorem ciphered_eq (ctx : CipherCtx) (out inp : Nat) (cuts : List Nat) (s : Process) :
    ciphered ctx out inp (cuts.map (16 * ·)) s
      = { mem := transfer ctx.block out inp s.mem cuts.sum
          aesBlocks := s.aesBlocks + UInt64.ofNat cuts.sum } := by
  induction cuts generalizing out inp s with
  | nil =>
    show s = { mem := s.mem, aesBlocks := s.aesBlocks + 0 }
    rw [UInt64.add_zero]
  | cons n cuts ih =>
    rw [List.map_cons, ciphered, doCipher_eq, ih, List.sum_cons, transfer_add, UInt64.ofNat_add,
      UInt64.add_assoc]

/-! ## There and back -/

/-- Where a text of `n` blocks may go: in place, to a place below, or to one behind it. -/
abbrev Placed (out inp n : Nat) : Prop := Safe 16 out inp n

/-- **Decrypting gives the text back.** A text of `16 * n` bytes is encrypted, and what comes out is
decrypted with a context of the same key; in whatever pieces of whole blocks, in place or not, the
text is there again, nothing else than the two destinations has changed, and the blocks have been
counted. -/
theorem ecb_restores (key : Block) (out inp back : Nat) (cuts cuts' : List Nat)
    (hsum : cuts'.sum = cuts.sum) (hout : Placed out inp cuts.sum)
    (hback : Placed back out cuts.sum) (s : Process) :
    let s₁ := ciphered (ocnpAes128EcbInit key true) out inp (cuts.map (16 * ·)) s
    let s₂ := ciphered (ocnpAes128EcbInit key false) back out (cuts'.map (16 * ·)) s₁
    (∀ i < 16 * cuts.sum, s₂.mem (back + i) = s.mem (inp + i)) ∧
      (∀ x, (x < out ∨ out + 16 * cuts.sum ≤ x) → (x < back ∨ back + 16 * cuts.sum ≤ x) →
        s₂.mem x = s.mem x) ∧
      s₂.aesBlocks = s.aesBlocks + UInt64.ofNat (2 * cuts.sum) := by
  intro s₁ s₂
  have h₁ : s₁ = _ := ciphered_eq (ocnpAes128EcbInit key true) out inp cuts s
  have h₂ : s₂ = _ := ciphered_eq (ocnpAes128EcbInit key false) back out cuts' s₁
  rw [h₂, h₁, hsum]
  refine ⟨fun i hi => ?_, fun x hx hx' => ?_, ?_⟩
  · exact transfer_transfer (fun b => decryptBlock_encryptBlock (aes128KeyExpand key) b) hout hback
      hi
  · show transfer _ back out (transfer _ out inp s.mem _) _ x = _
    rw [transfer_of_outside hx', transfer_of_outside hx]
  · show s.aesBlocks + UInt64.ofNat cuts.sum + UInt64.ofNat cuts.sum = _
    rw [UInt64.add_assoc, ← UInt64.ofNat_add, Nat.two_mul]

/-- Three blocks in place, encrypted in two pieces and decrypted in one. -/
theorem ecb_restores_three :
    let s : Process := { mem := fun x => UInt8.ofNat x, aesBlocks := 0 }
    let s₁ := ciphered (ocnpAes128EcbInit (Vector.replicate 16 7) true) 100 100 [16, 32] s
    let s₂ := ciphered (ocnpAes128EcbInit (Vector.replicate 16 7) false) 100 100 [48] s₁
    (∀ i < 48, s₂.mem (100 + i) = s.mem (100 + i)) ∧
      (∀ x, (x < 100 ∨ 148 ≤ x) → (x < 100 ∨ 148 ≤ x) → s₂.mem x = s.mem x) ∧
      s₂.aesBlocks = 6 :=
  ecb_restores (Vector.replicate 16 7) 100 100 100 [1, 2] [3] rfl (Or.inl (Nat.le_refl 100))
    (Or.inl (Nat.le_refl 100)) { mem := fun x => UInt8.ofNat x, aesBlocks := 0 }

end OpenClickNP.Ssl
