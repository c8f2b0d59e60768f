import OpenClickNP.Elements.AesCtr
import OpenClickNP.Elements.AesPipeline

/-!
# `AES_ECB.clnp` with AES-128

The lanes of the pipeline with the cipher that the element really has: the key comes by signal, and
each flit is encrypted under the key of the last signal before it.
-/

namespace OpenClickNP

open Aes

/-- The `.state` block. -/
structure AesEcbState where
  keyBytes : Block
  roundKeys : Key128

/-- The state for a key. -/
def AesEcbState.keyed (key : Block) : AesEcbState where
  keyBytes := key
  roundKeys := aes128KeyExpand key

/-- The `.init` block. -/
def aesEcbInit : AesEcbState := .keyed (Vector.replicate 16 0)

/-- The `.signal` block: command 1 sets the key. -/
def aesEcbSetKey (event : ClSignal) (st : AesEcbState) : AesEcbState :=
  if event.cmd = 1 then .keyed (blockOf (event.lparam 0) (event.lparam 1)) else st

/-- `AES_ECB`. -/
def aesEcb128 : KernelFn AesEcbState Flit :=
  aesEcb (fun st => aes128EncryptBlock st.roundKeys) aesEcbSetKey

/-- What it makes of a flit. -/
def AesEcbState.change (st : AesEcbState) (f : Flit) : Flit :=
  ecbFlit (aes128EncryptBlock st.roundKeys) f

end OpenClickNP
