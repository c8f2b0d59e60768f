import OpenClickNP.Elements.Forwarding
import OpenClickNP.Elements.IpChecksum

/-!
# `TCPChecksum.clnp`

The element is `IPChecksum` with another sum, of the words from byte 34 on. They are not in the
first flit, which ends at byte 32, and the loop does not go behind it: it has no turn, and the
checksum of every packet is `0xFFFF` (`tcpChecksum_constant`).
-/

namespace OpenClickNP

open Run

/-- `for (int i = 14+20; i + 1 < 32; i += 2)`, from `i` on. -/
def tcpLoop (buf : Nat → UInt8) (i : Nat) (s : UInt32) : UInt32 :=
  if i + 1 < 32 then tcpLoop buf (i + 2) (s + (wordAt buf i).toUInt32) else s
termination_by 32 - i

/-- `s`, behind the `for` loop. -/
def tcpSum (buf : Nat → UInt8) : UInt32 := tcpLoop buf (14 + 20) 0

/-- `m`, of the first flit; the loop stays within the 32 bytes of `buf`. -/
def tcpMeta (f : Flit) : Flit :=
  Flit.single (~~~ foldSum (tcpSum fun i => (f.getData 32).getD i 0)).toUInt16.toUInt64

/-- `TCPChecksum`. -/
def tcpChecksum : KernelFn FirstState Flit := firstFlitFn tcpMeta

/-- The loop has no turn. -/
theorem tcpSum_eq (buf : Nat → UInt8) : tcpSum buf = 0 := by
  unfold tcpSum
  rw [tcpLoop, if_neg (by decide)]

theorem tcpMeta_eq (f : Flit) : tcpMeta f = Flit.single 0xFFFF := by
  unfold tcpMeta
  rw [tcpSum_eq, foldSum, if_pos (by decide)]
  rfl

/-- A description that is the same for all flits. -/
theorem output_const (describe : Flit → Flit) (m : Flit) (h : ∀ f, describe f = m) (first : Bool)
    (fs : List Flit) : (firstFlitMachine describe).output first fs
      = ((firstFlitMachine id).output first fs).map fun _ => m := by
  induction fs generalizing first with
  | nil => rfl
  | cons f fs ih =>
    rw [Transducer.output_cons, Transducer.output_cons, List.map_append, ih]
    congr 1
    show (if _ then [describe f] else []) = (if _ then [f] else []).map _
    rw [h]
    split <;> rfl

/-- **The checksum says nothing.** In every run the flits are passed on, and for each flit that
starts a packet port 2 gets the same flit, with `0xFFFF`, whatever is in the packet. -/
theorem tcpChecksum_constant (inCap outCap : Nat → Int) (as : List (KernelAction Flit)) :
    let t := exec (kstep tcpChecksum) (kinit firstInit inCap outCap) as
    t.sent 1 = t.taken 1 ∧
      t.sent 2
        = ((firstFlitMachine id).output true (t.taken 1)).map fun _ => Flit.single 0xFFFF := by
  intro t
  have hquiet : Quiet (fun _ => True) (kinit firstInit inCap outCap : KernelState _ Flit) :=
    quiet_of_none rfl rfl
  have hrun := inv_bodies (K := firstFlitFn tcpMeta) described_call (fun _ => rfl)
    (fun _ _ _ _ h => h) hquiet (meets_posts (fun _ => trivial) _ as) ⟨rfl, rfl, rfl⟩
  exact ⟨hrun.forwarded, hrun.descriptions.trans (output_const tcpMeta _ tcpMeta_eq true _)⟩

end OpenClickNP
