import OpenClickNP.Backend.DataFlow
import OpenClickNP.Elements.Forwarding

/-!
# Elements that wait for two flits

Seven elements read ports 1 and 2 only when both have a flit, and put one flit out for the two.
Whatever the interleaving, the flit they put out next is made of the next flit of port 1 and the
next flit of port 2 (`computes_rendezvous`): however far one producer is ahead, the pairs are right.
-/

namespace OpenClickNP

open Histories Run

/-! ## The elements -/

/-- `if (test_input_port(PORT_1) && test_input_port(PORT_2)) { ... } return PORT_ALL;`, where `pair`
is what is put out for the two flits. -/
def rendezvousHandler (pair : Flit → Flit → Flit) (v : View Unit Flit) : BodyResult Unit Flit where
  state := v.state
  ops :=
    if testPort v.inputPort 1 && testPort v.inputPort 2 then
      [.clearInputReady (PORT_BIT 1), .clearInputReady (PORT_BIT 2),
        .setOutputPort 1 (pair (v.inputData 1) (v.inputData 2))]
    else []
  ret := some PORT_ALL

def rendezvous (pair : Flit → Flit → Flit) : KernelFn Unit Flit where
  inPorts := [1, 2]
  outPorts := [1]
  nodup_outPorts := nodup_one
  handler := rendezvousHandler pair

/-- `Sync`: two lanes of each, and the marks of the first. -/
def syncPair (a b : Flit) : Flit :=
  (((((({} : Flit).set 0 (a.get 0)).set 1 (a.get 1)).set 2 (b.get 0)).set 3 (b.get 1)).setSop
    a.sop).setEop a.eop

def sync : KernelFn Unit Flit := rendezvous syncPair

/-- `out.set(i, ...)` for the first `n` lanes, and a packet of its own. -/
def laneWise (n : Nat) (op : UInt64 → UInt64 → UInt64) (a b : Flit) : Flit :=
  (((List.range n).foldl (fun (out : Flit) (i : Nat) => out.set i (op (a.get i) (b.get i)))
    {}).setSop true).setEop true

/-- `Add2048`: no carry goes from lane to lane. -/
def add2048 : KernelFn Unit Flit := rendezvous (laneWise 4 (· + ·))

/-- `Subtract1024`. -/
def subtract1024 : KernelFn Unit Flit := rendezvous (laneWise 2 (· - ·))

/-- `Mult1024`. -/
def mult1024 : KernelFn Unit Flit := rendezvous (laneWise 1 (· * ·))

/-- `Montgomery`. -/
def montgomery : KernelFn Unit Flit := rendezvous (laneWise 1 (· * ·))

/-- `XorInputs`. -/
def xorInputs : KernelFn Unit Flit := rendezvous (laneWise 4 (· ^^^ ·))

/-- `NVGRE_Match_Post`. -/
def nvgreMatchPost : KernelFn Unit Flit := rendezvous fun f m => f.set 2 (m.get 0)

/-! ## What they compute -/

section
variable {pair : Flit → Flit → Flit}

/-- A call takes a flit from both ports, or from neither. -/
theorem takenIn_rendezvous (v : View Unit Flit) {p : Nat} (hp : p = 1 ∨ p = 2) :
    takenIn p v (rendezvousHandler pair v)
      = if testPort v.inputPort 1 && testPort v.inputPort 2 then [v.inputData p] else [] := by
  unfold takenIn rendezvousHandler
  cases hboth : testPort v.inputPort 1 && testPort v.inputPort 2 with
  | false => simp
  | true =>
    obtain ⟨hone, htwo⟩ := Bool.and_eq_true_iff.mp hboth
    rcases hp with rfl | rfl
    · simp [hone, PortOp.clears, testPort_PORT_BIT]
    · simp [htwo, PortOp.clears, testPort_PORT_BIT]

theorem plain_rendezvous : Plain (rendezvous pair) 1 where
  mem := List.mem_singleton_self 1
  lt := by decide
  plain v := by
    show ∀ op ∈ (rendezvousHandler pair v).ops, op.isPlain = true
    unfold rendezvousHandler
    simp only []
    split
    · simp [PortOp.isPlain]
    · exact fun op hop => absurd hop List.not_mem_nil
  length_le v := by
    show (setsOf 1 (rendezvousHandler pair v).ops).length ≤ 1
    unfold rendezvousHandler
    simp only []
    split
    · exact Nat.le_refl 1
    · exact Nat.zero_le 1
  signal _ := rfl

/-- **The pairs are right**, whatever the interleaving. -/
theorem computes_rendezvous (pair : Flit → Flit → Flit) (used : Nat → Prop) :
    Computes (rendezvous pair) () (StreamFn.rendezvous pair) used := by
  refine ⟨fun _ taken sent => (taken 1).length = (taken 2).length ∧
    sent 1 = (taken 1).zipWith pair (taken 2), ⟨rfl, rfl⟩, ?_, ?_, ?_, ?_⟩
  · intro q hq _
    rw [List.mem_singleton.mp hq]
    exact plain_rendezvous
  · intro h g hports q _ _
    show (if q = 1 then _ else _) = if q = 1 then _ else _
    rw [hports 1 List.mem_cons_self, hports 2 (List.mem_cons_of_mem _ List.mem_cons_self)]
  · intro v taken sent hv
    obtain ⟨hlen, hsent⟩ := hv
    show (taken 1 ++ takenIn 1 v (rendezvousHandler pair v)).length
        = (taken 2 ++ takenIn 2 v (rendezvousHandler pair v)).length ∧
      sent 1 ++ setsOf 1 (rendezvousHandler pair v).ops
        = (taken 1 ++ takenIn 1 v (rendezvousHandler pair v)).zipWith pair
          (taken 2 ++ takenIn 2 v (rendezvousHandler pair v))
    rw [takenIn_rendezvous v (.inl rfl), takenIn_rendezvous v (.inr rfl)]
    have hsets : setsOf 1 (rendezvousHandler pair v).ops
        = if testPort v.inputPort 1 && testPort v.inputPort 2 then
            [pair (v.inputData 1) (v.inputData 2)] else [] := by
      unfold rendezvousHandler
      simp only []
      split <;> rfl
    rw [hsets]
    split
    · refine ⟨by simp [hlen], ?_⟩
      rw [List.zipWith_append hlen, hsent]
      rfl
    · refine ⟨by simpa using hlen, ?_⟩
      rw [List.append_nil, List.append_nil, List.append_nil]
      exact hsent
  · intro _ taken sent hv q hq _
    rw [List.mem_singleton.mp hq]
    show sent 1 = if 1 = 1 then (taken 1).zipWith pair (taken 2) else []
    rw [if_pos rfl]
    exact hv.2

end

end OpenClickNP
