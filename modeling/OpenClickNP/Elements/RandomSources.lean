import OpenClickNP.Elements.FlowControl
import OpenClickNP.Lib.Xorshift

/-!
# Random numbers

`RandomSource.clnp` and `TestRandom.clnp` put out a packet with the next number in each call, and
`Rand.clnp` writes the next number into lane 3 of each flit. The numbers are never 0, and the
sequence has no part before its period (`randomSources_generate`).
-/

namespace OpenClickNP

open Run

/-! ## The numbers -/

/-- `x ^= x << 13; x ^= x >> 7; x ^= x << 17;` -/
def xorshift64 (x : UInt64) : UInt64 :=
  let x := x ^^^ (x <<< 13)
  let x := x ^^^ (x >>> 7)
  x ^^^ (x <<< 17)

/-- `x ^= x << 7; x ^= x >> 9;` -/
def xorshiftTest (x : UInt64) : UInt64 :=
  let x := x ^^^ (x <<< 7)
  x ^^^ (x >>> 9)

theorem xorshift64_injective : Function.Injective xorshift64 := by
  have hbits : ∀ x, (xorshift64 x).toBitVec
      = Xorshift.left 17 (Xorshift.right 7 (Xorshift.left 13 x.toBitVec)) := fun _ => rfl
  intro x y h
  have hsame := congrArg UInt64.toBitVec h
  rw [hbits, hbits] at hsame
  have hone := Xorshift.right_injective (by decide) (Xorshift.left_injective (by decide) hsame)
  exact UInt64.toBitVec_inj.mp (Xorshift.left_injective (by decide) hone)

theorem xorshiftTest_injective : Function.Injective xorshiftTest := by
  have hbits : ∀ x, (xorshiftTest x).toBitVec
      = Xorshift.right 9 (Xorshift.left 7 x.toBitVec) := fun _ => rfl
  intro x y h
  have hsame := congrArg UInt64.toBitVec h
  rw [hbits, hbits] at hsame
  have hone := Xorshift.right_injective (by decide) hsame
  exact UInt64.toBitVec_inj.mp (Xorshift.left_injective (by decide) hone)

/-! ## `RandomSource.clnp`, `TestRandom.clnp` -/

/-- An element whose state is `lfsr`, and which puts out the next number in each call. -/
def stepping (step : UInt64 → UInt64) : KernelFn UInt64 Flit where
  inPorts := []
  outPorts := [1]
  nodup_outPorts := nodup_one
  hasSignal := true
  handler v :=
    { state := step v.state
      ops := [.setOutputPort 1 (Flit.single (step v.state))]
      ret := some PORT_ALL }

/-- `RandomSource`. -/
def randomSource : KernelFn UInt64 Flit := stepping xorshift64

/-- The `.init` block of `RandomSource`. -/
def randomSourceInit : UInt64 := 0xDEADBEEFCAFEBABE

/-- `TestRandom`. -/
def testRandom : KernelFn UInt64 Flit := stepping xorshiftTest

/-- The `.init` block of `TestRandom`. -/
def testRandomInit : UInt64 := 1

/-- What such an element does for a call. -/
def sourceServer (step : UInt64 → UInt64) : Transducer UInt64 (Call Flit) (Deed Flit) where
  next
    | x, .signal _ => x
    | x, .offer _ => step x
  out
    | _, .signal req => [.answer req]
    | x, .offer _ => [.put 1 (Flit.single (step x))]

theorem serves_stepping (step : UInt64 → UInt64) :
    ServesCalls (stepping step) (sourceServer step) where
  state _ := rfl
  taken v := by
    show takenIn 1 v ((stepping step).handler v) = []
    simp [takenIn, stepping, PortOp.clears]
  put _ _ := rfl
  quiet _ _ := rfl
  signalState _ := rfl
  signalOps _ := rfl
  answer _ := rfl

/-- The packets of the first `n` numbers. -/
def randomPackets (step : UInt64 → UInt64) (seed : UInt64) (n : Nat) : List Flit :=
  (List.range n).map fun i => Flit.single (step^[i + 1] seed)

/-- Every call of the handler has put out the next number. -/
def Stepped (step : UInt64 → UInt64) (seed x : UInt64) (w : List (Call Flit))
    (ds : List (Deed Flit)) : Prop :=
  x = step^[offersOf w] seed ∧ putOn 1 ds = randomPackets step seed (offersOf w)

theorem stepped_call (step : UInt64 → UInt64) (seed x : UInt64) (w : List (Call Flit))
    (ds : List (Deed Flit)) (c : Call Flit) (h : Stepped step seed x w ds) :
    Stepped step seed ((sourceServer step).next x c) (w ++ [c])
      (ds ++ (sourceServer step).out x c) := by
  obtain ⟨hx, hsent⟩ := h
  unfold Stepped
  rw [putOn_append, hsent]
  cases c with
  | signal req =>
    have hcalls : offersOf (w ++ [.signal req]) = offersOf w := by simp [offersOf]
    rw [hcalls]
    exact ⟨hx, List.append_nil _⟩
  | offer y =>
    have hcalls : offersOf (w ++ [.offer y]) = offersOf w + 1 := by simp [offersOf]
    have hnext : step x = step^[offersOf w + 1] seed := by
      rw [hx, Function.iterate_succ_apply']
    rw [hcalls]
    refine ⟨hnext, ?_⟩
    show _ ++ [Flit.single (step x)] = _
    rw [randomPackets, randomPackets, List.range_succ, List.map_append, hnext]
    rfl

/-- In every run each call of the handler puts out the next number. -/
theorem sent_stepping (step : UInt64 → UInt64) (seed : UInt64) (inCap outCap : Nat → Int)
    (as : List (KernelAction Flit)) :
    let s := kinit seed inCap outCap
    let t := exec (kstep (stepping step)) s as
    ∃ w, Serialized (sourceServer step) s as w t ∧
      t.sent 1 = randomPackets step seed (offersOf w) := by
  intro s t
  obtain ⟨w, hw⟩ := (serves_stepping step).exec s as
  have hinit : Stepped step seed seed [] [] := ⟨rfl, rfl⟩
  have hstepped : Stepped step seed _ w _ := (sourceServer step).word_inv (stepped_call step seed)
    hinit
  exact ⟨w, hw, (hw.sent 1).trans hstepped.2⟩

/-! ## `Rand.clnp` -/

/-- `Rand`. -/
def rand : KernelFn UInt64 Flit :=
  forwarding (fun x _ => xorshift64 x) (fun x f => f.set 3 (xorshift64 x)) silent

/-- The `.init` block of `Rand`. -/
def randInit : UInt64 := 0x123456789ABCDEF0

theorem sent_rand (inCap outCap : Nat → Int) (as : List (KernelAction Flit)) :
    let t := exec (kstep rand) (kinit randInit inCap outCap) as
    t.sent 1 = (t.taken 1).mapIdx fun i f => f.set 3 (xorshift64^[i + 1] randInit) := by
  intro t
  have hacts : ActsOnFlits rand (fun x _ => xorshift64 x)
      fun x f => [(1, f.set 3 (xorshift64 x))] := acts_forwarding fun _ => rfl
  obtain ⟨-, -, -, hsent⟩ := hacts.inv (fun x _ => x) (fun _ req => req) (fun _ => rfl)
    (fun _ => rfl)
    (Q := fun x _ taken sent _ => x = xorshift64^[taken.length] randInit ∧
      sent 1 = taken.mapIdx fun i f => f.set 3 (xorshift64^[i + 1] randInit))
    ⟨rfl, rfl⟩
    (fun x _ taken sent _ f ⟨hx, hsent⟩ => by
      have hnext : xorshift64 x = xorshift64^[taken.length + 1] randInit := by
        rw [hx, Function.iterate_succ_apply']
      refine ⟨?_, ?_⟩
      · rw [List.length_append]
        exact hnext
      · show sent 1 ++ [f.set 3 (xorshift64 x)] = _
        rw [hsent, hnext, List.mapIdx_append]
        simp)
    (fun _ _ _ _ _ _ h => h) inCap outCap as
  exact hsent

end OpenClickNP
