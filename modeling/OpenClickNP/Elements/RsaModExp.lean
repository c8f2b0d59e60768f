import Mathlib.Tactic.IntervalCases
import OpenClickNP.Backend.KernelLoop
import OpenClickNP.Bigint.ModExp

/-!
# `RSA_ModExp_1024`, `RSA_ModExp_2048`, `RSA_ModExp_4096`

One state machine, at three widths: it collects `FLITS` flits on each of three ports, runs
`modexp` one step a handler call, and emits `FLITS` flits. The three files differ in `LIMBS`
and `FLITS` only, and `LIMBS = 4 * FLITS` in each.

What is still owed in a state of the computation is written with the loop of `modexp` itself
(`owed`), so a handler call is correct when it leaves the debt as it is.
-/

namespace OpenClickNP

open Bigint Loop

/-! ## The state -/

/-- `S_COLLECT`, `S_INIT`, …, `S_EMIT`. -/
inductive RsaPhase where
  | collect
  | init
  | findBit
  | square
  | maybeMul
  | nextBit
  | final
  | emit
deriving DecidableEq

/-- The `.state` block. The buffers are `uint64_t[LIMBS]`; copying one to a view of type
`U<LIMBS>` and back is the identity here. -/
structure RsaState (F : Nat) where
  state : RsaPhase
  mIdx : Nat
  eIdx : Nat
  nIdx : Nat
  outIdx : Nat
  bitIdx : Int
  mBuf : U (4 * F)
  eBuf : U (4 * F)
  nBuf : U (4 * F)
  cBuf : U (4 * F)
  mMont : U (4 * F)
  rMont : U (4 * F)
  R2Val : U (4 * F)
  nInv : UInt64

variable {F : Nat}

/-- The `.init` block. It leaves the buffers as they are. -/
def rsaInit (st : RsaState F) : RsaState F :=
  { st with
    state := .collect
    mIdx := 0
    eIdx := 0
    nIdx := 0
    outIdx := 0
    bitIdx := 0
    nInv := 0 }

/-! ## The handler -/

/-- `for (i = 0; i < 4; ++i) buf[idx * 4 + i] = f.get(i);` -/
def storeFlit (buf : U (4 * F)) (idx : Nat) (f : Flit) : U (4 * F) :=
  ⟨(List.range 4).foldl (fun ls i => ls.set (idx * 4 + i) (f.get i)) buf.limbs, by
    simp [List.range_succ]⟩

/-- What is left of one operand after a call in `S_COLLECT`. -/
structure Collected (F : Nat) where
  buf : U (4 * F)
  idx : Nat
  ops : List (PortOp Flit)

/-- `if (idx < FLITS && test_input_port(port))`, for one of the three operands. -/
def collectPort (v : View (RsaState F) Flit) (port idx : Nat) (buf : U (4 * F)) : Collected F :=
  if idx < F && testPort v.inputPort port then
    { buf := storeFlit buf idx (v.inputData port)
      idx := idx + 1
      ops := [.clearInputReady (PORT_BIT port)] }
  else { buf := buf, idx := idx, ops := [] }

def collectStep (v : View (RsaState F) Flit) : RsaState F × List (PortOp Flit) :=
  let st := v.state
  let m := collectPort v 1 st.mIdx st.mBuf
  let e := collectPort v 2 st.eIdx st.eBuf
  let n := collectPort v 3 st.nIdx st.nBuf
  let st' := { st with
    mBuf := m.buf
    mIdx := m.idx
    eBuf := e.buf
    eIdx := e.idx
    nBuf := n.buf
    nIdx := n.idx
    state := if m.idx = F ∧ e.idx = F ∧ n.idx = F then .init else st.state }
  (st', m.ops ++ e.ops ++ n.ops)

def initStep (st : RsaState F) : RsaState F :=
  let nInv := computeNInv st.nBuf
  let R2 := computeR2ModN st.nBuf nInv
  { st with
    nInv := nInv
    R2Val := R2
    mMont := montMul st.mBuf R2 st.nBuf nInv
    rMont := computeRModN st.nBuf
    state := .findBit }

/-- `if (bit_idx < 0) state = S_FINAL; else state = S_SQUARE;` -/
def seekBit (st : RsaState F) (bitIdx : Int) : RsaState F :=
  { st with bitIdx := bitIdx, state := if bitIdx < 0 then .final else .square }

def findBitStep (st : RsaState F) : RsaState F := seekBit st ((st.eBuf.bitlen : Int) - 1)

def squareStep (st : RsaState F) : RsaState F :=
  { st with rMont := montMul st.rMont st.rMont st.nBuf st.nInv, state := .maybeMul }

def maybeMulStep (st : RsaState F) : RsaState F :=
  { st with
    rMont := if st.eBuf.bit st.bitIdx then montMul st.rMont st.mMont st.nBuf st.nInv else st.rMont
    state := .nextBit }

def nextBitStep (st : RsaState F) : RsaState F := seekBit st (st.bitIdx - 1)

def finalStep (st : RsaState F) : RsaState F :=
  { st with cBuf := montMul st.rMont (U.one (4 * F)) st.nBuf st.nInv, state := .emit }

/-- The flit `f` of a call in `S_EMIT`. -/
def outFlit (cBuf : U (4 * F)) (outIdx : Nat) : Flit :=
  let f := (List.range 4).foldl (fun (f : Flit) (i : Nat) =>
    f.set i (cBuf.limbs.getD (outIdx * 4 + i) 0)) {}
  (f.setSop (outIdx == 0)).setEop (outIdx + 1 == F)

def emitStep (st : RsaState F) : RsaState F :=
  if st.outIdx + 1 = F then
    { st with mIdx := 0, eIdx := 0, nIdx := 0, outIdx := 0, state := .collect }
  else { st with outIdx := st.outIdx + 1 }

/-- The `.handler` block. -/
def rsaHandler (v : View (RsaState F) Flit) : BodyResult (RsaState F) Flit :=
  let st := v.state
  match st.state with
  | .collect =>
    { state := (collectStep v).1, ops := (collectStep v).2, ret := some PORT_ALL }
  | .init => { state := initStep st, ops := [], ret := some PORT_ALL }
  | .findBit => { state := findBitStep st, ops := [], ret := some PORT_ALL }
  | .square => { state := squareStep st, ops := [], ret := some PORT_ALL }
  | .maybeMul => { state := maybeMulStep st, ops := [], ret := some PORT_ALL }
  | .nextBit => { state := nextBitStep st, ops := [], ret := some PORT_ALL }
  | .final => { state := finalStep st, ops := [], ret := some PORT_ALL }
  | .emit =>
    if st.outIdx < F then
      { state := emitStep st
        ops := [.setOutputPort 1 (outFlit st.cBuf st.outIdx)]
        ret := some PORT_ALL }
    else { state := st, ops := [], ret := some PORT_ALL }

def rsaModExp (F : Nat) : KernelFn (RsaState F) Flit where
  inPorts := [1, 2, 3]
  outPorts := [1]
  nodup_outPorts := nodup_one
  handler := rsaHandler

def RSA_ModExp_1024 : KernelFn (RsaState 4) Flit := rsaModExp 4
def RSA_ModExp_2048 : KernelFn (RsaState 8) Flit := rsaModExp 8
def RSA_ModExp_4096 : KernelFn (RsaState 16) Flit := rsaModExp 16

/-! ## Transactions -/

/-- The operands of one transaction. -/
structure Operands (F : Nat) where
  m : U (4 * F)
  e : U (4 * F)
  n : U (4 * F)

inductive Operand where
  | m
  | e
  | n
deriving DecidableEq

/-- The port an operand comes in on. -/
def Operand.port : Operand → Nat
  | .m => 1
  | .e => 2
  | .n => 3

def Operands.get (t : Operands F) : Operand → U (4 * F)
  | .m => t.m
  | .e => t.e
  | .n => t.n

def Operands.result (t : Operands F) : U (4 * F) := modexp t.m t.e t.n

def RsaState.operands (st : RsaState F) : Operands F := ⟨st.mBuf, st.eBuf, st.nBuf⟩

def RsaState.idx (st : RsaState F) : Operand → Nat
  | .m => st.mIdx
  | .e => st.eIdx
  | .n => st.nIdx

/-- The flits `fs` spell `x` in limb order; only the first starts a packet and only the last
ends it. -/
structure IsFrame (x : U (4 * F)) (fs : List Flit) : Prop where
  length : fs.length = F
  payload : Flit.payload fs = x.limbs
  sop : ∀ (j : Nat) (h : j < fs.length), fs[j].sop = decide (j = 0)
  eop : ∀ (j : Nat) (h : j < fs.length), fs[j].eop = decide (j + 1 = F)

/-- The flits of the calls in `S_EMIT`. -/
def frame (x : U (4 * F)) : List Flit := (List.range F).map (outFlit x)

/-! ## Flits and limbs -/

theorem get_setLanes (vs : Nat → UInt64) (f : Flit) {i : Nat} (hi : i < 4) :
    ((List.range 4).foldl (fun (f : Flit) (j : Nat) => f.set j (vs j)) f).get i = vs i := by
  have hlane : ∀ (g : Flit) (j : Nat), j < 4 → (g.set j (vs j)).get j = vs j :=
    fun g j hj => Flit.get_set_self g (by omega) (by omega) (vs j)
  have hframe : ∀ (g : Flit) (j k : Nat), j ≠ k → (g.set j (vs j)).get k = g.get k :=
    fun g j k hjk => Flit.get_set_of_ne g (by omega) (vs j)
  simp only [List.range_succ, List.range_zero, List.nil_append, List.foldl_append, List.foldl_cons,
    List.foldl_nil]
  interval_cases i
  · rw [hframe _ 3 0 (by decide), hframe _ 2 0 (by decide), hframe _ 1 0 (by decide),
      hlane _ 0 (by decide)]
  · rw [hframe _ 3 1 (by decide), hframe _ 2 1 (by decide), hlane _ 1 (by decide)]
  · rw [hframe _ 3 2 (by decide), hlane _ 2 (by decide)]
  · rw [hlane _ 3 (by decide)]

theorem lanes_outFlit (x : U (4 * F)) {j : Nat} (hj : j < F) :
    (outFlit x j).lanes = (x.limbs.drop (4 * j)).take 4 := by
  have hlen : x.limbs.length = 4 * F := x.length_limbs
  apply List.ext_getElem
  · simp [hlen]
    omega
  · intro i hi _
    have hi4 : i < 4 := by simpa using hi
    have hget : (outFlit x j).get i = x.limbs.getD (j * 4 + i) 0 := by
      unfold outFlit Flit.setEop Flit.setSop
      simp only [Flit.get_setFlag]
      exact get_setLanes (fun i => x.limbs.getD (j * 4 + i) 0) {} hi4
    have hin : j * 4 + i < x.limbs.length := by omega
    simp only [Flit.lanes, List.getElem_map, List.getElem_range, hget, List.getElem_take,
      List.getElem_drop, List.getD_eq_getElem x.limbs 0 hin]
    congr 1
    omega

theorem payload_outFlits (x : U (4 * F)) {k : Nat} (hk : k ≤ F) :
    Flit.payload ((List.range k).map (outFlit x)) = x.limbs.take (4 * k) := by
  induction k with
  | zero => rfl
  | succ k ih =>
    rw [List.range_succ, List.map_append, Flit.payload_append, ih (by omega), List.map_singleton,
      Flit.payload_singleton, lanes_outFlit x (by omega), Nat.mul_succ, List.take_add]

theorem sop_outFlit (x : U (4 * F)) (j : Nat) : (outFlit x j).sop = decide (j = 0) := by
  unfold outFlit Flit.setEop Flit.setSop Flit.sop
  simp only []
  rw [Flit.flag_setFlag_of_disjoint _ (by decide), Flit.flag_setFlag_self _ (by decide)]
  rfl

theorem eop_outFlit (x : U (4 * F)) (j : Nat) : (outFlit x j).eop = decide (j + 1 = F) := by
  unfold outFlit Flit.setEop Flit.eop
  simp only []
  rw [Flit.flag_setFlag_self _ (by decide)]
  rfl

/-- The flits of `S_EMIT` are a packet that spells `c_buf`. -/
theorem isFrame_frame (x : U (4 * F)) : IsFrame x (frame x) where
  length := by simp [frame]
  payload := by
    rw [frame, payload_outFlits x le_rfl, List.take_of_length_le (by simp)]
  sop := by
    intro j h
    simp only [frame, List.getElem_map, List.getElem_range, sop_outFlit]
  eop := by
    intro j h
    simp only [frame, List.getElem_map, List.getElem_range, eop_outFlit]

theorem outFlits_begin_frame (x : U (4 * F)) {k : Nat} (hk : k ≤ F) :
    (List.range k).map (outFlit x) <+: frame x := by
  have hrange := List.take_prefix k (List.range F)
  rw [List.take_range, Nat.min_eq_left hk] at hrange
  exact hrange.map (outFlit x)

/-- A flit stored at `idx` extends what the buffer holds by its four words. -/
theorem take_storeFlit (buf : U (4 * F)) {idx : Nat} (f : Flit) (h : idx < F) :
    (storeFlit buf idx f).limbs.take (4 * (idx + 1)) = buf.limbs.take (4 * idx) ++ f.lanes := by
  have hlen : buf.limbs.length = 4 * F := buf.length_limbs
  have hset : (storeFlit buf idx f).limbs = (((buf.limbs.set (idx * 4) (f.get 0)).set
      (idx * 4 + 1) (f.get 1)).set (idx * 4 + 2) (f.get 2)).set (idx * 4 + 3) (f.get 3) := by
    simp [storeFlit, List.range_succ]
  apply List.ext_getElem
  · simp [hlen]
    omega
  · intro i hi _
    have hi' : i < 4 * (idx + 1) := lt_of_lt_of_le hi (List.length_take_le _ _)
    rw [List.getElem_take]
    simp only [hset, List.getElem_set]
    by_cases hold : i < 4 * idx
    · rw [List.getElem_append_left (by simp [hlen]; omega), List.getElem_take]
      simp only [show idx * 4 + 3 ≠ i by omega, show idx * 4 + 2 ≠ i by omega,
        show idx * 4 + 1 ≠ i by omega, show idx * 4 ≠ i by omega, if_false]
    · have hnew : i = 4 * idx ∨ i = 4 * idx + 1 ∨ i = 4 * idx + 2 ∨ i = 4 * idx + 3 := by omega
      have hoff : (buf.limbs.take (4 * idx)).length = 4 * idx := by simp [hlen]; omega
      rw [List.getElem_append_right (by omega)]
      simp only [hoff, Flit.lanes, List.getElem_map, List.getElem_range]
      rcases hnew with rfl | rfl | rfl | rfl <;> simp [Nat.mul_comm]

end OpenClickNP
