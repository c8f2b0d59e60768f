import OpenClickNP.Backend.CallChain
import OpenClickNP.Lib.Pipeline

/-!
# `FlowCache.clnp`

A direct-mapped cache in two stages: a call first completes the lookup of the flit that the call
before has latched, and then latches the next one. Since the write-back of a flit comes before the
next flit is even latched, consecutive flits with the same index do no harm: the element is the
cache that works on one flit at a time, one call behind (`simulates_flowCache`).
-/

namespace OpenClickNP

open Run Pipeline

/-! ## The element -/

/-- The `.state` block. The index is below `SIZE`. -/
structure FlowCacheState where
  key : Fin 1024 → UInt32
  val : Fin 1024 → UInt32
  valid : Fin 1024 → Bool
  s1Valid : Bool
  s1Idx : Fin 1024
  s1Key : UInt32
  s1Flit : Flit

/-- The `.init` block: whatever the memory holds, no entry is valid, and no flit is latched. -/
def flowCacheInit (memory : FlowCacheState) : FlowCacheState :=
  { memory with valid := fun _ => false, s1Valid := false }

theorem toNat_flowMask (k : UInt32) : (k &&& (1024 - 1)).toNat = k.toNat % 1024 := by
  rw [UInt32.toNat_and]
  exact Nat.and_two_pow_sub_one_eq_mod k.toNat 10

theorem flowIndex_lt (k : UInt32) : (k &&& (1024 - 1)).toNat < 1024 := by
  rw [toNat_flowMask]
  exact Nat.mod_lt _ (by decide)

/-- `k32 & (_state.SIZE - 1)`. -/
def flowIndex (k : UInt32) : Fin 1024 := ⟨(k &&& (1024 - 1)).toNat, flowIndex_lt k⟩

namespace FlowCacheState

/-- The test of stage 2. -/
def hit (st : FlowCacheState) : Bool := st.valid st.s1Idx && st.key st.s1Idx == st.s1Key

/-- The state behind stage 2. -/
def complete (st : FlowCacheState) : FlowCacheState :=
  if st.s1Valid then
    if st.hit then { st with s1Valid := false }
    else
      { st with
        key := Function.update st.key st.s1Idx st.s1Key
        val := Function.update st.val st.s1Idx 0
        valid := Function.update st.valid st.s1Idx true
        s1Valid := false }
  else st

/-- The flit that stage 2 sends. -/
def completed (st : FlowCacheState) : List Flit :=
  if st.s1Valid then
    [if st.hit then st.s1Flit.set 2 (st.val st.s1Idx).toUInt64 else st.s1Flit]
  else []

/-- The state behind stage 1, after `read_input_port`. -/
def latch (st : FlowCacheState) (f : Flit) : FlowCacheState :=
  let k32 := (f.get 0).toUInt32
  { st with s1Key := k32, s1Idx := flowIndex k32, s1Flit := f, s1Valid := true }

end FlowCacheState

/-- The `.handler` block. -/
def flowCacheHandler (v : View FlowCacheState Flit) : BodyResult FlowCacheState Flit :=
  -- stage 2 runs first, so stage 1 finds `s1_valid` cleared
  let st := v.state.complete
  let latches := testPort v.inputPort 1 && !st.s1Valid
  { state := if latches then st.latch (v.inputData 1) else st
    ops := v.state.completed.map (.setOutputPort 1) ++
      if latches then [.clearInputReady (PORT_BIT 1)] else []
    ret := some (PORT_BIT 1) }

/-- `FlowCache`. -/
def flowCache : KernelFn FlowCacheState Flit where
  inPorts := [1]
  outPorts := [1]
  nodup_outPorts := nodup_one
  handler := flowCacheHandler

/-! ## The element as a machine -/

theorem s1Valid_complete (st : FlowCacheState) : st.complete.s1Valid = false := by
  unfold FlowCacheState.complete
  split
  · split <;> rfl
  · rename_i hfree
    exact Bool.eq_false_of_not_eq_true hfree

def flowCacheMachine : Transducer FlowCacheState (Option Flit) Flit where
  next st x := x.elim st.complete st.complete.latch
  out st _ := st.completed

/-- Stage 1 always finds its registers free. -/
theorem handler_flowCache (v : View FlowCacheState Flit) :
    (flowCache.handler v).state = flowCacheMachine.next v.state (offered v) ∧
      (flowCache.handler v).ops = v.state.completed.map (.setOutputPort 1) ++
        if testPort v.inputPort 1 then [.clearInputReady (PORT_BIT 1)] else [] := by
  show (flowCacheHandler v).state = _ ∧ (flowCacheHandler v).ops = _
  unfold flowCacheHandler
  simp only [s1Valid_complete, Bool.not_false, Bool.and_true]
  refine ⟨?_, trivial⟩
  unfold offered
  split <;> rfl

theorem transduces_flowCache : Transduces flowCache id (fun _ => True) flowCacheMachine where
  inPorts := rfl
  outPorts := rfl
  returns _ := rfl
  state v := (handler_flowCache v).1
  taken v := by
    -- what stage 2 sends clears no port
    rw [takenIn, (handler_flowCache v).2, offered, List.any_append]
    cases testPort v.inputPort 1 with
    | true => simp [PortOp.clears, testPort_PORT_BIT]
    | false => rfl
  sets v := by
    rw [(handler_flowCache v).2]
    show _ = v.state.completed
    unfold setsOf FlowCacheState.completed
    cases v.state.s1Valid <;> cases testPort v.inputPort 1 <;> simp
  signalState _ _ := rfl
  signalOps _ := rfl
  signalRet _ := rfl

theorem plain_flowCache : Plain flowCache 1 where
  mem := List.mem_singleton_self 1
  lt := by decide
  plain v op hop := by
    rw [(handler_flowCache v).2, List.mem_append, List.mem_map] at hop
    rcases hop with ⟨f, -, rfl⟩ | hop
    · rfl
    · split at hop
      · rw [List.mem_singleton.mp hop]
        rfl
      · cases hop
  length_le v := by
    rw [transduces_flowCache.sets]
    show v.state.completed.length ≤ 1
    unfold FlowCacheState.completed
    split
    · exact Nat.le_refl 1
    · exact Nat.zero_le 1
  signal _ := rfl

/-! ## The cache -/

/-- The arrays of the cache. -/
structure FlowTable where
  key : Fin 1024 → UInt32
  val : Fin 1024 → UInt32
  valid : Fin 1024 → Bool

/-- The key of a flit: the low half of lane 0. -/
def flowKey (f : Flit) : UInt32 := (f.get 0).toUInt32

/-- The entry that a key is mapped to. -/
def entryOf (k : UInt32) : Fin 1024 := ⟨k.toNat % 1024, Nat.mod_lt _ (Nat.succ_pos 1023)⟩

theorem flowIndex_eq (k : UInt32) : flowIndex k = entryOf k := Fin.ext (toNat_flowMask k)

/-- The entry of the key is valid, and has the key. -/
def FlowTable.Hits (t : FlowTable) (f : Flit) : Prop :=
  t.valid (entryOf (flowKey f)) = true ∧ t.key (entryOf (flowKey f)) = flowKey f

instance FlowTable.decidableHits (t : FlowTable) (f : Flit) : Decidable (t.Hits f) :=
  inferInstanceAs (Decidable (_ ∧ _))

/-- The direct-mapped cache that works on one flit at a time: it looks the key up, and on a miss
puts it in with the value 0. -/
def directMapped : Transducer FlowTable Flit Flit where
  next t f :=
    if t.Hits f then t
    else
      { key := Function.update t.key (entryOf (flowKey f)) (flowKey f)
        val := Function.update t.val (entryOf (flowKey f)) 0
        valid := Function.update t.valid (entryOf (flowKey f)) true }
  out t f := [if t.Hits f then f.set 2 (t.val (entryOf (flowKey f))).toUInt64 else f]

/-! ## The simulation -/

namespace FlowCacheState

/-- The arrays. -/
def table (st : FlowCacheState) : FlowTable := { key := st.key, val := st.val, valid := st.valid }

/-- The flit in the registers between the stages. -/
def latchedFlit (st : FlowCacheState) : Option Flit := if st.s1Valid then some st.s1Flit else none

/-- The registers hold the key and the index of the flit. -/
def Registered (st : FlowCacheState) : Prop :=
  st.s1Valid = true → st.s1Key = flowKey st.s1Flit ∧ st.s1Idx = entryOf (flowKey st.s1Flit)

variable {st : FlowCacheState}

theorem registered_complete (st : FlowCacheState) : st.complete.Registered := by
  intro hvalid
  rw [s1Valid_complete] at hvalid
  cases hvalid

theorem hit_iff (h : st.Registered) (hvalid : st.s1Valid = true) :
    st.hit = true ↔ st.table.Hits st.s1Flit := by
  obtain ⟨hkey, hidx⟩ := h hvalid
  unfold hit FlowTable.Hits
  rw [hkey, hidx, Bool.and_eq_true, beq_iff_eq]
  rfl

/-- Stage 2 is a step of the cache with the flit in the registers. -/
theorem table_complete (h : st.Registered) :
    st.complete.table = (whenReady directMapped).next st.table st.latchedFlit ∧
      st.completed = (whenReady directMapped).out st.table st.latchedFlit := by
  unfold complete completed latchedFlit
  cases hvalid : st.s1Valid with
  | false => exact ⟨rfl, rfl⟩
  | true =>
    obtain ⟨hkey, hidx⟩ := h hvalid
    have hiff := hit_iff h hvalid
    show (if st.hit = true then _ else _ : FlowCacheState).table = ite _ _ _ ∧
      [ite _ _ _] = [ite _ _ _]
    -- the element and the cache test the same entry
    by_cases hhit : st.hit = true
    · rw [if_pos hhit, if_pos (hiff.mp hhit), if_pos hhit, if_pos (hiff.mp hhit), hidx]
      exact ⟨rfl, rfl⟩
    · rw [if_neg hhit, if_neg (mt hiff.mpr hhit), if_neg hhit, if_neg (mt hiff.mpr hhit)]
      refine ⟨?_, rfl⟩
      unfold table
      simp only [hidx, hkey]

end FlowCacheState

/-- The state of the element and the state of the cache in two stages. -/
structure Staged (st : FlowCacheState) (t : FlowTable × Option Flit) : Prop where
  table : st.table = t.1
  latched : st.latchedFlit = t.2
  registered : st.Registered

/-- **One call**: the element works as the cache in two stages. -/
theorem simulates_flowCache (st : FlowCacheState) (t : FlowTable × Option Flit) (x : Option Flit)
    (h : Staged st t) : flowCacheMachine.out st x = (staged directMapped).out t x ∧
      Staged (flowCacheMachine.next st x) ((staged directMapped).next t x) := by
  obtain ⟨htable, hout⟩ := FlowCacheState.table_complete h.registered
  rw [h.table, h.latched] at htable hout
  refine ⟨hout, ?_⟩
  cases x with
  | none =>
    refine ⟨htable, ?_, st.registered_complete⟩
    show st.complete.latchedFlit = none
    rw [FlowCacheState.latchedFlit, s1Valid_complete]
    rfl
  | some f =>
    refine ⟨htable, rfl, fun _ => ⟨rfl, ?_⟩⟩
    exact flowIndex_eq (flowKey f)

theorem staged_flowCacheInit (memory : FlowCacheState) :
    Staged (flowCacheInit memory) ((flowCacheInit memory).table, none) :=
  ⟨rfl, rfl, fun hvalid => absurd hvalid Bool.false_ne_true⟩

/-! ## Runs -/

/-- **`FlowCache` is the cache that works on one flit at a time, one call behind.** For all stream
capacities and every run, whatever comes in at what time: every call reads what it finds; each call
sends what the cache puts out for what the call before has read, so that each flit goes out once
and in order; and the arrays are those of the cache for all flits read, once no flit is latched
between the stages. -/
theorem flowCache_refines (memory : FlowCacheState) (inCap outCap : Nat → Int)
    (as : List (KernelAction Flit)) :
    let s₀ := kinit (flowCacheInit memory) inCap outCap
    let s := exec (kstep flowCache) s₀ as
    let t := (flowCacheInit memory).table
    let xs := calls flowCache s₀ as
    s.taken 1 = xs.reduceOption ∧
      sentByCall flowCache 1 s₀ as = (whenReady directMapped).outs t (none :: xs).dropLast ∧
      s.sent 1 = directMapped.output t (none :: xs).dropLast.reduceOption ∧
      (s.locals.state.s1Valid = false → s.locals.state.table = directMapped.state t (s.taken 1)) ∧
      (Meets (kstep flowCache) (FindsRoom 1) s₀ as → Lossless 1 s) := by
  intro s₀ s t xs
  have hrun := transduces_flowCache.run (s := s₀) (quiet_of_none rfl rfl)
    (meets_posts (fun _ => trivial) s₀ as)
  obtain ⟨houts, hstaged⟩ := Transducer.outs_eq_of_simulates Staged simulates_flowCache
    (staged_flowCacheInit memory) xs
  have htaken : s.taken 1 = xs.reduceOption := hrun.taken
  have hstate : s.locals.state = flowCacheMachine.state (flowCacheInit memory) xs := hrun.state
  have hsets : sentByCall flowCache 1 s₀ as
      = (whenReady directMapped).outs t (none :: xs).dropLast :=
    (transduces_flowCache.sentByCall_eq rfl rfl as).trans (houts.trans (outs_staged t none xs))
  refine ⟨htaken, hsets, ?_, fun hempty => ?_, ?_⟩
  · have hflat := congrArg List.flatten hsets
    rw [Transducer.flatten_outs, output_whenReady] at hflat
    rw [← hflat, flatten_sentByCall]
    exact sent_exec rfl rfl as 1
  · rw [hstate] at hempty ⊢
    -- with no flit between the stages the element is not a call behind
    have hnone : ((staged directMapped).state (t, none) xs).2 = none := by
      rw [← hstaged.latched, FlowCacheState.latchedFlit, hempty]
      rfl
    rw [hstaged.table, state_of_empty hnone, state_whenReady, htaken]
    rfl
  · exact lossless_of_findsRoom plain_flowCache (flowCacheInit memory) inCap outCap as

end OpenClickNP
