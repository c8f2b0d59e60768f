import OpenClickNP.Backend.Transduction
import OpenClickNP.Elements.RsaModExp

/-!
# `MontMul_1024.clnp`

The element collects an operand from port 1 and two, back to back, from port 2, and sends the
Montgomery product in four flits, one a call, the first of them in the call that stores the last
operand flit. It works the product out anew for each of the four; that they belong together rests on
the buffers staying as they are until the last of them is sent (`montSim_handler`).
-/

namespace OpenClickNP

open Bigint

/-! ## The element -/

/-- The `.state` block. -/
structure MontState where
  phase : UInt32
  aIdx : Nat
  bIdx : Nat
  nIdx : Nat
  outIdx : Nat
  aBuf : U (4 * 4)
  bBuf : U (4 * 4)
  nBuf : U (4 * 4)
  cBuf : U (4 * 4)

/-- The `.init` block. It leaves the buffers as they are. -/
def montInit (st : MontState) : MontState :=
  { st with phase := 0, aIdx := 0, bIdx := 0, nIdx := 0, outIdx := 0 }

/-- What a part of the handler leaves, and the built-ins that it calls. -/
abbrev MontPart := MontState × List (PortOp Flit)

/-- `if (a_idx < FLITS && test_input_port(PORT_1))` -/
def collectA (v : View MontState Flit) (st : MontState) : MontPart :=
  if st.aIdx < 4 && testPort v.inputPort 1 then
    ({ st with aBuf := storeFlit st.aBuf st.aIdx (v.inputData 1), aIdx := st.aIdx + 1 },
      [.clearInputReady (PORT_BIT 1)])
  else (st, [])

/-- `if (b_idx < FLITS && test_input_port(PORT_2))`, and its `else`. -/
def collectBN (v : View MontState Flit) (st : MontState) : MontPart :=
  if st.bIdx < 4 && testPort v.inputPort 2 then
    (if st.bIdx < 4 then
        { st with bBuf := storeFlit st.bBuf st.bIdx (v.inputData 2), bIdx := st.bIdx + 1 }
      else st,
      [.clearInputReady (PORT_BIT 2)])
  -- the third operand comes in behind the second one, on the same port
  else if st.bIdx == 4 && decide (st.nIdx < 4) && testPort v.inputPort 2 then
    ({ st with nBuf := storeFlit st.nBuf st.nIdx (v.inputData 2), nIdx := st.nIdx + 1 },
      [.clearInputReady (PORT_BIT 2)])
  else (st, [])

/-- `c`, of the operands in the buffers. -/
def MontState.product (st : MontState) : U (4 * 4) :=
  montMul st.aBuf st.bBuf st.nBuf (computeNInv st.nBuf)

/-- All operand flits are there. -/
def MontState.Full (st : MontState) : Prop := st.aIdx = 4 ∧ st.bIdx = 4 ∧ st.nIdx = 4

instance (st : MontState) : Decidable st.Full := inferInstanceAs (Decidable (_ ∧ _ ∧ _))

/-- The last `if`: a flit of the product is sent. -/
def emitC (st : MontState) : MontPart :=
  if st.Full ∧ st.outIdx < 4 then
    let st := { st with cBuf := st.product }
    let f : Flit := outFlit (F := 4) st.cBuf st.outIdx
    let st := { st with outIdx := st.outIdx + 1 }
    (if st.outIdx = 4 then { st with aIdx := 0, bIdx := 0, nIdx := 0, outIdx := 0 } else st,
      [.setOutputPort 1 f])
  else (st, [])

/-- The `.handler` block. -/
def montMulHandler (v : View MontState Flit) : BodyResult MontState Flit :=
  let a := collectA v v.state
  let bn := collectBN v a.1
  let c := emitC bn.1
  { state := c.1, ops := a.2 ++ bn.2 ++ c.2, ret := some PORT_ALL }

/-- `MontMul_1024`. -/
def montMul1024 : KernelFn MontState Flit where
  inPorts := [1, 2]
  outPorts := [1]
  nodup_outPorts := nodup_one
  handler := montMulHandler

/-! ## Transactions -/

/-- The operands of one transaction. -/
structure MontOperands where
  a : U (4 * 4)
  b : U (4 * 4)
  n : U (4 * 4)

namespace MontOperands

/-- `mont_mul(a, b, n)`, with `compute_n_inv(n)`. -/
def result (t : MontOperands) : U (4 * 4) := Bigint.montMul t.a t.b t.n (computeNInv t.n)

/-- The words that come in on a port. -/
def words (t : MontOperands) (p : Nat) : List UInt64 :=
  if p = 1 then t.a.limbs else t.b.limbs ++ t.n.limbs

/-- For an odd modulus the answer is `a · b · R⁻¹ mod n`, with `R = 2^1024`. -/
theorem result_spec {t : MontOperands} (hodd : t.n.toNat % 2 = 1) (hb : t.b.toNat < t.n.toNat) :
    t.result.toNat < t.n.toNat ∧
      t.result.toNat * 2 ^ (64 * (4 * 4)) ≡ t.a.toNat * t.b.toNat [MOD t.n.toNat] := by
  have hn : 0 < t.n.toNat := by omega
  have ha : t.a.toNat < 2 ^ (64 * (4 * 4)) := t.a.toNat_lt
  have hab : t.a.toNat * t.b.toNat < 2 ^ (64 * (4 * 4)) * t.n.toNat :=
    Nat.mul_lt_mul_of_lt_of_lt ha hb
  exact montMul_spec hn (computeNInv_spec hodd) hab

end MontOperands

def MontState.operands (st : MontState) : MontOperands := ⟨st.aBuf, st.bBuf, st.nBuf⟩

/-- The words of the transaction in work that are in the buffers. -/
def MontState.collected (st : MontState) (p : Nat) : List UInt64 :=
  if p = 1 then st.aBuf.limbs.take (4 * st.aIdx)
  else st.bBuf.limbs.take (4 * st.bIdx) ++ st.nBuf.limbs.take (4 * st.nIdx)

/-- The element has answered the operands `done`, one after the other. It has taken these from its
ports, and since then what is in the buffers; it has sent the answers, and `outIdx` flits of the
next one. So it is in front of the last part of a call. -/
structure MontCollected (done : List MontOperands) (st : MontState) (taken : Nat → List Flit)
    (sent : List Flit) : Prop where
  aIdx_le : st.aIdx ≤ 4
  bIdx_le : st.bIdx ≤ 4
  nIdx_le : st.nIdx ≤ 4
  second : st.nIdx ≠ 0 → st.bIdx = 4
  outIdx_lt : st.outIdx < 4
  sending : st.outIdx ≠ 0 → st.Full
  taken : ∀ p ∈ [1, 2], Flit.payload (taken p)
    = done.flatMap (fun t => t.words p) ++ st.collected p
  sent : sent = done.flatMap (fun t => frame (F := 4) t.result)
    ++ (List.range st.outIdx).map (outFlit (F := 4) st.product)

/-- And behind a call it waits for an operand flit, or has sent the first flit of the answer. -/
structure MontSim (done : List MontOperands) (st : MontState) (taken : Nat → List Flit)
    (sent : List Flit) : Prop extends MontCollected done st taken sent where
  answered : st.Full → st.outIdx ≠ 0

/-! ## Collecting -/

/-- The flit that some built-ins take from a port. -/
def takenPart (v : View MontState Flit) (ops : List (PortOp Flit)) (p : Nat) : List Flit :=
  if testPort v.inputPort p && ops.any (PortOp.clears p) then [v.inputData p] else []

section
variable {done : List MontOperands} {v : View MontState Flit} {st : MontState}
  {taken : Nat → List Flit} {sent : List Flit}

theorem takenPart_nil (v : View MontState Flit) (p : Nat) : takenPart v [] p = [] := by
  unfold takenPart
  rw [List.any_nil, Bool.and_false]
  rfl

theorem takenPart_clear {p q : Nat} (hp : p < 32) (hq : testPort v.inputPort q = true) :
    takenPart v [.clearInputReady (PORT_BIT q)] p = if p = q then [v.inputData p] else [] := by
  have hclears : ([.clearInputReady (PORT_BIT q)] : List (PortOp Flit)).any (PortOp.clears p)
      = decide (p = q) := by
    simp [PortOp.clears, testPort_PORT_BIT, hp]
  unfold takenPart
  rw [hclears]
  by_cases hpq : p = q
  · subst hpq
    simp [hq]
  · simp [hpq]

/-- Before an answer the element has sent whole answers. -/
theorem MontCollected.sent_of_short (h : MontCollected done st taken sent) (hshort : ¬ st.Full) :
    st.outIdx = 0 ∧ sent = done.flatMap fun t => frame (F := 4) t.result := by
  have hzero : st.outIdx = 0 := by
    by_contra hne
    exact hshort (h.sending hne)
  have hsent := h.sent
  rw [hzero, List.range_zero, List.map_nil, List.append_nil] at hsent
  exact ⟨hzero, hsent⟩

/-- A flit is taken from a port, and its words join those of the transaction in work. -/
theorem MontCollected.store (h : MontCollected done st taken sent) {st' : MontState} {q : Nat}
    (hready : testPort v.inputPort q = true) (hshort : ¬ st.Full) (hout : st'.outIdx = st.outIdx)
    (hle : st'.aIdx ≤ 4 ∧ st'.bIdx ≤ 4 ∧ st'.nIdx ≤ 4) (hsecond : st'.nIdx ≠ 0 → st'.bIdx = 4)
    (hstore : ∀ p ∈ [1, 2],
      st'.collected p = st.collected p ++ if p = q then (v.inputData q).lanes else []) :
    MontCollected done st'
      (fun p => taken p ++ takenPart v [.clearInputReady (PORT_BIT q)] p) sent := by
  obtain ⟨hzero, hsent⟩ := h.sent_of_short hshort
  have hnone : st'.outIdx = 0 := hout.trans hzero
  refine ⟨hle.1, hle.2.1, hle.2.2, hsecond, hout ▸ h.outIdx_lt, fun hne => absurd hnone hne, ?_, ?_⟩
  · intro p hp
    have hlt : p < 32 := by
      rcases List.mem_pair.mp hp with rfl | rfl <;> decide
    rw [takenPart_clear hlt hready, Flit.payload_append, h.taken p hp, hstore p hp,
      List.append_assoc]
    by_cases hpq : p = q
    · subst hpq
      rw [if_pos rfl, if_pos rfl, Flit.payload_singleton]
    · rw [if_neg hpq, if_neg hpq]
      rfl
  · rw [hsent, hnone, List.range_zero, List.map_nil, List.append_nil]

/-- A flit from port 1. -/
theorem MontCollected.collectA (h : MontCollected done st taken sent) :
    MontCollected done (collectA v st).1 (fun p => taken p ++ takenPart v (collectA v st).2 p)
      sent := by
  unfold OpenClickNP.collectA
  split
  · rename_i hcond
    obtain ⟨hlt, hready⟩ := Bool.and_eq_true_iff.mp hcond
    have hlt : st.aIdx < 4 := of_decide_eq_true hlt
    refine h.store hready (fun hfull => hlt.ne hfull.1) rfl ⟨hlt, h.bIdx_le, h.nIdx_le⟩ h.second ?_
    intro p hp
    rcases List.mem_pair.mp hp with rfl | rfl
    · exact take_storeFlit (F := 4) st.aBuf (v.inputData 1) hlt
    · exact (List.append_nil _).symm
  · simpa [takenPart_nil] using h

/-- A flit from port 2, of the second operand or of the third. -/
theorem MontCollected.collectBN (h : MontCollected done st taken sent) :
    MontCollected done (collectBN v st).1 (fun p => taken p ++ takenPart v (collectBN v st).2 p)
      sent := by
  unfold OpenClickNP.collectBN
  split
  · rename_i hcond
    obtain ⟨hlt, hready⟩ := Bool.and_eq_true_iff.mp hcond
    have hlt : st.bIdx < 4 := of_decide_eq_true hlt
    -- nothing of the third operand is there before the second one is complete
    have hnone : st.nIdx = 0 := by
      by_contra hne
      exact hlt.ne (h.second hne)
    rw [if_pos hlt]
    refine h.store hready (fun hfull => hlt.ne hfull.2.1) rfl ⟨h.aIdx_le, hlt, h.nIdx_le⟩
      (fun hne => absurd hnone hne) ?_
    intro p hp
    rcases List.mem_pair.mp hp with rfl | rfl
    · exact (List.append_nil _).symm
    · have hstore := take_storeFlit (F := 4) st.bBuf (v.inputData 2) hlt
      show _ ++ st.nBuf.limbs.take (4 * st.nIdx) = (_ ++ st.nBuf.limbs.take (4 * st.nIdx)) ++ _
      rw [hnone, Nat.mul_zero, List.take_zero, List.append_nil, List.append_nil]
      exact hstore
  · split
    · rename_i hcond
      obtain ⟨hmore, hready⟩ := Bool.and_eq_true_iff.mp hcond
      obtain ⟨hfirst, hlt⟩ := Bool.and_eq_true_iff.mp hmore
      have hlt : st.nIdx < 4 := of_decide_eq_true hlt
      refine h.store hready (fun hfull => hlt.ne hfull.2.2) rfl ⟨h.aIdx_le, h.bIdx_le, hlt⟩
        (fun _ => eq_of_beq hfirst) ?_
      intro p hp
      rcases List.mem_pair.mp hp with rfl | rfl
      · exact (List.append_nil _).symm
      · have hstore := take_storeFlit (F := 4) st.nBuf (v.inputData 2) hlt
        exact (congrArg (_ ++ ·) hstore).trans (List.append_assoc _ _ _).symm
    · simpa [takenPart_nil] using h

/-! ## Sending -/

theorem collected_of_full (h : st.Full) (p : Nat) : st.collected p = st.operands.words p := by
  obtain ⟨ha, hb, hn⟩ := h
  unfold MontState.collected MontOperands.words
  rw [ha, hb, hn, List.take_of_length_le (by simp), List.take_of_length_le (by simp),
    List.take_of_length_le (by simp)]
  rfl

/-- The transactions answered after a call: one more when it sends the last flit. -/
def montDone (st : MontState) (done : List MontOperands) : List MontOperands :=
  if st.Full ∧ st.outIdx + 1 = 4 then done ++ [st.operands] else done

/-- The answer so far, and its next flit. -/
theorem MontCollected.sent_succ (h : MontCollected done st taken sent) :
    sent ++ [outFlit (F := 4) st.product st.outIdx]
      = done.flatMap (fun t => frame (F := 4) t.result)
        ++ (List.range (st.outIdx + 1)).map (outFlit (F := 4) st.product) := by
  rw [h.sent, List.range_succ, List.map_append, List.map_singleton, List.append_assoc]

/-- With its last flit the answer is complete, and collecting starts again. -/
theorem MontCollected.sendLast (h : MontCollected done st taken sent) (hfull : st.Full)
    (hlast : st.outIdx + 1 = 4) (c : U (4 * 4)) :
    MontSim (done ++ [st.operands])
      { st with cBuf := c, aIdx := 0, bIdx := 0, nIdx := 0, outIdx := 0 } taken
      (sent ++ [outFlit (F := 4) st.product st.outIdx]) where
  aIdx_le := Nat.zero_le _
  bIdx_le := Nat.zero_le _
  nIdx_le := Nat.zero_le _
  second := fun hne => absurd rfl hne
  outIdx_lt := Nat.succ_pos _
  sending := fun hne => absurd rfl hne
  answered := fun hnew => absurd hnew.1 (Nat.succ_ne_zero _).symm
  taken := by
    intro p hp
    have hempty : MontState.collected
        { st with cBuf := c, aIdx := 0, bIdx := 0, nIdx := 0, outIdx := 0 } p = [] := by
      unfold MontState.collected
      simp
    rw [hempty, h.taken p hp, collected_of_full hfull, List.flatMap_append,
      List.flatMap_singleton, List.append_nil]
  sent := by
    rw [h.sent_succ, hlast, List.flatMap_append, List.flatMap_singleton]
    exact (List.append_nil _).symm

theorem MontCollected.sendNext (h : MontCollected done st taken sent) (hfull : st.Full)
    (hmore : st.outIdx + 1 ≠ 4) (c : U (4 * 4)) :
    MontSim done { st with cBuf := c, outIdx := st.outIdx + 1 } taken
      (sent ++ [outFlit (F := 4) st.product st.outIdx]) where
  aIdx_le := h.aIdx_le
  bIdx_le := h.bIdx_le
  nIdx_le := h.nIdx_le
  second := h.second
  outIdx_lt := by
    have hlt := h.outIdx_lt
    show st.outIdx + 1 < 4
    omega
  sending := fun _ => hfull
  answered := fun _ => Nat.succ_ne_zero _
  taken := h.taken
  sent := h.sent_succ

/-- The last part of a call. -/
theorem MontCollected.emitC (h : MontCollected done st taken sent) :
    MontSim (montDone st done) (emitC st).1 taken (sent ++ setsOf 1 (emitC st).2) := by
  unfold montDone OpenClickNP.emitC
  by_cases hfull : st.Full
  · by_cases hlast : st.outIdx + 1 = 4
    · rw [if_pos ⟨hfull, hlast⟩, if_pos ⟨hfull, h.outIdx_lt⟩]
      simp only [if_pos hlast]
      exact h.sendLast hfull hlast st.product
    · rw [if_neg fun hboth => hlast hboth.2, if_pos ⟨hfull, h.outIdx_lt⟩]
      simp only [if_neg hlast]
      exact h.sendNext hfull hlast st.product
  · rw [if_neg fun hboth => hfull hboth.1, if_neg fun hboth => hfull hboth.1]
    show MontSim done st taken (sent ++ [])
    rw [List.append_nil]
    exact ⟨h, fun hnow => absurd hnow hfull⟩

/-! ## A call -/

/-- The state block in front of the last part of a call. -/
def filled (v : View MontState Flit) : MontState := (collectBN v (collectA v v.state).1).1

/-- A part of the handler that collects takes a flit of its port, or none. -/
theorem ops_collectA (v : View MontState Flit) (st : MontState) :
    (collectA v st).2 = [] ∨ (collectA v st).2 = [.clearInputReady (PORT_BIT 1)] := by
  unfold OpenClickNP.collectA
  split
  · exact Or.inr rfl
  · exact Or.inl rfl

theorem ops_collectBN (v : View MontState Flit) (st : MontState) :
    (collectBN v st).2 = [] ∨ (collectBN v st).2 = [.clearInputReady (PORT_BIT 2)] := by
  unfold OpenClickNP.collectBN
  split
  · exact Or.inr rfl
  · split
    · exact Or.inr rfl
    · exact Or.inl rfl

theorem ops_montMul (v : View MontState Flit) : (montMulHandler v).ops = (collectA v v.state).2
    ++ (collectBN v (collectA v v.state).1).2 ++ (OpenClickNP.emitC (filled v)).2 := rfl

/-- Only its own part of the handler takes the flit of a port. -/
theorem takenIn_montMul (v : View MontState Flit) {p : Nat} (hp : p ∈ [1, 2]) :
    takenIn p v (montMulHandler v) = takenPart v (collectA v v.state).2 p
      ++ takenPart v (collectBN v (collectA v v.state).1).2 p := by
  have hnone : (OpenClickNP.emitC (filled v)).2.any (PortOp.clears p) = false := by
    unfold OpenClickNP.emitC
    split <;> rfl
  have hown : ∀ q, ([.clearInputReady (PORT_BIT q)] : List (PortOp Flit)).any (PortOp.clears p)
      = testPort (PORT_BIT q) p := fun q => by simp [PortOp.clears]
  unfold takenIn takenPart
  rw [ops_montMul, List.any_append, List.any_append, hnone, Bool.or_false]
  rcases ops_collectA v v.state with hA | hA <;>
    rcases ops_collectBN v (collectA v v.state).1 with hB | hB <;>
    rw [hA, hB] <;> rcases List.mem_pair.mp hp with rfl | rfl <;>
    cases testPort v.inputPort _ <;> simp [hown, testPort_PORT_BIT]

/-- And only the last one sends. -/
theorem setsOf_montMul (v : View MontState Flit) :
    setsOf 1 (montMulHandler v).ops = setsOf 1 (OpenClickNP.emitC (filled v)).2 := by
  rw [ops_montMul, setsOf_append, setsOf_append]
  rcases ops_collectA v v.state with hA | hA <;>
    rcases ops_collectBN v (collectA v v.state).1 with hB | hB <;> rw [hA, hB] <;> rfl

/-- **A call keeps the simulation**, whatever it finds on its ports. -/
theorem montSim_handler (h : MontSim done v.state taken sent) :
    MontSim (montDone (filled v) done) (montMulHandler v).state
      (fun p => taken p ++ takenIn p v (montMulHandler v))
      (sent ++ setsOf 1 (montMulHandler v).ops) := by
  -- the three parts of the handler, one after the other
  have hend := (h.toMontCollected.collectA (v := v)).collectBN (v := v) |>.emitC
  rw [setsOf_montMul]
  refine { hend with taken := fun p hp => ?_ }
  rw [takenIn_montMul v hp, ← List.append_assoc]
  exact hend.taken p hp

end

end OpenClickNP
