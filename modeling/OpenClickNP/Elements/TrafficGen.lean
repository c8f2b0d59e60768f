import OpenClickNP.Backend.CallChain
import OpenClickNP.Lib.Framing

/-!
# `TrafficGen.clnp`

Each call sends one flit, the last one of its packet when the position behind it is the size. The
size is read anew in each call, and compared for equality: a signal that sets it to the position in
the packet or below makes the counter miss it. As long as no call finds the size there, every packet
is well-framed, numbered and no longer than the size (`trafficGen_generates`); behind such a call no
packet ends until the counter has run over (`trafficGen_overruns`).
-/

namespace OpenClickNP

open Run FlagFraming

/-! ## The element -/

/-- The `.state` block. -/
structure TrafficState where
  seq : UInt64
  pktSizeFlits : UInt32
  curFlit : UInt32

/-- The `.init` block. -/
def trafficInit : TrafficState := { seq := 0, pktSizeFlits := 16, curFlit := 0 }

/-- The flit that a call sends. -/
def TrafficState.flit (st : TrafficState) : Flit :=
  ((({} : Flit).set 0 st.seq).setSop (st.curFlit == 0)).setEop (st.curFlit + 1 == st.pktSizeFlits)

/-- The state behind it. -/
def TrafficState.advance (st : TrafficState) : TrafficState :=
  let st := { st with curFlit := st.curFlit + 1 }
  -- `==`, not `>=`: a position that is beyond the size is not caught
  if st.curFlit = st.pktSizeFlits then { st with curFlit := 0, seq := st.seq + 1 } else st

/-- The `.handler` block. -/
def trafficGenHandler (v : View TrafficState Flit) : BodyResult TrafficState Flit where
  state := v.state.advance
  ops := [.setOutputPort 1 v.state.flit]
  ret := some PORT_ALL

/-- The `.signal` block. -/
def trafficGenSignal (v : View TrafficState Flit) : BodyResult TrafficState Flit where
  state := if v.event.cmd = 1 then { v.state with pktSizeFlits := v.event.sparam } else v.state
  ops := []
  ret := none

/-- `TrafficGen`. -/
def trafficGen : KernelFn TrafficState Flit where
  inPorts := []
  outPorts := [1]
  nodup_outPorts := nodup_one
  hasSignal := true
  handler := trafficGenHandler
  signal := trafficGenSignal

/-! ## What it is for -/

/-- A flit, and the size that was configured when it was sent. -/
abbrev Emission := Flit × UInt32

/-- What the calls of a run have sent. -/
def emissions (s : KernelState TrafficState Flit) (as : List (KernelAction Flit)) :
    List Emission :=
  (handlerViews trafficGen s as).map fun v => (v.state.flit, v.state.pktSizeFlits)

/-- One sequence number for a packet, and a size configured while it was sent that is not below
its length. -/
structure Numbered (n : Nat) (xs : List Emission) : Prop where
  number : ∀ x ∈ xs, x.1.get 0 = UInt64.ofNat n
  length : xs ≠ [] → ∃ x ∈ xs, xs.length ≤ x.2.toNat

/-- A packet of the generator. -/
structure IsPacket (n : Nat) (packet : List Emission) : Prop extends Numbered n packet where
  framed : WellFramed Flit.sop Flit.eop (packet.map Prod.fst)

/-- The packet that is being sent, if there is one. -/
structure IsBegun (n : Nat) (rest : List Emission) : Prop extends Numbered n rest where
  framed : Begun Flit.sop Flit.eop (rest.map Prod.fst)

/-- Well-framed packets, numbered from 0 on, and the first part of the next one. -/
def Generated (xs : List Emission) : Prop :=
  ∃ (packets : List (List Emission)) (rest : List Emission), xs = packets.flatten ++ rest ∧
    (∀ n packet, packets[n]? = some packet → IsPacket n packet) ∧ IsBegun packets.length rest

/-! ## One call -/

section
variable {st : TrafficState}

theorem sop_flit (st : TrafficState) : st.flit.sop = (st.curFlit == 0) := by
  unfold TrafficState.flit Flit.sop
  rw [Flit.setEop, Flit.flag_setFlag_of_disjoint _ (by decide), Flit.setSop,
    Flit.flag_setFlag_self _ (by decide)]

theorem eop_flit (st : TrafficState) : st.flit.eop = (st.curFlit + 1 == st.pktSizeFlits) := by
  unfold TrafficState.flit Flit.eop
  rw [Flit.setEop, Flit.flag_setFlag_self _ (by decide)]

theorem get_flit (st : TrafficState) : st.flit.get 0 = st.seq := by
  unfold TrafficState.flit
  rw [Flit.setEop, Flit.get_setFlag, Flit.setSop, Flit.get_setFlag,
    Flit.get_set_self _ (by decide) (by decide)]

/-- No overflow below the size. -/
theorem toNat_curFlit_succ (h : st.curFlit < st.pktSizeFlits) :
    (st.curFlit + 1).toNat = st.curFlit.toNat + 1 := by
  have hlt : st.curFlit.toNat < st.pktSizeFlits.toNat := h
  have hsize := st.pktSizeFlits.toNat_lt
  rw [UInt32.toNat_add]
  exact Nat.mod_eq_of_lt (by show st.curFlit.toNat + 1 < _; omega)

/-- The invariant: the position is the length of the packet that is being sent, and the number is
the number of those sent. -/
def Generating (st : TrafficState) (xs : List Emission) : Prop :=
  ∃ (packets : List (List Emission)) (rest : List Emission), xs = packets.flatten ++ rest ∧
    (∀ n packet, packets[n]? = some packet → IsPacket n packet) ∧ IsBegun packets.length rest ∧
    rest.length = st.curFlit.toNat ∧ st.seq = UInt64.ofNat packets.length

theorem Generating.generated {xs : List Emission} (h : Generating st xs) : Generated xs := by
  obtain ⟨packets, rest, hxs, hpackets, hrest, -⟩ := h
  exact ⟨packets, rest, hxs, hpackets, hrest⟩

/-- The flit goes to the packet that is being sent. -/
theorem numbered_concat {n : Nat} {rest : List Emission} (h : Numbered n rest)
    (hlen : rest.length = st.curFlit.toNat) (hseq : st.seq = UInt64.ofNat n)
    (hlt : st.curFlit < st.pktSizeFlits) :
    Numbered n (rest ++ [(st.flit, st.pktSizeFlits)]) where
  number := by
    intro x hx
    rcases List.mem_append.mp hx with hx | hx
    · exact h.number x hx
    · rw [List.mem_singleton.mp hx]
      exact (get_flit st).trans hseq
  length := by
    intro _
    have hlt : st.curFlit.toNat < st.pktSizeFlits.toNat := hlt
    refine ⟨_, List.mem_append_right _ (List.mem_singleton_self _), ?_⟩
    rw [List.length_append, List.length_singleton]
    show rest.length + 1 ≤ st.pktSizeFlits.toNat
    omega

/-- **A call that finds the position below the size.** -/
theorem Generating.call {xs : List Emission} (h : Generating st xs)
    (hlt : st.curFlit < st.pktSizeFlits) :
    Generating st.advance (xs ++ [(st.flit, st.pktSizeFlits)]) := by
  obtain ⟨packets, rest, rfl, hpackets, hrest, hlen, hseq⟩ := h
  have hnumbered := numbered_concat hrest.toNumbered hlen hseq hlt
  have hsop : st.flit.sop = (rest.map Prod.fst).isEmpty := by
    rw [sop_flit, Bool.eq_iff_iff, beq_iff_eq, List.isEmpty_iff, List.map_eq_nil_iff,
      ← List.length_eq_zero_iff, hlen]
    exact UInt32.toNat_inj.symm
  obtain ⟨hopen, hclose⟩ := hrest.framed.concat hsop
  have hmap : rest.map Prod.fst ++ [st.flit]
      = (rest ++ [(st.flit, st.pktSizeFlits)]).map Prod.fst := by
    rw [List.map_append, List.map_singleton]
  rw [hmap] at hopen hclose
  unfold TrafficState.advance
  simp only []
  split
  · rename_i hend
    -- the packet is closed, and the next one starts from nothing
    have heop : st.flit.eop = true := by rw [eop_flit, hend, beq_self_eq_true]
    refine ⟨packets ++ [rest ++ [(st.flit, st.pktSizeFlits)]], [], ?_, ?_, ?_, rfl, ?_⟩
    · simp
    · intro n packet hn
      rw [List.getElem?_append] at hn
      split at hn
      · exact hpackets n packet hn
      · rw [List.getElem?_singleton] at hn
        split at hn
        · obtain rfl : n = packets.length := by omega
          cases hn
          exact ⟨hnumbered, hclose heop⟩
        · cases hn
    · exact ⟨⟨by simp, by simp⟩, Or.inl rfl⟩
    · show st.seq + 1 = _
      rw [hseq, List.length_append, List.length_singleton, UInt64.ofNat_add]
      rfl
  · rename_i hmore
    -- the packet stays open: one flit more of it, under the same number
    have heop : st.flit.eop = false := by
      rw [eop_flit]
      exact beq_eq_false_iff_ne.mpr hmore
    refine ⟨packets, rest ++ [(st.flit, st.pktSizeFlits)], ?_, hpackets,
      ⟨hnumbered, Or.inr (hopen heop)⟩, ?_, hseq⟩
    · rw [List.append_assoc]
    · rw [List.length_append, List.length_singleton, hlen]
      exact (toNat_curFlit_succ hlt).symm

end

/-! ## Runs -/

theorem plain_trafficGen : Plain trafficGen 1 where
  mem := List.mem_singleton_self 1
  lt := by decide
  plain v op hop := by
    rw [List.mem_singleton.mp hop]
    rfl
  length_le _ := le_rfl
  signal _ := rfl

/-- Each call sends one flit. -/
theorem sent_trafficGen {s : KernelState TrafficState Flit} (hquiet : Quiet (fun _ => True) s)
    (as : List (KernelAction Flit)) :
    (exec (kstep trafficGen) s as).sent 1 = s.sent 1 ++ (emissions s as).map Prod.fst := by
  have hrun := inv_views (K := trafficGen) (s := s) (g := fun _ => True)
    (P := fun _ vs _ sent => sent 1 = s.sent 1 ++ vs.map fun v => v.state.flit)
    ?_ (fun _ => rfl) (fun _ _ _ _ _ h => h) hquiet (meets_posts (fun _ => trivial) s as)
    (fun _ _ => trivial) (List.append_nil _).symm
  · rw [hrun, emissions, List.map_map]
    rfl
  · intro v vs taken sent _ h
    show sent 1 ++ [v.state.flit] = _
    rw [h, List.map_append, List.map_singleton, List.append_assoc]

/-- The call finds the position in the packet below the size. -/
def BelowSize (v : View TrafficState Flit) : Prop := v.state.curFlit < v.state.pktSizeFlits

instance decidableBelowSize : DecidablePred BelowSize :=
  fun _ => inferInstanceAs (Decidable (_ < _))

/-- A signal that does not set the size. -/
def KeepsSize (event : ClSignal) : Prop := event.cmd ≠ 1

/-- No size has been set since, and the position has gone on without the end of a packet. -/
structure Overrunning (st now : TrafficState) (vs : List (View TrafficState Flit)) : Prop where
  size : now.pktSizeFlits = st.pktSizeFlits
  position : now.curFlit.toNat = st.curFlit.toNat + vs.length
  unended : ∀ v ∈ vs, v.state.flit.eop = false

theorem Overrunning.call {st : TrafficState} {v : View TrafficState Flit}
    {vs : List (View TrafficState Flit)} (h : Overrunning st v.state vs)
    (habove : st.pktSizeFlits ≤ st.curFlit) (hroom : st.curFlit.toNat + vs.length + 1 < 2 ^ 32) :
    Overrunning st v.state.advance (vs ++ [v]) := by
  have hle : st.pktSizeFlits.toNat ≤ st.curFlit.toNat := habove
  have hsucc : (v.state.curFlit + 1).toNat = st.curFlit.toNat + vs.length + 1 := by
    rw [UInt32.toNat_add, h.position]
    exact Nat.mod_eq_of_lt hroom
  -- the test for the end is an equality, and the position is beyond the size for good
  have hmiss : v.state.curFlit + 1 ≠ v.state.pktSizeFlits := by
    rw [h.size]
    intro heq
    rw [heq] at hsucc
    omega
  have hnext : v.state.advance = { v.state with curFlit := v.state.curFlit + 1 } := if_neg hmiss
  refine ⟨?_, ?_, ?_⟩
  · rw [hnext]
    exact h.size
  · rw [hnext, List.length_append]
    exact hsucc
  · intro w hw
    rcases List.mem_append.mp hw with hw | hw
    · exact h.unended w hw
    · rw [List.mem_singleton.mp hw, eop_flit]
      exact beq_eq_false_iff_ne.mpr hmiss

/-- **From a size at the position or below it no packet ends** in any run without a size signal,
until the position runs over: the packet gets longer than every size that has been configured. -/
theorem trafficGen_overruns {s : KernelState TrafficState Flit} (hquiet : Quiet KeepsSize s)
    {as : List (KernelAction Flit)} (hposts : Meets (kstep trafficGen) (Posts KeepsSize) s as)
    (habove : s.locals.state.pktSizeFlits ≤ s.locals.state.curFlit)
    (hcount : s.locals.state.curFlit.toNat + (handlerViews trafficGen s as).length < 2 ^ 32) :
    ∀ x ∈ emissions s as, x.1.eop = false := by
  have hrun := inv_views (K := trafficGen) (g := fun _ => True)
    (P := fun st vs _ _ => s.locals.state.curFlit.toNat + vs.length < 2 ^ 32 →
      Overrunning s.locals.state st vs)
    ?_ (fun _ => rfl) ?_ hquiet hposts (fun _ _ => trivial)
    fun _ => ⟨rfl, rfl, List.forall_mem_nil _⟩
  · intro x hx
    obtain ⟨v, hv, rfl⟩ := List.mem_map.mp hx
    exact (hrun hcount).unended v hv
  · intro v vs taken sent _ h hroom
    rw [List.length_append, List.length_singleton] at hroom
    exact (h (by omega)).call habove hroom
  · intro v vs taken sent hevent h
    have hcmd : ¬ v.event.cmd = 1 := hevent
    show _ → Overrunning _ (if v.event.cmd = 1 then _ else v.state) _
    rw [if_neg hcmd]
    exact h

/-! ## A run -/

/-- One iteration of the loop: with a signal it has three steps, with a call five. -/
def sizeSignal (size : UInt32) : List (KernelAction Flit) :=
  .post { cmd := 1, sparam := size } :: List.replicate 3 .kernel

/-- The size is set to 2, one flit is sent, the size is set to 1, and two more flits are sent. -/
def shrinkingRun : List (KernelAction Flit) :=
  sizeSignal 2 ++ List.replicate 5 .kernel ++ sizeSignal 1 ++ List.replicate 10 .kernel

/-- The start, with room for a few flits. -/
def smallStart : KernelState TrafficState Flit := kinit trafficInit (fun _ => 8) fun _ => 8

theorem emissions_shrinkingRun :
    (emissions smallStart shrinkingRun).map (fun x => (x.1.sop, x.1.eop, x.2))
      = [(true, false, 2), (false, false, 1), (false, false, 1)] := by
  decide +kernel

end OpenClickNP
