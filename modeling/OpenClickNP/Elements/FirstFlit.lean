import OpenClickNP.Backend.CallChain
import OpenClickNP.Elements.CheckSopEop
import OpenClickNP.Runtime.Packets

/-!
# Elements that describe the first flit of a packet

`IPChecksum` and `FlowTupleParser` have the same handler but for what they make of the first flit of
a packet: they pass all flits on to port 1, and send one flit for each packet to port 2
(`described_packets`).
-/

namespace OpenClickNP

open Run

/-! ## The element -/

/-- The `.state` block. -/
structure FirstState where
  first : Bool

/-- The `.init` block. -/
def firstInit : FirstState := { first := true }

/-- The `.handler` block; `describe` makes `meta` of the flit. -/
def firstFlitHandler (describe : Flit → Flit) (v : View FirstState Flit) :
    BodyResult FirstState Flit :=
  let f := v.inputData 1
  let starts := v.state.first && f.sop
  { state :=
      if testPort v.inputPort 1 then
        { first := if f.eop then true else if starts then false else v.state.first }
      else v.state
    ops :=
      if testPort v.inputPort 1 then
        .clearInputReady (PORT_BIT 1) :: .setOutputPort 1 f ::
          if starts then [.setOutputPort 2 (describe f)] else []
      else []
    ret := some (PORT_BIT 1) }

def firstFlitFn (describe : Flit → Flit) : KernelFn FirstState Flit where
  inPorts := [1]
  outPorts := [1, 2]
  nodup_outPorts := nodup_one_two
  handler := firstFlitHandler describe

/-! ## The flits for port 2 -/

/-- The element on the flits that it reads: what it sends to port 2. -/
def firstFlitMachine (describe : Flit → Flit) : Transducer Bool Flit Flit where
  next first f := if f.eop then true else if first && f.sop then false else first
  out first f := if first && f.sop then [describe f] else []

/-- `buf[i]` behind `f.get_data(buf, 32)`; `outside` is what the memory behind `buf` holds, which
may depend on the flit. -/
def bufAt (outside : Flit → Nat → UInt8) (f : Flit) (i : Nat) : UInt8 :=
  (f.getData 32).getD i (outside f i)

variable {describe : Flit → Flit}

/-- Behind the first flit of a packet nothing is sent, and the last one sets `first` again. -/
theorem machine_rest (describe : Flit → Flit) {fs : List Flit}
    (hsop : ∀ f ∈ fs, f.sop = false) (first : Bool) :
    (firstFlitMachine describe).output first fs = [] ∧
      (firstFlitMachine describe).state first fs = (first || fs.any Flit.eop) := by
  induction fs generalizing first with
  | nil => exact ⟨rfl, (Bool.or_false first).symm⟩
  | cons f fs ih =>
    have hf : f.sop = false := hsop f List.mem_cons_self
    have hnext : (firstFlitMachine describe).next first f = (first || f.eop) := by
      show (if f.eop then true else if first && f.sop then false else first) = _
      rw [hf, Bool.and_false]
      cases f.eop <;> simp
    have hout : (firstFlitMachine describe).out first f = [] := by
      show (if first && f.sop then _ else []) = []
      rw [hf, Bool.and_false]
      rfl
    obtain ⟨houtput, hstate⟩ := ih (fun g hg => hsop g (List.mem_cons_of_mem _ hg)) (first || f.eop)
    rw [Transducer.output_cons, Transducer.state_cons, hnext, hout, houtput, hstate, List.any_cons,
      Bool.or_assoc]
    exact ⟨rfl, rfl⟩

/-- The flits of a packet: one description, and `first` is set behind them. -/
theorem machine_packet (describe : Flit → Flit) {bytes : List UInt8} (h : bytes ≠ []) :
    (firstFlitMachine describe).output true (packetToFlits bytes)
        = [describe (packetFlit bytes 0)] ∧
      (firstFlitMachine describe).state true (packetToFlits bytes) = true := by
  have hpacked := packed_packetToFlits h
  obtain ⟨f, rest, hfs, hsop, hrest⟩ := hpacked.starts
  have hf : f = packetFlit bytes 0 := by
    rw [packetToFlits, packetLoop, if_pos (List.length_pos_iff.mpr h)] at hfs
    exact (List.cons.inj hfs).1.symm
  -- the eop is in the first flit itself or behind it
  have hend : f.eop = true ∨ rest.any Flit.eop = true := by
    obtain ⟨init, last, hsplit, hlast, -⟩ := hpacked.framed
    rw [hfs] at hsplit
    have hmem : last ∈ f :: rest := by
      rw [hsplit]
      simp
    rcases List.mem_cons.mp hmem with rfl | hmem
    · exact Or.inl hlast
    · exact Or.inr (List.any_eq_true.mpr ⟨last, hmem, hlast⟩)
  have hsop : f.sop = true := hsop
  have hnext : (firstFlitMachine describe).next true f = f.eop := by
    show (if f.eop then true else if true && f.sop then false else true) = _
    rw [hsop]
    cases f.eop <;> rfl
  have hout : (firstFlitMachine describe).out true f = [describe f] := by
    show (if true && f.sop then _ else []) = _
    rw [hsop]
    rfl
  obtain ⟨houtput, hstate⟩ := machine_rest describe hrest f.eop
  rw [hfs, Transducer.output_cons, Transducer.state_cons, hnext, hout, houtput, hstate, ← hf,
    Bool.or_eq_true]
  exact ⟨rfl, hend⟩

/-- **One description for each packet.** Induction on the packets. -/
theorem machine_packets {packets : List (List UInt8)} (hne : ∀ bytes ∈ packets, bytes ≠ []) :
    (firstFlitMachine describe).output true (packets.flatMap packetToFlits)
      = packets.map fun bytes => describe (packetFlit bytes 0) := by
  induction packets with
  | nil => rfl
  | cons bytes packets ih =>
    obtain ⟨houtput, hstate⟩ := machine_packet describe (hne bytes List.mem_cons_self)
    rw [List.flatMap_cons, Transducer.output_append, houtput, hstate,
      ih fun b hb => hne b (List.mem_cons_of_mem _ hb)]
    rfl

/-! ## The bytes of the first flit -/

section
variable {outside : Flit → Nat → UInt8} {bytes : List UInt8} {i : Nat}

/-- In the buffer are the first bytes of the packet. -/
theorem bufAt_packetFlit (hi : i < 32) (hlen : i < bytes.length) :
    bufAt outside (packetFlit bytes 0) i = bytes.getD i 0 := by
  have htake : i < ((bytes.drop 0).take 32).length := by
    rw [List.drop_zero, List.length_take]
    omega
  rw [bufAt, getData_packetFlit, List.getD_append _ _ _ _ htake, List.drop_zero,
    List.getD_eq_getElem?_getD, List.getElem?_take_of_lt hi, List.getD_eq_getElem?_getD,
    List.getElem?_eq_getElem hlen]
  rfl

/-- Behind it is whatever memory holds. -/
theorem bufAt_outside (hi : 32 ≤ i) (f : Flit) : bufAt outside f i = outside f i := by
  rw [bufAt, List.getD_eq_default]
  rw [Flit.length_getData]
  exact hi

/-- Some bytes of a packet, one by one. -/
theorem take_drop_eq {off n : Nat} (h : off + n ≤ bytes.length) :
    (bytes.drop off).take n = (List.range n).map fun i => bytes.getD (off + i) 0 := by
  have hlen : ((bytes.drop off).take n).length = n := by
    rw [List.length_take, List.length_drop]
    omega
  refine List.ext_getElem (by rw [hlen, List.length_map, List.length_range]) fun i hi _ => ?_
  have hlt : off + i < bytes.length := by omega
  rw [List.getElem_take, List.getElem_drop, List.getElem_map, List.getElem_range,
    List.getD_eq_getElem _ _ hlt]

end

/-! ## Runs -/

/-- What every call keeps. -/
structure Described (describe : Flit → Flit) (st : FirstState) (taken sent : Nat → List Flit) :
    Prop where
  forwarded : sent 1 = taken 1
  first : st.first = (firstFlitMachine describe).state true (taken 1)
  descriptions : sent 2 = (firstFlitMachine describe).output true (taken 1)

/-- The handler on what it finds on its port. -/
theorem handler_firstFlit (describe : Flit → Flit) (v : View FirstState Flit) :
    takenIn 1 v ((firstFlitFn describe).handler v) = (offered v).toList ∧
      setsOf 1 ((firstFlitFn describe).handler v).ops = (offered v).toList ∧
      setsOf 2 ((firstFlitFn describe).handler v).ops
        = (offered v).elim [] ((firstFlitMachine describe).out v.state.first) ∧
      ((firstFlitFn describe).handler v).state.first
        = (offered v).elim v.state.first ((firstFlitMachine describe).next v.state.first) := by
  have hsets : ∀ p, setsOf p ((firstFlitFn describe).handler v).ops = _ :=
    fun p => setsOf_of_ready p rfl
  have hstate : ((firstFlitFn describe).handler v).state
      = if testPort v.inputPort 1 then
          { first := (firstFlitMachine describe).next v.state.first (v.inputData 1) }
        else v.state := rfl
  refine ⟨takenIn_offered rfl, ?_, ?_, ?_⟩
  · rw [hsets, offered]
    split
    · split <;> rfl
    · rfl
  · rw [hsets, offered]
    split
    · show _ = if v.state.first && (v.inputData 1).sop then _ else []
      split <;> rfl
    · rfl
  · rw [hstate, offered]
    split <;> rfl

theorem reads_firstFlit (describe : Flit → Flit) : Reads (firstFlitFn describe) where
  inPorts := rfl
  returns _ := rfl
  taken v := (handler_firstFlit describe v).1

theorem described_call (v : View FirstState Flit) (taken sent : Nat → List Flit)
    (h : Described describe v.state taken sent) :
    Described describe ((firstFlitFn describe).handler v).state
      (fun p => taken p ++ takenIn p v ((firstFlitFn describe).handler v))
      fun p => sent p ++ setsOf p ((firstFlitFn describe).handler v).ops := by
  obtain ⟨htaken, hone, htwo, hfirst⟩ := handler_firstFlit describe v
  have hstep : ∀ x : Option Flit,
      x.elim v.state.first ((firstFlitMachine describe).next v.state.first)
          = (firstFlitMachine describe).state v.state.first x.toList ∧
        x.elim [] ((firstFlitMachine describe).out v.state.first)
          = (firstFlitMachine describe).output v.state.first x.toList := by
    intro x
    cases x with
    | none => exact ⟨rfl, rfl⟩
    | some f => exact ⟨rfl, (List.append_nil _).symm⟩
  constructor
  · show sent 1 ++ _ = taken 1 ++ _
    rw [hone, htaken, h.forwarded]
  · show _ = (firstFlitMachine describe).state true (taken 1 ++ _)
    rw [hfirst, htaken, Transducer.state_append, ← h.first, (hstep _).1]
  · show sent 2 ++ _ = (firstFlitMachine describe).output true (taken 1 ++ _)
    rw [htwo, htaken, Transducer.output_append, ← h.first, h.descriptions, (hstep _).2]

/-- **The runs of such an element**, whatever comes in at what time: the flits of some packets are
passed on, and each packet is described. -/
theorem described_packets {packets : List (List UInt8)} (hne : ∀ bytes ∈ packets, bytes ≠ [])
    (inCap outCap : Nat → Int) {as : List (KernelAction Flit)}
    (htaken : (exec (kstep (firstFlitFn describe)) (kinit firstInit inCap outCap) as).taken 1
      = packets.flatMap packetToFlits) :
    let s := exec (kstep (firstFlitFn describe)) (kinit firstInit inCap outCap) as
    s.sent 1 = packets.flatMap packetToFlits ∧
      s.sent 2 = packets.map fun bytes => describe (packetFlit bytes 0) := by
  have hquiet : Quiet (fun _ => True) (kinit firstInit inCap outCap : KernelState _ Flit) :=
    quiet_of_none rfl rfl
  have hrun := inv_bodies (K := firstFlitFn describe) described_call
    (fun _ => rfl) (fun _ _ _ _ h => h) hquiet
    (meets_posts (fun _ => trivial) _ as) ⟨rfl, rfl, rfl⟩
  refine ⟨hrun.forwarded.trans htaken, ?_⟩
  rw [hrun.descriptions, htaken, machine_packets hne]

/-- There is a run for all packets. -/
theorem feed_packets (describe : Flit → Flit) (inCap outCap : Nat → Int)
    (packets : List (List UInt8)) :
    ∃ as, (exec (kstep (firstFlitFn describe)) (kinit firstInit inCap outCap) as).taken 1
      = packets.flatMap packetToFlits := by
  obtain ⟨as, htaken⟩ := (reads_firstFlit describe).feed rfl
    (waiting_kinit firstInit inCap outCap) (packets.flatMap packetToFlits)
  exact ⟨as, htaken.trans (List.nil_append _)⟩

/-! ## Two packets that start with the same flit -/

/-- All these packets are described alike. -/
theorem descriptions_packetTo (describe : Flit → Flit) (inCap outCap : Nat → Int) (m n : UInt8) :
    ∃ (as : List (KernelAction Flit)) (f : Flit),
      (exec (kstep (firstFlitFn describe)) (kinit firstInit inCap outCap) as).taken 1
          = [packetTo m, packetTo n].flatMap packetToFlits ∧
        (exec (kstep (firstFlitFn describe)) (kinit firstInit inCap outCap) as).sent 2
          = [f, f] := by
  obtain ⟨as, htaken⟩ := feed_packets describe inCap outCap [packetTo m, packetTo n]
  have hne : ∀ bytes ∈ [packetTo m, packetTo n], bytes ≠ [] := by
    intro bytes hb
    rcases List.mem_pair.mp hb with rfl | rfl <;> exact List.cons_ne_nil _ _
  refine ⟨as, describe (packetFlit (packetTo m) 0), htaken, ?_⟩
  have hsame : packetFlit (packetTo n) 0 = packetFlit (packetTo m) 0 := packetFlit_append rfl rfl
  rw [(described_packets hne inCap outCap htaken).2, List.map_cons, List.map_singleton, hsame]

end OpenClickNP
