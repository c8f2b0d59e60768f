import OpenClickNP.Compiler.Lower
import OpenClickNP.Compiler.Resolver
import OpenClickNP.Runtime.Flit

/-!
# Host slots: `lower.cpp`, `slot_bridge_xdma.cpp`, `slot_demux.v`

A host stream is addressed by the slot id that the lowering gives it. The host-side bridge has
`64` queues, the demultiplexer of the shell `32` outputs, and the lowering counts from `32`:
no id it gives is below `32`, so a plan is routable exactly when it has no host stream
(`hostStreams_routable_iff`).
-/

namespace OpenClickNP

open Eg Be

/-! ## `XdmaBridge` -/

/-- `queues_(64)`: one queue for each slot. -/
structure XdmaBridge where
  queues : List (List Flit) := List.replicate 64 []
  length_queues : queues.length = 64 := by rfl

namespace XdmaBridge

/-- `send(slot, f)`: the result and the bridge afterwards. -/
def send (b : XdmaBridge) (slot : UInt16) (f : Flit) : Bool × XdmaBridge :=
  if slot.toNat ≥ b.queues.length then (false, b)
  else
    let copy := f.setSlotId slot
    (true,
      { queues := b.queues.modify slot.toNat (· ++ [copy])
        length_queues := by rw [List.length_modify, b.length_queues] })

/-- `recv(slot, out, blocking)`: the flit taken, if any. A blocking call only waits before it
looks at the queue. -/
def recv (b : XdmaBridge) (slot : UInt16) : Option Flit × XdmaBridge :=
  if slot.toNat ≥ b.queues.length then (none, b)
  else
    match b.queues.getD slot.toNat [] with
    | [] => (none, b)
    | f :: rest =>
      (some f,
        { queues := b.queues.set slot.toNat rest
          length_queues := by rw [List.length_set, b.length_queues] })

/-- The bridge accepts a slot: whatever is queued, `send` succeeds and `recv` then finds a
flit. -/
def Accepts (slot : UInt16) : Prop :=
  ∀ (b : XdmaBridge) (f : Flit),
    (b.send slot f).1 = true ∧ ((b.send slot f).2.recv slot).1.isSome

theorem accepts_iff (slot : UInt16) : Accepts slot ↔ slot.toNat < 64 := by
  constructor
  · intro h
    by_contra hge
    have hsend := (h {} default).1
    rw [send, if_pos (by simpa using hge)] at hsend
    exact absurd hsend (by decide)
  · intro hlt b f
    have hlen := b.length_queues
    have hin : ¬ slot.toNat ≥ b.queues.length := by omega
    have hq : slot.toNat < b.queues.length := by omega
    rw [send, if_neg hin]
    refine ⟨rfl, ?_⟩
    unfold recv
    rw [if_neg (by simpa using hq)]
    have hget : (b.queues.modify slot.toNat (· ++ [f.setSlotId slot])).getD slot.toNat []
        = b.queues[slot.toNat] ++ [f.setSlotId slot] := by
      simp [List.getD_eq_getElem?_getD, hq]
    simp only [hget]
    cases b.queues[slot.toNat] with
    | nil => rfl
    | cons g rest => rfl

end XdmaBridge

/-! ## `slot_demux` -/

/-- The outputs of `slot_demux`. -/
structure SlotDemux (n : Nat) where
  sAxisTready : Bool
  mAxisTdata : Fin n → Flit
  mAxisTvalid : Fin n → Bool

/-- The one-hot selection, all zero for a slot outside the range. -/
def slotSel (n : Nat) (slot : UInt16) (g : Fin n) : Bool :=
  decide (slot.toNat < n) && decide (slot.toNat = g)

/-- The module with `NUM_SLOTS = n`, as a function of its inputs. -/
def slotDemux (n : Nat) (tdata : Flit) (tvalid : Bool) (tready : Fin n → Bool) : SlotDemux n where
  sAxisTready := (List.finRange n).any fun g => slotSel n tdata.slotId g && tready g
  mAxisTdata := fun _ => tdata
  mAxisTvalid := fun g => tvalid && slotSel n tdata.slotId g

/-- The default of the parameter `NUM_SLOTS`. -/
def NUM_SLOTS : Nat := 32

/-- Some outputs being ready, the demultiplexer accepts the flit and presents it to one of
them. -/
def DemuxSelects (n : Nat) (f : Flit) : Prop :=
  ∃ tready : Fin n → Bool, (slotDemux n f true tready).sAxisTready = true ∧
    ∃ g, tready g = true ∧ (slotDemux n f true tready).mAxisTvalid g = true

theorem demuxSelects_iff {n : Nat} {f : Flit} : DemuxSelects n f ↔ f.slotId.toNat < n := by
  constructor
  · rintro ⟨tready, -, g, -, hvalid⟩
    simp only [slotDemux, slotSel, Bool.true_and, Bool.and_eq_true, decide_eq_true_eq] at hvalid
    exact hvalid.1
  · intro hlt
    have hsel : slotSel n f.slotId ⟨f.slotId.toNat, hlt⟩ = true := by simp [slotSel, hlt]
    refine ⟨fun _ => true, ?_, ⟨f.slotId.toNat, hlt⟩, rfl, ?_⟩
    · exact List.any_eq_true.mpr ⟨⟨f.slotId.toNat, hlt⟩, List.mem_finRange _, by simp [hsel]⟩
    · simp [slotDemux, hsel]

/-- Outside the range the input is never ready: the flit blocks the stream. -/
theorem slotDemux_blocked {n : Nat} {f : Flit} (h : n ≤ f.slotId.toNat) (tvalid : Bool)
    (tready : Fin n → Bool) : (slotDemux n f tvalid tready).sAxisTready = false := by
  have hsel : ∀ g, slotSel n f.slotId g = false := by
    intro g
    simp [slotSel, Nat.not_lt.mpr h]
  simp [slotDemux, hsel]

/-! ## The ids of a plan -/

/-- Both ends route the id, passed on as a `uint16_t` and carried by flits in that field. -/
def Routable (slotId : Int) : Prop :=
  XdmaBridge.Accepts (UInt16.ofInt slotId) ∧
    ∀ f : Flit, f.slotId = UInt16.ofInt slotId → DemuxSelects NUM_SLOTS f

/-- The first id the lowering gives out. -/
theorem not_routable_firstSlotId : ¬ Routable firstSlotId := by
  rintro ⟨-, h⟩
  have hsel := demuxSelects_iff.mp
    (h (Flit.setSlotId {} (UInt16.ofInt firstSlotId)) (Flit.slotId_setSlotId _ _))
  rw [Flit.slotId_setSlotId] at hsel
  exact absurd hsel (by decide)

/-- **When every host slot id is routable.** For every graph, both ends route every id that the
lowering assigns if and only if no edge of the graph comes from or goes to the host. -/
theorem hostStreams_routable_iff (g : Graph) (platform : Platform) (userClockHz : Int)
    (sourcePath : String) :
    (∀ hc ∈ (lowerToBackend g platform userClockHz sourcePath).hostStreams, Routable hc.slotId) ↔
      ∀ e ∈ g.edges, isHostEdge g e = false := by
  rw [(lowerToBackend_lists g platform userClockHz sourcePath).2.2.2.2]
  constructor
  · intro h
    cases hhost : g.edges.filter (isHostEdge g) with
    | nil =>
      intro e he
      simpa using List.filter_eq_nil_iff.mp hhost e he
    | cons e es =>
      -- the first host edge has the first id
      have hid := h (hostConnOf g (e, 0)) (by rw [hhost]; simp)
      have hslot : (hostConnOf g (e, 0)).slotId = firstSlotId := by
        unfold hostConnOf hostInConn hostOutConn
        split <;> simp
      rw [hslot] at hid
      exact absurd hid not_routable_firstSlotId
  · intro h hc hmem
    rw [List.filter_eq_nil_iff.mpr fun e he => by simp [h e he]] at hmem
    cases hmem

/-- A kernel between the host's two ends: `host_in -> p -> host_out`. -/
def hostLoop : Ast.Module where
  stmts := [
    .elementDecl { name := "Pass", nInPorts := 1, nOutPorts := 1 },
    .instanceDecl { type := "Pass", name := "p" },
    .connectionDecl { source := { nodeName := "host_in" }, dest := { nodeName := "p" } },
    .connectionDecl { source := { nodeName := "p" }, dest := { nodeName := "host_out" } }]

/-- What `hostLoop` resolves to. -/
def hostLoopGraph : Graph where
  kernels := [
    { name := "p", type := "Pass", nInPorts := 1, nOutPorts := 1 },
    { name := "host_in", type := "host_in", special := .hostIn, nOutPorts := 1, autorun := true },
    { name := "host_out", type := "host_out", special := .hostOut, nInPorts := 1,
      autorun := true }]
  edges := [
    { srcKernel := "host_in", dstKernel := "p" },
    { srcKernel := "p", dstKernel := "host_out" }]

/-- The graph is accepted, its two host streams get the ids `32` and `33`, and the
demultiplexer never takes a flit that carries the first. -/
theorem hostLoop_not_routable :
    resolveModuleToGraph 1 hostLoop {} = some (true, {}, hostLoopGraph) ∧
      analyzePortArity hostLoopGraph {} = (true, {}) ∧
      (lowerToBackend hostLoopGraph .u50Xdma 322265625 "").hostStreams.map (·.slotId) = [32, 33] ∧
      (∀ tvalid tready, (slotDemux NUM_SLOTS (Flit.setSlotId {} 32) tvalid tready).sAxisTready
        = false) ∧
      ¬ ∀ hc ∈ (lowerToBackend hostLoopGraph .u50Xdma 322265625 "").hostStreams,
          Routable hc.slotId := by
  refine ⟨by decide, by decide, by decide, ?_, ?_⟩
  · intro tvalid tready
    refine slotDemux_blocked ?_ tvalid tready
    rw [Flit.slotId_setSlotId]
    decide
  · intro h
    have hfirst : hostInConn { srcKernel := "host_in", dstKernel := "p" } 32
        ∈ (lowerToBackend hostLoopGraph .u50Xdma 322265625 "").hostStreams := by decide
    exact not_routable_firstSlotId (h _ hfirst)

end OpenClickNP
