import Mathlib.Tactic.Ring
import OpenClickNP.Compiler.Graph

/-!
# `be_ir.hpp`, `lower.cpp`: the build plan

`lowerToBackend` turns the element graph into the plan the backends read: one `KernelHls` for
each kernel that is not a pseudo-element, and each edge sorted into the list of its kind. The
lists are described in closed form (`lowerToBackend_lists`), so that a user of the plan never
unfolds the loop.
-/

namespace OpenClickNP

open Eg

namespace Be

inductive Platform where
  | u50Xdma | u50Qdma
deriving DecidableEq, Repr

structure Port where
  index : Int := 1
  kind : ChannelKind := .flit
  widthBits : Int := 512
deriving DecidableEq, Repr

structure KernelHls where
  name : String
  elementType : String
  autorun : Bool := false
  hasSignal : Bool := false
  axiliteBase : Int := -1
  pipelineIi : Int := 0
  hlsPragmas : List String := []
  inPorts : List Port := []
  outPorts : List Port := []
  params : List String := []
  stateCpp : String := ""
  initCpp : String := ""
  handlerCpp : String := ""
  signalCpp : String := ""
  signalParams : List Ast.SignalParam := []
deriving DecidableEq, Repr

structure StreamConn where
  srcKernel : String
  srcPort : Int := 1
  dstKernel : String
  dstPort : Int := 1
  lossy : Bool := false
  depth : Int := 64
  widthBits : Int := 512
deriving DecidableEq, Repr

structure HostConn where
  kernel : String
  port : Int := 1
  kernelToHost : Bool := true
  slotId : Int := -1
deriving DecidableEq, Repr

structure SignalEntry where
  gid : Int := -1
  kernel : String
  axiliteBase : Int := 0
deriving DecidableEq, Repr

/-- The fields of `Build` that the lowering fills. -/
structure Build where
  platform : Platform := .u50Xdma
  userClockHz : Int := 322265625
  kernels : List KernelHls := []
  streamConns : List StreamConn := []
  torConns : List StreamConn := []
  nicConns : List StreamConn := []
  hostStreams : List HostConn := []
  signalTable : List SignalEntry := []
  sourcePath : String := ""
deriving DecidableEq, Repr

end Be

open Be

/-! ## Kernels -/

/-- `for (int i = 1; i <= n; ++i)`: the ports `1` to `n`. -/
def portsUpTo (n : Int) : List Port :=
  (List.range n.toNat).map fun i : Nat => { index := (i : Int) + 1 }

def lowerKernel (k : Kernel) : KernelHls where
  name := k.name
  elementType := k.type
  autorun := k.autorun
  hasSignal := k.hostControl
  axiliteBase := k.axiliteBase
  inPorts := portsUpTo k.nInPorts
  outPorts := portsUpTo k.nOutPorts
  params := k.params.map (·.text)
  stateCpp := k.stateCpp
  initCpp := k.initCpp
  handlerCpp := k.handlerCpp
  signalCpp := k.signalCpp
  signalParams := k.signalParams
  pipelineIi := k.pipelineIi
  hlsPragmas := k.hlsPragmas

/-- The loop body over the kernels. -/
def addKernel (b : Build) (k : Kernel) : Build :=
  if k.special ≠ .none then b
  else
    let b := { b with kernels := b.kernels ++ [lowerKernel k] }
    if k.hostControl then
      { b with signalTable :=
          b.signalTable ++ [{ gid := k.gid, kernel := k.name, axiliteBase := k.axiliteBase }] }
    else b

/-! ## Edges -/

/-- Where the loop over the edges puts an edge. -/
inductive EdgeClass where
  | tor | nic | hostIn | hostOut | dropped | stream
deriving DecidableEq, Repr

/-- The kind of the pseudo-element found under a name, `none` for everything else. -/
def specialOf (k : Option Kernel) : SpecialKind :=
  match k with
  | some k => k.special
  | none => .none

/-- The two nested `switch` statements: the source decides first. -/
def edgeClass (src dst : SpecialKind) : EdgeClass :=
  match src with
  | .torIn => .tor
  | .nicIn => .nic
  | .hostIn => .hostIn
  | .idle => .dropped
  | _ =>
    match dst with
    | .torOut => .tor
    | .nicOut => .nic
    | .hostOut => .hostOut
    | .drop => .dropped
    | _ => .stream

def classOf (g : Graph) (e : Edge) : EdgeClass :=
  edgeClass (specialOf (g.find e.srcKernel)) (specialOf (g.find e.dstKernel))

def streamConnOf (e : Edge) : StreamConn where
  srcKernel := e.srcKernel
  srcPort := e.srcPort
  dstKernel := e.dstKernel
  dstPort := e.dstPort
  lossy := e.lossy
  depth := e.depth
  widthBits := 512

def hostInConn (e : Edge) (slotId : Int) : HostConn where
  kernel := e.dstKernel
  port := e.dstPort
  kernelToHost := false
  slotId := slotId

def hostOutConn (e : Edge) (slotId : Int) : HostConn where
  kernel := e.srcKernel
  port := e.srcPort
  kernelToHost := true
  slotId := slotId

/-- The loop body over the edges, on the plan and `slot_id`. -/
def addEdge (g : Graph) (s : Build × Int) (e : Edge) : Build × Int :=
  match classOf g e with
  | .tor => ({ s.1 with torConns := s.1.torConns ++ [streamConnOf e] }, s.2)
  | .nic => ({ s.1 with nicConns := s.1.nicConns ++ [streamConnOf e] }, s.2)
  | .hostIn => ({ s.1 with hostStreams := s.1.hostStreams ++ [hostInConn e s.2] }, s.2 + 1)
  | .hostOut => ({ s.1 with hostStreams := s.1.hostStreams ++ [hostOutConn e s.2] }, s.2 + 1)
  | .dropped => s
  | .stream => ({ s.1 with streamConns := s.1.streamConns ++ [streamConnOf e] }, s.2)

/-- The first host slot id. -/
def firstSlotId : Int := 32

/-- `lowerToBackend` into an empty plan; the source's result is always `true`. -/
def lowerToBackend (g : Graph) (platform : Platform) (userClockHz : Int) (sourcePath : String) :
    Build :=
  let b : Build :=
    { platform := platform, userClockHz := userClockHz, sourcePath := sourcePath }
  (g.edges.foldl (addEdge g) (g.kernels.foldl addKernel b, firstSlotId)).1

/-! ## The lists of the plan in closed form -/

/-- An edge to or from the host. -/
def isHostEdge (g : Graph) (e : Edge) : Bool :=
  classOf g e == .hostIn || classOf g e == .hostOut

/-- The host stream of a host edge with a given slot id. -/
def hostConnOf (g : Graph) (p : Edge × Nat) : HostConn :=
  if classOf g p.1 = .hostIn then hostInConn p.1 (firstSlotId + p.2)
  else hostOutConn p.1 (firstSlotId + p.2)

def edgesOf (g : Graph) (c : EdgeClass) (es : List Edge) : List StreamConn :=
  (es.filter (classOf g · == c)).map streamConnOf

section
variable (g : Graph) (platform : Platform) (userClockHz : Int) (sourcePath : String)

theorem foldl_addKernel_conns (ks : List Kernel) (b : Build) :
    (ks.foldl addKernel b).streamConns = b.streamConns ∧
      (ks.foldl addKernel b).torConns = b.torConns ∧
      (ks.foldl addKernel b).nicConns = b.nicConns ∧
      (ks.foldl addKernel b).hostStreams = b.hostStreams := by
  induction ks generalizing b with
  | nil => exact ⟨rfl, rfl, rfl, rfl⟩
  | cons k ks ih =>
    obtain ⟨h1, h2, h3, h4⟩ := ih (addKernel b k)
    rw [List.foldl_cons, h1, h2, h3, h4]
    unfold addKernel
    split
    · exact ⟨rfl, rfl, rfl, rfl⟩
    · split <;> exact ⟨rfl, rfl, rfl, rfl⟩

/-- What the loop over the edges has appended to each list, and how far `slot_id` has run.
Induction on the edges; each class of edge grows one list. -/
theorem foldl_addEdge (es : List Edge) (b : Build) (n : Nat) :
    (es.foldl (addEdge g) (b, firstSlotId + n)).1 =
      { b with
        streamConns := b.streamConns ++ edgesOf g .stream es
        torConns := b.torConns ++ edgesOf g .tor es
        nicConns := b.nicConns ++ edgesOf g .nic es
        hostStreams := b.hostStreams
          ++ ((es.filter (isHostEdge g)).zipIdx n).map (hostConnOf g) } := by
  induction es generalizing b n with
  | nil => simp [edgesOf]
  | cons e es ih =>
    rw [List.foldl_cons]
    have hslot : firstSlotId + (n : Int) + 1 = firstSlotId + ((n + 1 : Nat) : Int) := by
      push_cast; ring
    cases hc : classOf g e with
    | tor => rw [addEdge, hc]; simp [ih, edgesOf, isHostEdge, hc]
    | nic => rw [addEdge, hc]; simp [ih, edgesOf, isHostEdge, hc]
    | dropped => rw [addEdge, hc]; simp [ih, edgesOf, isHostEdge, hc]
    | stream => rw [addEdge, hc]; simp [ih, edgesOf, isHostEdge, hc]
    | hostIn =>
      rw [addEdge, hc]
      simp only [hslot, ih]
      simp [edgesOf, isHostEdge, hostConnOf, hc]
    | hostOut =>
      rw [addEdge, hc]
      simp only [hslot, ih]
      simp [edgesOf, isHostEdge, hostConnOf, hc]

theorem foldl_addKernel_kernels (ks : List Kernel) (b : Build) :
    (ks.foldl addKernel b).kernels
      = b.kernels ++ (ks.filter (·.special == .none)).map lowerKernel := by
  induction ks generalizing b with
  | nil => simp
  | cons k ks ih =>
    rw [List.foldl_cons, ih]
    unfold addKernel
    by_cases hk : k.special = .none
    · rw [if_neg (by simpa using hk), List.filter_cons_of_pos (by simp [hk])]
      split <;> simp
    · rw [if_pos hk, List.filter_cons_of_neg (by simpa using hk)]

/-- The kernels of the plan, and the lists that its edges are in. -/
theorem lowerToBackend_lists :
    (lowerToBackend g platform userClockHz sourcePath).kernels
        = (g.kernels.filter (·.special == .none)).map lowerKernel ∧
      (lowerToBackend g platform userClockHz sourcePath).streamConns
        = edgesOf g .stream g.edges ∧
      (lowerToBackend g platform userClockHz sourcePath).torConns = edgesOf g .tor g.edges ∧
      (lowerToBackend g platform userClockHz sourcePath).nicConns = edgesOf g .nic g.edges ∧
      (lowerToBackend g platform userClockHz sourcePath).hostStreams
        = ((g.edges.filter (isHostEdge g)).zipIdx).map (hostConnOf g) := by
  have h := foldl_addEdge g g.edges (g.kernels.foldl addKernel
    { platform := platform, userClockHz := userClockHz, sourcePath := sourcePath }) 0
  obtain ⟨hstream, htor, hnic, hhost⟩ := foldl_addKernel_conns g.kernels
    { platform := platform, userClockHz := userClockHz, sourcePath := sourcePath }
  have hkernels := foldl_addKernel_kernels g.kernels
    { platform := platform, userClockHz := userClockHz, sourcePath := sourcePath }
  simp only [lowerToBackend]
  rw [show firstSlotId = firstSlotId + ((0 : Nat) : Int) by simp, h]
  simp [hstream, htor, hnic, hhost, hkernels]

end

end OpenClickNP
