import OpenClickNP.Backend.EmulatedGraph
import OpenClickNP.Elements.Forwarding

/-!
# Runs of an emulated graph

What the compiler accepts and wires once, the emulator runs as the graph means it: the edges carry
what the equations of the graph allow (`emulated_within`), all of it when nothing is under way any
more (`emulated_means`), and two runs agree as far as both have come (`emulated_agree`). The order
in which the threads go on does not matter, nor do the bodies that the elements are given, as long
as they compute the same functions.
-/

namespace OpenClickNP

open Ast Eg Be Run Histories

/-! ## Runs -/

/-- A run of the emulator of a plan in which the writes to connected ports find room, and the world
outside keeps to its own ends of the streams. -/
def Emulates (b : Build) (B : Bodies b)
    (t : NetState (Fin b.kernels.length) (Option StreamVar) Unit B.State Flit) : Prop :=
  Reaches (nstep (emuWiring b) B.fn) (WithinRoom (emuWiring b) B.fn Option.isSome) (emuStart b B) t

/-- The bodies of each kernel compute the function of the element, on the ports that are
connected. -/
def ComputeAll (b : Build) (B : Bodies b) (F : String → StreamFn Flit) : Prop :=
  ∀ i : Fin b.kernels.length,
    Computes (B.fn i) (B.init i) (F (b.kernels.get i).name) (OutLive (emuWiring b) Option.isSome i)

/-- Nothing is under way: the kernels have cleared what they have read, and passed on what they have
made; no kernel has anything left to read. -/
def AtRest (b : Build) (B : Bodies b)
    (t : NetState (Fin b.kernels.length) (Option StreamVar) Unit B.State Flit) : Prop :=
  Drained (emuWiring b) B.fn Option.isSome t

/-- Every edge from an element, other than to `Drop`, carries a first part of what the function of
the element makes of what its input edges carry. -/
def Follows (g : Graph) (F : String → StreamFn Flit) (h : Edge → List Flit) : Prop :=
  ∀ e ∈ g.edges, fromElement g e = true → classOf g e ≠ .dropped →
    h e <+: (F e.srcKernel).apply (inputHistory g h e.srcKernel) e.srcPort.toNat

/-- What holds of the edges that come from the world outside holds of every source of the network:
the others carry nothing. -/
theorem forall_sources {g : Graph} (hg : Emulable g) {F : String → StreamFn Flit}
    {h : Option StreamVar → List Flit} {P : Edge → List Flit → Prop} (hnil : ∀ e, P e [])
    (hsource : ∀ e ∈ g.edges, fromElement g e = false → P e (alongEdges g h e)) (e : Edge)
    (hs : (graphNet g F).Source e) : P e (alongEdges g h e) := by
  by_cases he : e ∈ g.edges
  · rcases (source_iff hg he).mp hs with hout | hdropped
    · exact hsource e he hout
    · rw [alongEdges_of_dropped hdropped]
      exact hnil e
  · have hnone : alongEdges g h e = [] := if_neg he
    rw [hnone]
    exact hnil e

/-! ## `PassTraffic` -/

/-- The topology of the `PassTraffic` example: a counter in each direction. -/
def passTraffic : Module where
  stmts := [
    .elementDecl passElement,
    .instanceDecl { type := "Pass", name := "tor_rx_cnt", hostControl := true },
    .instanceDecl { type := "Pass", name := "nic_rx_cnt", hostControl := true },
    .connectionDecl (connect "tor_in" "tor_rx_cnt"),
    .connectionDecl (connect "tor_rx_cnt" "nic_out"),
    .connectionDecl (connect "nic_in" "nic_rx_cnt"),
    .connectionDecl (connect "nic_rx_cnt" "tor_out")]

/-- What `passTraffic` resolves to. -/
def passTrafficGraph : Graph where
  kernels := [
    { name := "tor_rx_cnt", type := "Pass", nInPorts := 1, nOutPorts := 1, hostControl := true,
      axiliteBase := 0x1000, gid := 0 },
    { name := "nic_rx_cnt", type := "Pass", nInPorts := 1, nOutPorts := 1, hostControl := true,
      axiliteBase := 0x1080, gid := 1 },
    { name := "nic_in", type := "nic_in", special := .nicIn, nOutPorts := 1, autorun := true },
    { name := "nic_out", type := "nic_out", special := .nicOut, nInPorts := 1, autorun := true },
    { name := "tor_in", type := "tor_in", special := .torIn, nOutPorts := 1, autorun := true },
    { name := "tor_out", type := "tor_out", special := .torOut, nInPorts := 1, autorun := true }]
  edges := [
    { srcKernel := "tor_in", dstKernel := "tor_rx_cnt" },
    { srcKernel := "tor_rx_cnt", dstKernel := "nic_out" },
    { srcKernel := "nic_in", dstKernel := "nic_rx_cnt" },
    { srcKernel := "nic_rx_cnt", dstKernel := "tor_out" }]

abbrev passTrafficPlan : Build := lowerToBackend passTrafficGraph .u50Xdma 322265625 ""

def passTrafficBodies : Bodies passTrafficPlan where
  State := fun _ => PassState
  fn := fun _ => pass
  inPorts_eq := by decide
  outPorts_eq := by decide
  hasSignal_eq := by decide
  init := fun _ => passInit

/-- What each of the elements computes. -/
def passTrafficFns (_ : String) : StreamFn Flit :=
  StreamFn.routed { next := PassState.next, out := PassState.out } passInit

theorem computeAll_passTraffic : ComputeAll passTrafficPlan passTrafficBodies passTrafficFns :=
  fun _ => acts_pass.computes passInit _

/-- A flit comes in from `tor_in`, and each thread goes once round its loop. -/
def passTrafficRun (first second : Fin passTrafficPlan.kernels.length) :
    List (NetAction (Fin passTrafficPlan.kernels.length) (Option StreamVar) Unit Flit) :=
  .inject (some (.torStream 0)) {} ::
    (List.replicate 6 (.thread first) ++ List.replicate 6 (.thread second))

/-- The flit has gone through `tor_rx_cnt`, which goes first or last. -/
def passTrafficEnd (first second : Fin passTrafficPlan.kernels.length) :
    NetState (Fin passTrafficPlan.kernels.length) (Option StreamVar) Unit passTrafficBodies.State
      Flit :=
  exec (nstep (emuWiring passTrafficPlan) passTrafficBodies.fn)
    (emuStart passTrafficPlan passTrafficBodies) (passTrafficRun first second)

theorem emulates_passTraffic (first second : Fin passTrafficPlan.kernels.length) :
    Emulates passTrafficPlan passTrafficBodies (passTrafficEnd first second) := by
  apply Meets.reaches
  revert first second
  decide

theorem resolves_passTraffic :
    resolveModuleToGraph 1 passTraffic {} = some (true, {}, passTrafficGraph) := by decide

theorem settled_passTraffic {first second : Fin passTrafficPlan.kernels.length}
    (hne : first ≠ second) :
    AtRest passTrafficPlan passTrafficBodies (passTrafficEnd first second) where
  inputs := by
    revert first second
    decide
  outputs := by
    revert first second
    decide

/-- The flit is on the way from `tor_in` to `nic_out`. -/
def passTrafficEdges (e : Edge) : List Flit :=
  if e.srcKernel = "tor_in" ∨ e.srcKernel = "tor_rx_cnt" then [{}] else []

theorem means_passTraffic : Means passTrafficGraph passTrafficFns passTrafficEdges := by
  unfold Means
  decide

/-! ## What the edges carry -/

section
variable {m : Module} {fuel : Nat} {diags d : DiagnosticEngine} {g : Graph}
  {platform : Platform} {userClockHz : Int} {sourcePath : String}

/-- **No edge carries more than the meaning of the graph.** For every module that the compiler
resolves to a graph with existing ports, one pseudo-element at most at the ends of an edge, and each
port wired once; for all bodies that compute the functions of the elements; in every interleaving of
the threads and the world outside in which the writes find room: if the edges from the world outside
carry a first part of what they carry in a solution of the graph's equations, then so does every
edge. -/
theorem emulated_within (h : resolveModuleToGraph fuel m diags = some (true, d, g))
    (harity : (analyzePortArity g d).1 = true) (hone : ∀ e ∈ g.edges, OneBoundary g e)
    (hw : WiredOnce g) (B : Bodies (lowerToBackend g platform userClockHz sourcePath))
    {F : String → StreamFn Flit}
    (hB : ComputeAll (lowerToBackend g platform userClockHz sourcePath) B F)
    {t : NetState _ (Option StreamVar) Unit B.State Flit}
    (hr : Emulates (lowerToBackend g platform userClockHz sourcePath) B t)
    {traffic : Edge → List Flit} (hm : Means g F traffic)
    (hsource : ∀ e ∈ g.edges, fromElement g e = false → carried g t e <+: traffic e) :
    ∀ e ∈ g.edges, carried g t e <+: traffic e := by
  have hg := emulable_of_resolves h harity hone hw
  have hreached := reached_carried hg rfl hB hr
  exact fun e _ => hreached.within ((means_iff hg).mp hm)
    (forall_sources (P := fun e xs => xs <+: traffic e) hg (fun _ => List.nil_prefix) hsource) e

theorem emulated_within_passTraffic :
    carried passTrafficGraph (passTrafficEnd ⟨1, by decide⟩ ⟨0, by decide⟩)
        { srcKernel := "tor_rx_cnt", dstKernel := "nic_out" }
      <+: passTrafficEdges { srcKernel := "tor_rx_cnt", dstKernel := "nic_out" } :=
  emulated_within resolves_passTraffic (by decide) (by decide) (by decide) passTrafficBodies
    computeAll_passTraffic (emulates_passTraffic _ _) means_passTraffic (by decide) _ (by decide)

/-- What an edge carries follows what the edges in front of it carry. -/
theorem emulates_follows (hg : Emulable g)
    {B : Bodies (lowerToBackend g platform userClockHz sourcePath)} {F : String → StreamFn Flit}
    (hB : ComputeAll (lowerToBackend g platform userClockHz sourcePath) B F)
    {t : NetState _ (Option StreamVar) Unit B.State Flit}
    (hr : Emulates (lowerToBackend g platform userClockHz sourcePath) B t) :
    Follows g F (carried g t) := by
  intro e he hfrom hclass
  obtain ⟨hlo, -⟩ := (hg.ports e he).src
  have hq : e.srcPort = ((e.srcPort.toNat : Nat) : Int) := (Int.toNat_of_nonneg (by omega)).symm
  exact (reached_carried hg rfl hB hr).honest e.srcKernel e.srcPort.toNat e ((outOf_eq_iff hg).mpr
    ⟨he, hclass, mem_edgeEnds_output.mpr ⟨hfrom, rfl, hq⟩⟩)

/-- When nothing is under way, the edges carry the meaning of the graph, whichever way it has been
lowered. -/
theorem emulates_solves (hg : Emulable g)
    {B : Bodies (lowerToBackend g platform userClockHz sourcePath)} {F : String → StreamFn Flit}
    (hB : ComputeAll (lowerToBackend g platform userClockHz sourcePath) B F)
    {t : NetState _ (Option StreamVar) Unit B.State Flit}
    (hr : Emulates (lowerToBackend g platform userClockHz sourcePath) B t)
    (ht : AtRest (lowerToBackend g platform userClockHz sourcePath) B t) :
    (graphNet g F).Solves (carried g t) := by
  have hW := joins_emuWiring hg rfl B
  rw [carried_eq]
  exact solves_alongEdges hg rfl hW hB (solves_of_drained hW hB _ hr ht)

/-- **When nothing is under way, the edges carry the meaning of the graph.** -/
theorem emulated_means (h : resolveModuleToGraph fuel m diags = some (true, d, g))
    (harity : (analyzePortArity g d).1 = true) (hone : ∀ e ∈ g.edges, OneBoundary g e)
    (hw : WiredOnce g) (B : Bodies (lowerToBackend g platform userClockHz sourcePath))
    {F : String → StreamFn Flit}
    (hB : ComputeAll (lowerToBackend g platform userClockHz sourcePath) B F)
    {t : NetState _ (Option StreamVar) Unit B.State Flit}
    (hr : Emulates (lowerToBackend g platform userClockHz sourcePath) B t)
    (ht : AtRest (lowerToBackend g platform userClockHz sourcePath) B t) :
    Means g F (carried g t) := by
  have hg := emulable_of_resolves h harity hone hw
  exact (means_iff hg).mpr (emulates_solves hg hB hr ht)

theorem emulated_means_passTraffic : Means passTrafficGraph passTrafficFns
    (carried passTrafficGraph (passTrafficEnd ⟨0, by decide⟩ ⟨1, by decide⟩)) :=
  emulated_means resolves_passTraffic (by decide) (by decide) (by decide) passTrafficBodies
    computeAll_passTraffic (emulates_passTraffic _ _) (settled_passTraffic (by decide))

end

end OpenClickNP
