import OpenClickNP.Backend.Connectivity
import OpenClickNP.Compiler.ChainDepths
import OpenClickNP.Compiler.Expansion
import OpenClickNP.Compiler.SwEmuWiring

/-!
# The depth of a channel

A depth can be written at either end of a connection, and an instance declares one for its outgoing
edges. `addConnection` looks at the ends only: where neither has a depth the edge gets 64, whatever
the source instance declares. The emulator, the SystemC model and the link file then give the stream
the depth of the edge, but the emulator's host streams always hold 64 flits (`channelDepth_iff`).
The HLS kernels and the Verilog top level have no depth for a stream, nor has the link file for one
of the host.
-/

namespace OpenClickNP

open Ast Eg Be Syntax OpenClickNP.Parser

/-! ## The depth that is declared -/

/-- The instance of that name, the first of several as in `Graph::find`. -/
def instanceNamed (ss : List Site) (n : String) : Option InstanceDecl :=
  ((elements ss).find? (·.name == n)).map (·.inst)

/-- The channel depth of an instance; a pseudo-element declares none. -/
def channelDepthOf (ss : List Site) (n : String) : Int :=
  ((instanceNamed ss n).map (·.channelDepth)).getD 64

/-- The depth written at the destination, else at the source, else the one that the source instance
declares. An end without a depth has `-1`. -/
def declaredDepth (ss : List Site) (c : ConnectionDecl) : Int :=
  if c.dest.range.depth ≠ -1 then c.dest.range.depth
  else if c.source.range.depth ≠ -1 then c.source.range.depth
  else channelDepthOf ss c.source.nodeName

/-! ## The depths of the backends -/

/-- `systemc/emit.cpp`: `fifo_<idx>(<depth>)`, for the streams between kernels only. -/
def fifos (b : Build) : List (Nat × Int) := b.streamConns.zipIdx.map fun p => (p.2, p.1.depth)

/-- The `stream_connect` lines of the link file. -/
def connectLines (b : Build) : List StreamConnect :=
  b.streamConns.map streamLine ++ torLines b ++ nicLines b ++ b.hostStreams.map hostLine

/-- The connections whose edges have the class, in their order. -/
def ofClass (g : Graph) (ss : List Site) (cls : EdgeClass) : List ConnectionDecl :=
  (connections ss).filter fun c => classOf g (Resolver.edgeOf c "") == cls

def ofHost (g : Graph) (ss : List Site) : List ConnectionDecl :=
  (connections ss).filter fun c => isHostEdge g (Resolver.edgeOf c "")

/-- Every edge has the depth declared for it, and so has its stream in every backend that gives it
one. -/
structure DepthsKept (ss : List Site) (g : Graph) (b : Build) : Prop where
  edges : g.edges.map (·.depth) = (connections ss).map (declaredDepth ss)
  swEmu : (streamDecls b).map (·.2)
    = (ofClass g ss .stream ++ ofClass g ss .tor ++ ofClass g ss .nic ++ ofHost g ss).map
        (declaredDepth ss)
  systemC : (fifos b).map (·.2) = (ofClass g ss .stream).map (declaredDepth ss)
  link : (connectLines b).filterMap (·.depth)
    = (ofClass g ss .stream ++ ofClass g ss .tor ++ ofClass g ss .nic).map (declaredDepth ss)

/-- The depth that counts is a positive one written at an end, or 64. -/
def DepthTaken (ss : List Site) (c : ConnectionDecl) : Prop :=
  if c.dest.range.depth ≠ -1 then 0 < c.dest.range.depth
  else if c.source.range.depth ≠ -1 then 0 < c.source.range.depth
  else channelDepthOf ss c.source.nodeName = 64

instance (ss : List Site) (c : ConnectionDecl) : Decidable (DepthTaken ss c) :=
  inferInstanceAs (Decidable (ite _ _ _))

/-! ## When it is kept -/

theorem depth_edgeOf_iff (ss : List Site) (c : ConnectionDecl) :
    (Resolver.edgeOf c "").depth = declaredDepth ss c ↔ DepthTaken ss c := by
  have hdepth : (Resolver.edgeOf c "").depth
      = if c.dest.range.depth > 0 then c.dest.range.depth
        else if c.source.range.depth > 0 then c.source.range.depth else 64 := rfl
  rw [hdepth]
  -- a depth that is written but not positive passes for one that is not written
  unfold declaredDepth DepthTaken
  split_ifs <;> omega

section
variable {g : Graph} {ss : List Site} {platform : Platform} {userClockHz : Int}
variable {sourcePath : String}

/-- The streams of a class have the depths of its edges. -/
theorem depths_edgesOf (hedges : g.edges = (connections ss).map (Resolver.edgeOf · ""))
    (cls : EdgeClass) :
    (edgesOf g cls g.edges).map (·.depth)
      = (ofClass g ss cls).map fun c => (Resolver.edgeOf c "").depth := by
  rw [edgesOf, hedges, List.filter_map, List.map_map, List.map_map]
  rfl

theorem depths_boundaryLines (inName outName : String) (idx : Nat) (conns : List StreamConn) :
    (boundaryLines inName outName idx conns).filterMap (·.depth) = conns.map (·.depth) := by
  induction conns generalizing idx with
  | nil => rfl
  | cons sc conns ih =>
    have hline : (boundaryLine inName outName idx sc).depth = some sc.depth := by
      unfold boundaryLine
      split <;> rfl
    rw [boundaryLines, List.filterMap_cons_some hline, ih, List.map_cons]

/-- The link file. -/
theorem depths_connectLines (b : Build) :
    (connectLines b).filterMap (·.depth)
      = b.streamConns.map (·.depth) ++ b.torConns.map (·.depth) ++ b.nicConns.map (·.depth) := by
  have hstream : (b.streamConns.map streamLine).filterMap (·.depth)
      = b.streamConns.map (·.depth) := by
    rw [List.filterMap_map]
    exact congrFun (List.filterMap_eq_map (f := StreamConn.depth)) b.streamConns
  -- a line for the host has no depth
  have hhost : (b.hostStreams.map hostLine).filterMap (·.depth) = [] := by
    rw [List.filterMap_map]
    refine List.filterMap_eq_nil_iff.mpr fun hs _ => ?_
    show (hostLine hs).depth = none
    unfold hostLine
    split <;> rfl
  rw [connectLines, List.filterMap_append, List.filterMap_append, List.filterMap_append, hstream,
    hhost, List.append_nil]
  unfold torLines nicLines
  rw [depths_boundaryLines, depths_boundaryLines]

theorem map_zipIdx_fst {α : Type} (l : List α) (f : α → Int) :
    l.zipIdx.map (fun p => f p.1) = l.map f := by
  have hfst : (l.zipIdx.map Prod.fst).map f = l.map f := by rw [List.zipIdx_map_fst]
  rwa [List.map_map] at hfst

/-- The emulator. -/
theorem depths_streamDecls (b : Build) :
    (streamDecls b).map (·.2)
      = b.streamConns.map (·.depth) ++ b.torConns.map (·.depth) ++ b.nicConns.map (·.depth)
        ++ b.hostStreams.map fun _ => 64 := by
  unfold streamDecls
  simp only [List.map_append, List.map_map]
  congr 1
  · congr 1
    · congr 1
      · exact map_zipIdx_fst b.streamConns (·.depth)
      · exact map_zipIdx_fst b.torConns (·.depth)
    · exact map_zipIdx_fst b.nicConns (·.depth)
  · exact map_zipIdx_fst b.hostStreams fun _ => 64

/-- **The depths of the edges and of their streams.** -/
theorem depthsKept_iff (hedges : g.edges = (connections ss).map (Resolver.edgeOf · "")) :
    DepthsKept ss g (lowerToBackend g platform userClockHz sourcePath) ↔
      (∀ c ∈ connections ss, DepthTaken ss c) ∧ ∀ c ∈ ofHost g ss, declaredDepth ss c = 64 := by
  obtain ⟨-, hstream, htor, hnic, hhost⟩ :=
    lowerToBackend_lists g platform userClockHz sourcePath
  generalize lowerToBackend g platform userClockHz sourcePath = b at hstream htor hnic hhost ⊢
  -- a host stream has no field for a depth: the emulator writes 64 for each
  have hhosts : (b.hostStreams.map fun _ => (64 : Int)) = (ofHost g ss).map fun _ => 64 := by
    have hlength : b.hostStreams.length = (ofHost g ss).length := by
      rw [hhost, List.length_map, List.length_zipIdx, hedges, List.filter_map, List.length_map]
      rfl
    rw [List.map_const', List.map_const', hlength]
  have hclass : ∀ cls, (∀ c ∈ connections ss, DepthTaken ss c) →
      (ofClass g ss cls).map (fun c => (Resolver.edgeOf c "").depth)
        = (ofClass g ss cls).map (declaredDepth ss) := fun cls htaken =>
    List.map_congr_left fun c hc =>
      (depth_edgeOf_iff ss c).mpr (htaken c (List.mem_of_mem_filter hc))
  have hconns : g.edges.map (·.depth)
      = (connections ss).map fun c => (Resolver.edgeOf c "").depth := by
    rw [hedges, List.map_map]
    rfl
  -- the streams that are no host streams, in the order in which all backends have them
  have hstreams : (∀ c ∈ connections ss, DepthTaken ss c) →
      b.streamConns.map (·.depth) ++ b.torConns.map (·.depth) ++ b.nicConns.map (·.depth)
        = (ofClass g ss .stream ++ ofClass g ss .tor ++ ofClass g ss .nic).map
            (declaredDepth ss) := by
    intro htaken
    rw [hstream, htor, hnic, depths_edgesOf hedges, depths_edgesOf hedges, depths_edgesOf hedges,
      hclass _ htaken, hclass _ htaken, hclass _ htaken, List.map_append, List.map_append]
  constructor
  · rintro ⟨hkept, hswEmu, -, -⟩
    have htaken : ∀ c ∈ connections ss, DepthTaken ss c := fun c hc =>
      (depth_edgeOf_iff ss c).mp (List.map_inj_left.mp (hconns.symm.trans hkept) c hc)
    refine ⟨htaken, fun c hc => ?_⟩
    -- the emulator is the only backend that gives a host stream a depth
    rw [depths_streamDecls, hhosts, List.map_append, ← hstreams htaken] at hswEmu
    exact (List.map_inj_left.mp (List.append_cancel_left hswEmu) c hc).symm
  · rintro ⟨htaken, hsixtyFour⟩
    constructor
    · rw [hconns]
      exact List.map_congr_left fun c hc => (depth_edgeOf_iff ss c).mpr (htaken c hc)
    · rw [depths_streamDecls, hhosts, List.map_append, ← hstreams htaken]
      exact congrArg _ (List.map_congr_left fun c hc => (hsixtyFour c hc).symm)
    · have hfifos : (fifos b).map (·.2) = b.streamConns.map (·.depth) := by
        unfold fifos
        rw [List.map_map]
        exact map_zipIdx_fst b.streamConns (·.depth)
      rw [hfifos, hstream, depths_edgesOf hedges, hclass _ htaken]
    · rw [depths_connectLines, hstreams htaken]

end

/-- **The depth of a channel.** From the text to the connections, where a chain keeps the depths
written at its ends; and from the connections of an accepted module to the edges and the streams of
every backend. -/
theorem channelDepth_iff (c : Chain) (semi : Bool) (sink : Sink) (s : FileState) (v : State)
    (m : Module) (fuel : Nat) (diags d : DiagnosticEngine) (g : Graph) (platform : Platform)
    (userClockHz : Int) (sourcePath : String) :
    (s.toState.Reads (c.lexemes ++ semicolonLexemes semi) v → (semi = false → Ends v.cur) →
      (KeepsDepths c sink s v ↔ ∀ l ∈ c.links, DepthTogether l)) ∧
    (resolveModuleToGraph fuel m diags = some (true, d, g) →
      ∃ ss, moduleSites m fuel = some ss ∧
        (DepthsKept ss g (lowerToBackend g platform userClockHz sourcePath) ↔
          (∀ c ∈ connections ss, DepthTaken ss c) ∧
            ∀ c ∈ ofHost g ss, declaredDepth ss c = 64)) := by
  refine ⟨fun hreads hend => chain_depths_iff hreads hend, fun h => ?_⟩
  obtain ⟨ss, hss, -, hedges⟩ := graph_of_accepted h
  exact ⟨ss, hss, depthsKept_iff hedges⟩

/-- An instance that declares a depth, in front of another. -/
def deepModule : Module where
  stmts := [
    .elementDecl passElement,
    .instanceDecl {
      type := "Pass"
      name := "a"
      nInPorts := 1
      nOutPorts := 1
      channelDepth := 256 },
    .instanceDecl { type := "Pass", name := "b" },
    .connectionDecl (connect "a" "b")]

theorem channelDepth_deepModule :
    (∃ v, KeepsDepths bothBrackets .module
      (openFile {} "" (textOf (spread (bothBrackets.lexemes ++ semicolonLexemes true)))) v ↔
        ∀ l ∈ bothBrackets.links, DepthTogether l) ∧
    ∃ d g ss, resolveModuleToGraph 1 deepModule {} = some (true, d, g) ∧
      (DepthsKept ss g (lowerToBackend g .u50Xdma 1 "a.clnp") ↔
        (∀ c ∈ connections ss, DepthTaken ss c) ∧
          ∀ c ∈ ofHost g ss, declaredDepth ss c = 64) := by
  obtain ⟨v, hreads, -⟩ := openFile_spread (bothBrackets.lexemes ++ semicolonLexemes true)
    {} "" (by decide)
  have haccepted : (resolveModuleToGraph 1 deepModule {}).map (·.1) = some true := by
    decide +kernel
  obtain ⟨⟨ok, d, g⟩, hresolve, rfl⟩ := Option.map_eq_some_iff.mp haccepted
  obtain ⟨hchain, hmodule⟩ := channelDepth_iff bothBrackets true .module
    (openFile {} "" (textOf (spread (bothBrackets.lexemes ++ semicolonLexemes true)))) v
    deepModule 1 {} d g .u50Xdma 1 "a.clnp"
  obtain ⟨ss, -, hss⟩ := hmodule hresolve
  exact ⟨⟨v, hchain hreads nofun⟩, d, g, ss, hresolve, hss⟩

/-- The edge holds 64 flits, not the 256 of its source. -/
theorem channelDepth_ignored : ¬ ∀ (m : Module) (fuel : Nat) (diags d : DiagnosticEngine)
    (g : Graph), resolveModuleToGraph fuel m diags = some (true, d, g) →
    ∀ (platform : Platform) (userClockHz : Int) (sourcePath : String),
      ∃ ss, moduleSites m fuel = some ss ∧
        DepthsKept ss g (lowerToBackend g platform userClockHz sourcePath) := by
  intro h
  have hedge : (resolveModuleToGraph 1 deepModule {}).map
      (fun x => (x.1, x.2.2.edges.map (·.depth))) = some (true, [64]) := by decide +kernel
  have hdeclared : (moduleSites deepModule 1).map
      (fun ss => (connections ss).map (declaredDepth ss)) = some [256] := by decide +kernel
  obtain ⟨⟨ok, d, g⟩, hresolve, heq⟩ := Option.map_eq_some_iff.mp hedge
  obtain ⟨hok, hdepths⟩ := Prod.mk.injEq .. ▸ heq
  obtain rfl : ok = true := hok
  obtain ⟨ss, hss, hkept⟩ := h deepModule 1 {} d g hresolve .u50Xdma 1 "a.clnp"
  rw [hss, Option.map_some] at hdeclared
  have hsame := hkept.edges
  rw [hdepths, Option.some.inj hdeclared] at hsame
  exact absurd hsame (by decide)

end OpenClickNP
