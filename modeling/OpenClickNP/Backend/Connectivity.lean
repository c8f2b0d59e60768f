import OpenClickNP.Backend.StateStruct
import OpenClickNP.Compiler.Placement

/-!
# `emitConnectivity`

The link file has a line for each edge of the plan. For an edge at the boundary the emitter looks
whether the name of the destination contains `tor_out` (or `nic_out`) to tell an outgoing edge from
an incoming one, so a kernel behind `tor_in` whose name contains it gets a line the wrong way
round, and an edge from `tor_in` to another pseudo-element names no kernel at all. All other lines
are right (`connectivity_iff`).
-/

namespace OpenClickNP

open Ast Eg Be

/-! ## The lines -/

/-- One end of a stream in the link file. -/
inductive LinkEnd where
  /-- An interface of the platform, by its name and number. -/
  | platform (name : String) (idx : Int)
  | kernelOut (kernel : String) (port : Int)
  | kernelIn (kernel : String) (port : Int)
deriving DecidableEq, Repr

def LinkEnd.text : LinkEnd → String
  | .platform name idx => name ++ toString idx
  | .kernelOut kernel port => kernel ++ ".out_" ++ toString port
  | .kernelIn kernel port => kernel ++ ".in_" ++ toString port

/-- `stream_connect=<source>:<destination>[:<depth>]`. -/
structure StreamConnect where
  source : LinkEnd
  dest : LinkEnd
  depth : Option Int := none
deriving DecidableEq, Repr

def StreamConnect.text (l : StreamConnect) : String :=
  "stream_connect=" ++ l.source.text ++ ":" ++ l.dest.text
    ++ (match l.depth with
      | some depth => ":" ++ toString depth
      | none => "") ++ "\n"

def streamLine (sc : StreamConn) : StreamConnect where
  source := .kernelOut sc.srcKernel sc.srcPort
  dest := .kernelIn sc.dstKernel sc.dstPort
  depth := some sc.depth

/-- The body of the loops over `tor_conns` and `nic_conns`; `find` is `std::string::find`. -/
def boundaryLine (inName outName : String) (idx : Nat) (sc : StreamConn) : StreamConnect :=
  if find outName.toList sc.dstKernel.toList = none then
    { source := .platform inName idx
      dest := .kernelIn sc.dstKernel sc.dstPort
      depth := some sc.depth }
  else
    { source := .kernelOut sc.srcKernel sc.srcPort
      dest := .platform outName idx
      depth := some sc.depth }

def boundaryLines (inName outName : String) : Nat → List StreamConn → List StreamConnect
  | _, [] => []
  | idx, sc :: conns =>
    boundaryLine inName outName idx sc :: boundaryLines inName outName (idx + 1) conns

def torLines (b : Build) : List StreamConnect := boundaryLines "tor_in" "tor_out" 0 b.torConns

def nicLines (b : Build) : List StreamConnect := boundaryLines "nic_in" "nic_out" 0 b.nicConns

def hostLine (hs : HostConn) : StreamConnect :=
  if hs.kernelToHost then
    { source := .kernelOut hs.kernel hs.port, dest := .platform "host_c2h_" hs.slotId }
  else { source := .platform "host_h2c_" hs.slotId, dest := .kernelIn hs.kernel hs.port }

def emitConnectivity (b : Build) : String :=
  "# Auto-generated v++ link connectivity\n" ++ "[connectivity]\n"
    ++ String.join (b.kernels.map fun k => "nk=" ++ k.elementType ++ ":1:" ++ k.name ++ "\n")
    ++ String.join ((b.streamConns.map streamLine ++ torLines b ++ nicLines b
      ++ b.hostStreams.map hostLine).map StreamConnect.text)

/-! ## What they should say -/

/-- The line of an edge at the boundary names the kernel of the edge, with its port and the
direction of the edge. -/
def NamesKernel (g : Graph) (b : Build) (e : Edge) (line : StreamConnect) : Prop :=
  match specialOf (g.find e.srcKernel) with
  | .torIn => (∃ idx, line.source = .platform "tor_in" idx) ∧
      line.dest = .kernelIn e.dstKernel e.dstPort ∧ IsInPort b e.dstKernel e.dstPort
  | .nicIn => (∃ idx, line.source = .platform "nic_in" idx) ∧
      line.dest = .kernelIn e.dstKernel e.dstPort ∧ IsInPort b e.dstKernel e.dstPort
  | _ => (∃ idx, line.dest = .platform
        (if specialOf (g.find e.dstKernel) = .torOut then "tor_out" else "nic_out") idx) ∧
      line.source = .kernelOut e.srcKernel e.srcPort ∧ IsOutPort b e.srcKernel e.srcPort

/-- Every line for an edge at the boundary is that edge's, in the order of the edges. -/
structure Connects (g : Graph) (b : Build) : Prop where
  tor : List.Forall₂ (NamesKernel g b) (g.edges.filter (classOf g · == .tor)) (torLines b)
  nic : List.Forall₂ (NamesKernel g b) (g.edges.filter (classOf g · == .nic)) (nicLines b)

/-- The other end of an edge at the boundary is a kernel, and behind an input its name does not
contain that of the output. -/
def OneWay (g : Graph) (e : Edge) : Prop :=
  match specialOf (g.find e.srcKernel) with
  | .torIn => specialOf (g.find e.dstKernel) = .none ∧
      ¬ "tor_out".toList <:+: e.dstKernel.toList
  | .nicIn => specialOf (g.find e.dstKernel) = .none ∧
      ¬ "nic_out".toList <:+: e.dstKernel.toList
  | src => src = .none

/-! ## The reserved names -/

section
variable {g : Graph}

/-- Pseudo-elements have the names they are made for. -/
theorem special_reserved {m : Module} {fuel : Nat} {diags d : DiagnosticEngine}
    (h : resolveModuleToGraph fuel m diags = some (true, d, g)) :
    ∀ k ∈ g.kernels, k.special ≠ .none → specialFromName k.name = k.special := by
  obtain ⟨rf, hrf, -, -, rfl⟩ := resolver_of_resolves h
  obtain ⟨os, -, -, hplain⟩ := adds_module hrf
  -- the instances of the module are plain kernels, so the invariant holds when the first is added
  have hstep : ∀ (ns : List String) (g : Graph),
      (∀ k ∈ g.kernels, k.special ≠ .none → specialFromName k.name = k.special) →
      ∀ k ∈ (ns.foldl Resolver.addSpecial g).kernels, k.special ≠ .none →
        specialFromName k.name = k.special := by
    intro ns
    induction ns with
    | nil => exact fun _ hg => hg
    | cons n ns ih =>
      intro g hg
      refine ih _ ?_
      unfold Resolver.addSpecial
      split
      · exact hg
      · split
        · exact hg
        · intro k hk hspecial
          rcases List.mem_append.mp hk with hk | hk
          · exact hg k hk hspecial
          · rw [List.mem_singleton.mp hk]
            rfl
  intro k hk hspecial
  obtain ⟨k', hk', hname, hkind, -⟩ := mem_assignSlots hk
  rw [hkind] at hspecial ⊢
  rw [hname]
  exact hstep _ _ (fun k hk hspecial => absurd (hplain k hk) hspecial) k' hk' hspecial

theorem of_ite {p : Prop} [Decidable p] {a b c : SpecialKind} (h : (if p then a else b) = c)
    (hne : a ≠ c) : b = c := by
  by_cases hp : p
  · rw [if_pos hp] at h
    exact absurd h hne
  · rwa [if_neg hp] at h

theorem name_of_torOut {n : String} (h : specialFromName n = .torOut) : n = "tor_out" := by
  by_contra hn
  -- the second test is the one for `tor_out`; no other gives its kind
  unfold specialFromName at h
  replace h := of_ite h nofun
  rw [if_neg hn] at h
  iterate 8 replace h := of_ite h nofun
  cases h

theorem name_of_nicOut {n : String} (h : specialFromName n = .nicOut) : n = "nic_out" := by
  by_contra hn
  unfold specialFromName at h
  iterate 3 replace h := of_ite h nofun
  rw [if_neg hn] at h
  iterate 6 replace h := of_ite h nofun
  cases h

/-! ## Edge by edge -/

section
variable {inName outName : String} {e : Edge}

theorem boundaryLine_in (h : ¬ outName.toList <:+: e.dstKernel.toList) (idx : Nat) :
    boundaryLine inName outName idx (streamConnOf e)
      = { source := .platform inName idx, dest := .kernelIn e.dstKernel e.dstPort,
          depth := some e.depth } :=
  if_pos (find_eq_none.mpr h)

theorem boundaryLine_out (h : outName.toList <:+: e.dstKernel.toList) (idx : Nat) :
    boundaryLine inName outName idx (streamConnOf e)
      = { source := .kernelOut e.srcKernel e.srcPort, dest := .platform outName idx,
          depth := some e.depth } :=
  if_neg fun hnone => find_eq_none.mp hnone h

end

section
variable {b : Build} {e : Edge} {line : StreamConnect}

theorem namesKernel_outgoing (line : StreamConnect)
    (hsrc : specialOf (g.find e.srcKernel) ≠ .torIn)
    (hsrc' : specialOf (g.find e.srcKernel) ≠ .nicIn) :
    (NamesKernel g b e line ↔ (∃ idx, line.dest = .platform
        (if specialOf (g.find e.dstKernel) = .torOut then "tor_out" else "nic_out") idx) ∧
      line.source = .kernelOut e.srcKernel e.srcPort ∧ IsOutPort b e.srcKernel e.srcPort) ∧
      (OneWay g e ↔ specialOf (g.find e.srcKernel) = .none) := by
  unfold NamesKernel OneWay
  constructor
  · split
    next h => exact absurd h hsrc
    next h => exact absurd h hsrc'
    · rfl
  · split
    next h => exact absurd h hsrc
    next h => exact absurd h hsrc'
    · rfl

/-- An edge behind `tor_in` or `nic_in`. -/
theorem incoming_iff {inName outName : String} (idx : Nat)
    (hin : IsInPort b e.dstKernel e.dstPort ↔ specialOf (g.find e.dstKernel) = .none) :
    ((∃ i, (boundaryLine inName outName idx (streamConnOf e)).source = .platform inName i) ∧
        (boundaryLine inName outName idx (streamConnOf e)).dest = .kernelIn e.dstKernel e.dstPort ∧
        IsInPort b e.dstKernel e.dstPort) ↔
      specialOf (g.find e.dstKernel) = .none ∧ ¬ outName.toList <:+: e.dstKernel.toList := by
  by_cases hname : outName.toList <:+: e.dstKernel.toList
  · rw [boundaryLine_out hname]
    simp [hname]
  · rw [boundaryLine_in hname]
    simp [hname, hin]

/-- An edge in front of `tor_out` or `nic_out`, whose name contains itself. -/
theorem outgoing_iff {inName outName : String} (idx : Nat) (hdst : e.dstKernel = outName)
    (hout : IsOutPort b e.srcKernel e.srcPort ↔ specialOf (g.find e.srcKernel) = .none) :
    ((∃ i, (boundaryLine inName outName idx (streamConnOf e)).dest = .platform outName i) ∧
        (boundaryLine inName outName idx (streamConnOf e)).source
          = .kernelOut e.srcKernel e.srcPort ∧
        IsOutPort b e.srcKernel e.srcPort) ↔ specialOf (g.find e.srcKernel) = .none := by
  have hname : outName.toList <:+: e.dstKernel.toList := hdst ▸ List.infix_rfl
  rw [boundaryLine_out hname]
  simp [hout]

end

/-- What an edge's class says of its ends. -/
theorem ends_of_tor {src dst : SpecialKind} :
    edgeClass src dst = .tor → src = .torIn ∨ (src ≠ .nicIn ∧ dst = .torOut) := by
  cases src <;> cases dst <;> decide

theorem ends_of_nic {src dst : SpecialKind} :
    edgeClass src dst = .nic → src = .nicIn ∨ (src ≠ .torIn ∧ dst = .nicOut) := by
  cases src <;> cases dst <;> decide

/-- The name at an end of a kind. -/
theorem specialFromName_of_find
    (hreserved : ∀ k ∈ g.kernels, k.special ≠ .none → specialFromName k.name = k.special)
    {n : String} (h : specialOf (g.find n) ≠ .none) :
    specialFromName n = specialOf (g.find n) := by
  cases hk : g.find n with
  | none =>
    rw [hk] at h
    exact absurd rfl h
  | some k =>
    rw [hk] at h
    obtain ⟨hmem, hname⟩ := Graph.find_eq_some hk
    rw [← hname]
    exact hreserved k hmem h

/-- The lines of a list of edges, each right under its own condition. Induction on the edges. -/
theorem forall₂_boundaryLines {b : Build} {inName outName : String} {es : List Edge}
    (h : ∀ e ∈ es, ∀ idx,
      NamesKernel g b e (boundaryLine inName outName idx (streamConnOf e)) ↔ OneWay g e)
    (idx : Nat) :
    List.Forall₂ (NamesKernel g b) es (boundaryLines inName outName idx (es.map streamConnOf)) ↔
      ∀ e ∈ es, OneWay g e := by
  induction es generalizing idx with
  | nil => exact ⟨fun _ _ he => absurd he List.not_mem_nil, fun _ => .nil⟩
  | cons e es ih =>
    rw [List.map_cons, boundaryLines, List.forall₂_cons, h e List.mem_cons_self,
      ih (fun x hx => h x (List.mem_cons_of_mem _ hx)), List.forall_mem_cons]

/-- The line of an edge between a kernel and the ToR. -/
theorem torLine_iff {b : Build} {e : Edge} (idx : Nat)
    (hreserved : ∀ k ∈ g.kernels, k.special ≠ .none → specialFromName k.name = k.special)
    (hclass : classOf g e = .tor)
    (hin : IsInPort b e.dstKernel e.dstPort ↔ specialOf (g.find e.dstKernel) = .none)
    (hout : IsOutPort b e.srcKernel e.srcPort ↔ specialOf (g.find e.srcKernel) = .none) :
    NamesKernel g b e (boundaryLine "tor_in" "tor_out" idx (streamConnOf e)) ↔ OneWay g e := by
  by_cases hsrc : specialOf (g.find e.srcKernel) = .torIn
  · simp only [NamesKernel, OneWay, hsrc]
    exact incoming_iff idx hin
  · obtain ⟨hsrc', hdst⟩ := (ends_of_tor hclass).resolve_left hsrc
    obtain ⟨hnames, honeWay⟩ := namesKernel_outgoing (b := b)
      (boundaryLine "tor_in" "tor_out" idx (streamConnOf e)) hsrc hsrc'
    -- `tor_out` contains its own name, so the emitter takes the edge for an outgoing one
    have hname : e.dstKernel = "tor_out" := name_of_torOut
      ((specialFromName_of_find hreserved (by simp [hdst])).trans hdst)
    rw [hnames, honeWay, if_pos hdst]
    exact outgoing_iff idx hname hout

/-- The line of an edge between a kernel and the NIC. -/
theorem nicLine_iff {b : Build} {e : Edge} (idx : Nat)
    (hreserved : ∀ k ∈ g.kernels, k.special ≠ .none → specialFromName k.name = k.special)
    (hclass : classOf g e = .nic)
    (hin : IsInPort b e.dstKernel e.dstPort ↔ specialOf (g.find e.dstKernel) = .none)
    (hout : IsOutPort b e.srcKernel e.srcPort ↔ specialOf (g.find e.srcKernel) = .none) :
    NamesKernel g b e (boundaryLine "nic_in" "nic_out" idx (streamConnOf e)) ↔ OneWay g e := by
  by_cases hsrc : specialOf (g.find e.srcKernel) = .nicIn
  · simp only [NamesKernel, OneWay, hsrc]
    exact incoming_iff idx hin
  · obtain ⟨hsrc', hdst⟩ := (ends_of_nic hclass).resolve_left hsrc
    obtain ⟨hnames, honeWay⟩ := namesKernel_outgoing (b := b)
      (boundaryLine "nic_in" "nic_out" idx (streamConnOf e)) hsrc' hsrc
    have hname : e.dstKernel = "nic_out" := name_of_nicOut
      ((specialFromName_of_find hreserved (by simp [hdst])).trans hdst)
    rw [hnames, honeWay, if_neg (by simp [hdst])]
    exact outgoing_iff idx hname hout

/-- **When the link file joins the boundary to the right ports.** For every module that resolves
without error to a graph with existing ports: exactly when each edge at the boundary has a kernel at
its other end, which behind `tor_in` is not called like `tor_out` and behind `nic_in` not like
`nic_out`. -/
theorem connectivity_iff {m : Module} {fuel : Nat} {diags d : DiagnosticEngine} {g : Graph}
    (h : resolveModuleToGraph fuel m diags = some (true, d, g))
    (harity : (analyzePortArity g d).1 = true) (platform : Platform) (userClockHz : Int)
    (sourcePath : String) :
    Connects g (lowerToBackend g platform userClockHz sourcePath) ↔
      ∀ e ∈ g.edges, classOf g e = .tor ∨ classOf g e = .nic → OneWay g e := by
  have hg := accepted_of_resolves h
  have hports := portsInRange_of_arity harity
  have hreserved := special_reserved h
  have hin := fun e he => isInPort_iff platform userClockHz sourcePath hg he (hports e he)
  have hout := fun e he => isOutPort_iff platform userClockHz sourcePath hg he (hports e he)
  obtain ⟨-, -, htor, hnic, -⟩ := lowerToBackend_lists g platform userClockHz sourcePath
  generalize lowerToBackend g platform userClockHz sourcePath = b at hin hout htor hnic ⊢
  have htorEdge : ∀ e ∈ g.edges.filter (classOf g · == .tor), ∀ idx,
      NamesKernel g b e (boundaryLine "tor_in" "tor_out" idx (streamConnOf e)) ↔ OneWay g e := by
    intro e he idx
    obtain ⟨hmem, hclass⟩ := List.mem_filter.mp he
    exact torLine_iff idx hreserved (beq_iff_eq.mp hclass) (hin e hmem) (hout e hmem)
  have hnicEdge : ∀ e ∈ g.edges.filter (classOf g · == .nic), ∀ idx,
      NamesKernel g b e (boundaryLine "nic_in" "nic_out" idx (streamConnOf e)) ↔ OneWay g e := by
    intro e he idx
    obtain ⟨hmem, hclass⟩ := List.mem_filter.mp he
    exact nicLine_iff idx hreserved (beq_iff_eq.mp hclass) (hin e hmem) (hout e hmem)
  have hsplit : Connects g b ↔
      (∀ e ∈ g.edges.filter (classOf g · == .tor), OneWay g e) ∧
        ∀ e ∈ g.edges.filter (classOf g · == .nic), OneWay g e := by
    rw [← forall₂_boundaryLines htorEdge 0, ← forall₂_boundaryLines hnicEdge 0]
    unfold edgesOf at htor hnic
    rw [← htor, ← hnic]
    exact ⟨fun hb => ⟨hb.tor, hb.nic⟩, fun hb => ⟨hb.1, hb.2⟩⟩
  rw [hsplit]
  simp only [List.mem_filter, beq_iff_eq, and_imp]
  exact ⟨fun hb e he hclass => hclass.elim (hb.1 e he) (hb.2 e he),
    fun hb => ⟨fun e he hclass => hb e he (.inl hclass), fun e he hclass => hb e he (.inr hclass)⟩⟩

end

/-! ## Two modules -/

/-- The link file of `throughPass` is right. -/
theorem connectivity_throughPass :
    Connects throughPassGraph (lowerToBackend throughPassGraph .u50Xdma 322265625 "") := by
  have hres : resolveModuleToGraph 1 throughPass {} = some (true, {}, throughPassGraph) := by decide
  refine (connectivity_iff hres (by decide) .u50Xdma 322265625 "").mpr ?_
  have hnot : ¬ "tor_out".toList <:+: "p".toList := by decide
  intro e he _
  rcases List.mem_cons.mp he with rfl | he
  · exact ⟨by decide, hnot⟩
  · rw [List.mem_singleton.mp he]
    exact (by decide : specialOf (throughPassGraph.find "p") = .none)

/-- `tor_in -> my_tor_out`, a `Pass`. -/
def namedLikeOutput : Module where
  stmts := [
    .elementDecl passElement,
    .instanceDecl { type := "Pass", name := "my_tor_out" },
    .connectionDecl (connect "tor_in" "my_tor_out")]

/-- The line joins an output of `tor_in` to an interface `tor_out`. -/
theorem connectivity_reversed :
    ¬ ∀ (m : Module) (fuel : Nat) (diags d : DiagnosticEngine) (g : Graph)
      (platform : Platform) (userClockHz : Int) (sourcePath : String),
      resolveModuleToGraph fuel m diags = some (true, d, g) →
      (analyzePortArity g d).1 = true →
      Connects g (lowerToBackend g platform userClockHz sourcePath) := by
  intro h
  let g : Graph :=
    { kernels := [{ name := "my_tor_out", type := "Pass", nInPorts := 1, nOutPorts := 1 },
        { name := "tor_in", type := "tor_in", special := .torIn, nOutPorts := 1, autorun := true }]
      edges := [{ srcKernel := "tor_in", dstKernel := "my_tor_out" }] }
  have hres : resolveModuleToGraph 1 namedLikeOutput {} = some (true, {}, g) := by decide
  have hline : torLines (lowerToBackend g .u50Xdma 322265625 "")
      = [{ source := .kernelOut "tor_in" 1, dest := .platform "tor_out" 0, depth := some 64 }] := by
    decide
  have htor := (h namedLikeOutput 1 {} {} g .u50Xdma 322265625 "" hres (by decide)).tor
  rw [hline] at htor
  cases htor with
  | cons hnames _ =>
    obtain ⟨⟨idx, hsource⟩, -⟩ := hnames
    cases hsource

end OpenClickNP
