import OpenClickNP.Compiler.KernelNames
import OpenClickNP.Compiler.Lower

/-!
# Where the lowering puts the edges

`lowerToBackend` sorts the edges of an accepted graph by the pseudo-elements at their ends. It
loses none but those from `Idle` and to `Drop`. What it records of an edge names kernel ports of
the plan exactly when the edge has no second pseudo-element (`placement_iff`): the passes before
it admit `tor_in -> nic_out`, `host_in -> Drop` or a `begin` outside of any group.
-/

namespace OpenClickNP

open Ast Eg Be

/-! ## Accepted graphs -/

/-- Pseudo-elements have their reserved names and ports, and share their names with no element;
every edge ends at kernels of the graph. -/
structure Accepted (g : Graph) : Prop where
  ports : ∀ k ∈ g.kernels, k.special ≠ .none →
    k.nInPorts = (Resolver.specialPorts k.special).1 ∧
      k.nOutPorts = (Resolver.specialPorts k.special).2
  apart : ∀ k ∈ g.kernels, ∀ k' ∈ g.kernels, k.name = k'.name → k.special = k'.special
  ends : ∀ e ∈ g.edges, (g.find e.srcKernel).isSome = true ∧ (g.find e.dstKernel).isSome = true

/-- The first two facts, as long as pseudo-elements are still added. -/
structure Separated (ks : List Kernel) : Prop where
  ports : ∀ k ∈ ks, k.special ≠ .none →
    k.nInPorts = (Resolver.specialPorts k.special).1 ∧
      k.nOutPorts = (Resolver.specialPorts k.special).2
  apart : ∀ k ∈ ks, ∀ k' ∈ ks, k.name = k'.name → k.special = k'.special

theorem separated_addSpecial {g : Graph} (h : Separated g.kernels) (n : String) :
    Separated (Resolver.addSpecial g n).kernels := by
  unfold Resolver.addSpecial
  split
  · exact h
  · rename_i hfresh
    split
    · exact h
    · -- the new kernel has a name of its own
      have hname : ∀ k ∈ g.kernels, k.name ≠ n := by
        simpa [Resolver.hasKernel] using hfresh
      constructor
      · intro k hk hspecial
        rcases List.mem_append.mp hk with hk | hk
        · exact h.ports k hk hspecial
        · rw [List.mem_singleton.mp hk]
          exact ⟨rfl, rfl⟩
      · intro k hk k' hk' heq
        rcases List.mem_append.mp hk with hk | hk <;> rcases List.mem_append.mp hk' with hk' | hk'
        · exact h.apart k hk k' hk' heq
        · rw [List.mem_singleton.mp hk'] at heq
          exact absurd heq (hname k hk)
        · rw [List.mem_singleton.mp hk] at heq
          exact absurd heq.symm (hname k' hk')
        · rw [List.mem_singleton.mp hk, List.mem_singleton.mp hk']

theorem separated_foldl_addSpecial (ns : List String) {g : Graph} (h : Separated g.kernels) :
    Separated (ns.foldl Resolver.addSpecial g).kernels := by
  induction ns generalizing g with
  | nil => exact h
  | cons n ns ih => exact ih (separated_addSpecial h n)

/-- Signal slots change neither names, nor kinds, nor ports. -/
theorem mem_assignSlots {r : Resolver} {k : Kernel} (hk : k ∈ r.assignSignalSlots.graph.kernels) :
    ∃ k' ∈ r.graph.kernels, k.name = k'.name ∧ k.special = k'.special ∧
      k.nInPorts = k'.nInPorts ∧ k.nOutPorts = k'.nOutPorts := by
  have hmap := map_noSlot_assignSlot r.graph.kernels [] 0 0x1000
  have hmem := List.mem_map_of_mem (f := noSlot) hk
  rw [show r.assignSignalSlots.graph.kernels = (r.graph.kernels.foldl Resolver.assignSlot
    ([], 0, 0x1000)).1 from rfl, hmap] at hmem
  obtain ⟨k', hk', heq⟩ := List.mem_map.mp (by simpa using hmem)
  have hfields := fun {α : Type} (f : Kernel → α) => congrArg f heq.symm
  exact ⟨k', hk', hfields (·.name), hfields (·.special), hfields (·.nInPorts),
    hfields (·.nOutPorts)⟩

theorem hasKernel_assignSlots (r : Resolver) (n : String) :
    (r.assignSignalSlots.graph.find n).isSome = Resolver.hasKernel r.graph n := by
  have hmap := congrArg (List.map (·.name)) (map_noSlot_assignSlot r.graph.kernels [] 0 0x1000)
  have hnames : r.assignSignalSlots.graph.kernels.map (·.name) = r.graph.kernels.map (·.name) := by
    simp only [List.map_map, List.map_nil, List.nil_append] at hmap
    exact hmap
  have hany : ∀ ks : List Kernel,
      (ks.find? (·.name == n)).isSome = (ks.map (·.name)).any (· == n) := by
    intro ks
    rw [List.any_map, Bool.eq_iff_iff, List.find?_isSome, List.any_eq_true]
    rfl
  show (r.assignSignalSlots.graph.kernels.find? (·.name == n)).isSome = _
  rw [hany, hnames, List.any_map]
  rfl

theorem accepted_of_resolves {m : Module} {fuel : Nat} {diags d : DiagnosticEngine} {g : Graph}
    (h : resolveModuleToGraph fuel m diags = some (true, d, g)) : Accepted g := by
  obtain ⟨rf, hrf, hok, -, rfl⟩ := resolver_of_resolves h
  replace hok : rf.synthesizeSpecials.assignSignalSlots.diags.hasError = false := by
    simpa using hok
  obtain ⟨os, -, -, hplain⟩ := adds_module hrf
  -- no statement of a module makes a pseudo-element
  have hbase : Separated rf.graph.kernels := by
    constructor
    · intro k hk hspecial
      exact absurd (hplain k hk) hspecial
    · intro k hk k' hk' _
      rw [hplain k hk, hplain k' hk']
  have hsep : Separated rf.synthesizeSpecials.graph.kernels :=
    separated_foldl_addSpecial _ hbase
  constructor
  · intro k hk hspecial
    obtain ⟨k', hk', -, hkind, hin, hout⟩ := mem_assignSlots hk
    rw [hkind] at hspecial ⊢
    rw [hin, hout]
    exact hsep.ports k' hk' hspecial
  · intro k hk l hl hname
    obtain ⟨k', hk', hkname, hkkind, -⟩ := mem_assignSlots hk
    obtain ⟨l', hl', hlname, hlkind, -⟩ := mem_assignSlots hl
    rw [hkkind, hlkind]
    exact hsep.apart k' hk' l' hl' (hkname.symm.trans (hname.trans hlname))
  · intro e he
    -- the pseudo-elements are added before the ends are checked
    obtain ⟨hedges, -⟩ := foldl_addSpecial (Resolver.referenced rf.graph.edges) rf.graph
    have hends := (foldl_checkEnds_ok hok).2 e he
    rw [hasKernel_assignSlots, hasKernel_assignSlots]
    exact hends

/-! ## Port arity -/

/-- Both ports of an edge exist. -/
structure PortsInRange (g : Graph) (e : Edge) : Prop where
  src : 1 ≤ e.srcPort ∧ ∀ k, g.find e.srcKernel = some k → e.srcPort ≤ k.nOutPorts
  dst : 1 ≤ e.dstPort ∧ ∀ k, g.find e.dstKernel = some k → e.dstPort ≤ k.nInPorts

theorem checkSrcArity_ok {g : Graph} {e : Edge} {s : Bool × DiagnosticEngine}
    (h : (checkSrcArity g e s).1 = true) :
    s.1 = true ∧ ∀ k, g.find e.srcKernel = some k → e.srcPort ≤ k.nOutPorts := by
  unfold checkSrcArity at h
  cases hk : g.find e.srcKernel with
  -- an unknown end is not checked here
  | none =>
    rw [hk] at h
    exact ⟨h, fun k hk' => by cases hk'⟩
  | some sk =>
    simp only [hk] at h
    split at h
    · cases h
    · rename_i hle
      refine ⟨h, fun k hk' => ?_⟩
      cases hk'
      omega

theorem checkDstArity_ok {g : Graph} {e : Edge} {s : Bool × DiagnosticEngine}
    (h : (checkDstArity g e s).1 = true) :
    s.1 = true ∧ ∀ k, g.find e.dstKernel = some k → e.dstPort ≤ k.nInPorts := by
  unfold checkDstArity at h
  cases hk : g.find e.dstKernel with
  -- an unknown end is not checked here
  | none =>
    rw [hk] at h
    exact ⟨h, fun k hk' => by cases hk'⟩
  | some dk =>
    simp only [hk] at h
    split at h
    · cases h
    · rename_i hle
      refine ⟨h, fun k hk' => ?_⟩
      cases hk'
      omega

theorem checkEdge_ok {g : Graph} {e : Edge} {s : Bool × DiagnosticEngine}
    (h : (checkEdge g s e).1 = true) : s.1 = true ∧ PortsInRange g e := by
  unfold checkEdge at h
  simp only [] at h
  split at h
  · cases h
  · rename_i hdst
    split at h
    · cases h
    · rename_i hsrc
      obtain ⟨h, hdst'⟩ := checkDstArity_ok h
      obtain ⟨h, hsrc'⟩ := checkSrcArity_ok h
      exact ⟨h, ⟨by omega, hsrc'⟩, by omega, hdst'⟩

theorem portsInRange_of_arity {g : Graph} {d : DiagnosticEngine}
    (h : (analyzePortArity g d).1 = true) : ∀ e ∈ g.edges, PortsInRange g e := by
  have hfold : ∀ (es : List Edge) (s : Bool × DiagnosticEngine),
      (es.foldl (checkEdge g) s).1 = true → s.1 = true ∧ ∀ e ∈ es, PortsInRange g e := by
    intro es
    induction es with
    | nil => exact fun s hs => ⟨hs, fun e he => absurd he List.not_mem_nil⟩
    | cons e es ih =>
      intro s hs
      obtain ⟨hs', hes⟩ := ih _ hs
      obtain ⟨hs, he⟩ := checkEdge_ok hs'
      refine ⟨hs, fun e' he' => ?_⟩
      rcases List.mem_cons.mp he' with rfl | he'
      · exact he
      · exact hes e' he'
  exact (hfold g.edges _ h).2

/-! ## The plan -/

def IsOutPort (b : Build) (kernel : String) (port : Int) : Prop :=
  ∃ k ∈ b.kernels, k.name = kernel ∧ ∃ p ∈ k.outPorts, p.index = port

def IsInPort (b : Build) (kernel : String) (port : Int) : Prop :=
  ∃ k ∈ b.kernels, k.name = kernel ∧ ∃ p ∈ k.inPorts, p.index = port

/-- What a host stream says of its edge, the slot id aside. -/
def hostEnd (hc : HostConn) : String × Int × Bool := (hc.kernel, hc.port, hc.kernelToHost)

/-- `place` tells for each edge the one list it is in, in the order of the edges; an edge in none
of them starts at `Idle` or ends at `Drop`. -/
structure Places (g : Graph) (b : Build) (place : Edge → EdgeClass) : Prop where
  stream : b.streamConns = (g.edges.filter (place · == .stream)).map streamConnOf
  tor : b.torConns = (g.edges.filter (place · == .tor)).map streamConnOf
  nic : b.nicConns = (g.edges.filter (place · == .nic)).map streamConnOf
  host : b.hostStreams.map hostEnd =
    (g.edges.filter fun e => place e == .hostIn || place e == .hostOut).map fun e =>
      if place e = .hostIn then (e.dstKernel, e.dstPort, false) else (e.srcKernel, e.srcPort, true)
  dropped : ∀ e ∈ g.edges, place e = .dropped →
    specialOf (g.find e.srcKernel) = .idle ∨ specialOf (g.find e.dstKernel) = .drop

/-- Every end recorded, other than the boundary pseudo-element that selected the list, is a kernel
port of the plan. -/
structure EndsRecorded (g : Graph) (b : Build) : Prop where
  stream : ∀ sc ∈ b.streamConns, IsOutPort b sc.srcKernel sc.srcPort ∧
    IsInPort b sc.dstKernel sc.dstPort
  tor : ∀ sc ∈ b.torConns,
    if specialOf (g.find sc.srcKernel) = .torIn then IsInPort b sc.dstKernel sc.dstPort
    else IsOutPort b sc.srcKernel sc.srcPort
  nic : ∀ sc ∈ b.nicConns,
    if specialOf (g.find sc.srcKernel) = .nicIn then IsInPort b sc.dstKernel sc.dstPort
    else IsOutPort b sc.srcKernel sc.srcPort
  host : ∀ hc ∈ b.hostStreams,
    if hc.kernelToHost then IsOutPort b hc.kernel hc.port else IsInPort b hc.kernel hc.port

/-- An edge that is not dropped has at most one pseudo-element at its ends, and that is neither
`begin` nor `end`. -/
def OneBoundary (g : Graph) (e : Edge) : Prop :=
  let src := specialOf (g.find e.srcKernel)
  let dst := specialOf (g.find e.dstKernel)
  edgeClass src dst ≠ .dropped →
    (src = .none ∨ dst = .none) ∧ src ≠ .begin ∧ src ≠ .end ∧ dst ≠ .begin ∧ dst ≠ .end

instance (g : Graph) (e : Edge) : Decidable (OneBoundary g e) := by
  unfold OneBoundary
  infer_instance

/-! ## Ends in the plan -/

section
variable {g : Graph} {platform : Platform} {userClockHz : Int} {sourcePath : String}

theorem mem_portsUpTo {n i : Int} : (∃ p ∈ portsUpTo n, p.index = i) ↔ 1 ≤ i ∧ i ≤ n := by
  simp only [portsUpTo, List.mem_map, List.mem_range]
  constructor
  · rintro ⟨p, ⟨j, hj, rfl⟩, rfl⟩
    show 1 ≤ (j : Int) + 1 ∧ (j : Int) + 1 ≤ n
    omega
  · rintro ⟨hlo, hhi⟩
    refine ⟨_, ⟨(i - 1).toNat, by omega, rfl⟩, ?_⟩
    show ((i - 1).toNat : Int) + 1 = i
    omega

/-- A kernel of the graph gets into the plan when it is no pseudo-element. -/
theorem mem_kernels_plan (hg : Accepted g) {name : String} {k : Kernel}
    (hk : g.find name = some k) {P : KernelHls → Prop} :
    (∃ bk ∈ (lowerToBackend g platform userClockHz sourcePath).kernels, bk.name = name ∧ P bk) →
      k.special = .none := by
  rintro ⟨bk, hbk, hname, -⟩
  rw [(lowerToBackend_lists g platform userClockHz sourcePath).1] at hbk
  obtain ⟨k', hk', rfl⟩ := List.mem_map.mp hbk
  obtain ⟨hmem', hplain⟩ := List.mem_filter.mp hk'
  obtain ⟨hmem, hkname⟩ := Graph.find_eq_some hk
  -- kernels of one name are of one kind
  have hsame := hg.apart k hmem k' hmem' (hkname.trans hname.symm)
  rw [hsame]
  simpa using hplain

theorem lowerKernel_mem {name : String} {k : Kernel} (hk : g.find name = some k)
    (hplain : k.special = .none) :
    lowerKernel k ∈ (lowerToBackend g platform userClockHz sourcePath).kernels ∧
      (lowerKernel k).name = name := by
  obtain ⟨hmem, hname⟩ := Graph.find_eq_some hk
  rw [(lowerToBackend_lists g platform userClockHz sourcePath).1]
  exact ⟨List.mem_map_of_mem (List.mem_filter.mpr ⟨hmem, by simp [hplain]⟩), hname⟩

theorem isOutPort_iff (platform : Platform) (userClockHz : Int) (sourcePath : String)
    (hg : Accepted g) {e : Edge} (he : e ∈ g.edges) (hports : PortsInRange g e) :
    IsOutPort (lowerToBackend g platform userClockHz sourcePath) e.srcKernel e.srcPort ↔
      specialOf (g.find e.srcKernel) = .none := by
  obtain ⟨k, hk⟩ := Option.isSome_iff_exists.mp (hg.ends e he).1
  rw [hk]
  constructor
  · exact mem_kernels_plan hg hk
  · intro hplain
    obtain ⟨hmem, hname⟩ := lowerKernel_mem hk hplain
    exact ⟨_, hmem, hname, mem_portsUpTo.mpr ⟨hports.src.1, hports.src.2 k hk⟩⟩

theorem isInPort_iff (platform : Platform) (userClockHz : Int) (sourcePath : String)
    (hg : Accepted g) {e : Edge} (he : e ∈ g.edges) (hports : PortsInRange g e) :
    IsInPort (lowerToBackend g platform userClockHz sourcePath) e.dstKernel e.dstPort ↔
      specialOf (g.find e.dstKernel) = .none := by
  obtain ⟨k, hk⟩ := Option.isSome_iff_exists.mp (hg.ends e he).2
  rw [hk]
  constructor
  · exact mem_kernels_plan hg hk
  · intro hplain
    obtain ⟨hmem, hname⟩ := lowerKernel_mem hk hplain
    exact ⟨_, hmem, hname, mem_portsUpTo.mpr ⟨hports.dst.1, hports.dst.2 k hk⟩⟩

/-! ## Kinds of ends -/

/-- The ends that an edge between these kinds records are no pseudo-elements. -/
def EndsReal (src dst : SpecialKind) : Prop :=
  match edgeClass src dst with
  | .stream => src = .none ∧ dst = .none
  | .tor => if src = .torIn then dst = .none else src = .none
  | .nic => if src = .nicIn then dst = .none else src = .none
  | .hostIn => dst = .none
  | .hostOut => src = .none
  | .dropped => True

/-- An edge leaves from a kind that has an output and arrives at one that has an input. -/
def PortsFit (src dst : SpecialKind) : Prop :=
  (src = .none ∨ 1 ≤ (Resolver.specialPorts src).2) ∧
    (dst = .none ∨ 1 ≤ (Resolver.specialPorts dst).1)

theorem endsReal_iff {src dst : SpecialKind} (h : PortsFit src dst) : EndsReal src dst ↔
    (edgeClass src dst ≠ .dropped →
      (src = .none ∨ dst = .none) ∧ src ≠ .begin ∧ src ≠ .end ∧ dst ≠ .begin ∧ dst ≠ .end) := by
  unfold PortsFit at h
  cases src <;> cases dst <;> simp [EndsReal, edgeClass, Resolver.specialPorts] at h ⊢

theorem portsFit (hg : Accepted g) {e : Edge} (he : e ∈ g.edges) (hports : PortsInRange g e) :
    PortsFit (specialOf (g.find e.srcKernel)) (specialOf (g.find e.dstKernel)) := by
  obtain ⟨sk, hsk⟩ := Option.isSome_iff_exists.mp (hg.ends e he).1
  obtain ⟨dk, hdk⟩ := Option.isSome_iff_exists.mp (hg.ends e he).2
  rw [hsk, hdk]
  constructor
  · rw [or_iff_not_imp_left]
    intro hspecial
    show 1 ≤ (Resolver.specialPorts sk.special).2
    rw [← (hg.ports sk (Graph.find_eq_some hsk).1 hspecial).2]
    exact hports.src.1.trans (hports.src.2 sk hsk)
  · rw [or_iff_not_imp_left]
    intro hspecial
    show 1 ≤ (Resolver.specialPorts dk.special).1
    rw [← (hg.ports dk (Graph.find_eq_some hdk).1 hspecial).1]
    exact hports.dst.1.trans (hports.dst.2 dk hdk)

/-! ## The lists -/

theorem places_classOf (g : Graph) (platform : Platform) (userClockHz : Int) (sourcePath : String) :
    Places g (lowerToBackend g platform userClockHz sourcePath) (classOf g) := by
  obtain ⟨-, hstream, htor, hnic, hhost⟩ := lowerToBackend_lists g platform userClockHz sourcePath
  refine ⟨hstream, htor, hnic, ?_, ?_⟩
  · rw [hhost, List.map_map]
    have hend : hostEnd ∘ hostConnOf g = (fun e : Edge => if classOf g e = .hostIn then
        (e.dstKernel, e.dstPort, false) else (e.srcKernel, e.srcPort, true)) ∘ Prod.fst := by
      funext p
      simp only [Function.comp, hostConnOf]
      split <;> rfl
    rw [hend, ← List.map_map, List.zipIdx_map_fst]
    rfl
  · intro e _ hdropped
    revert hdropped
    unfold classOf
    generalize specialOf (g.find e.srcKernel) = src
    generalize specialOf (g.find e.dstKernel) = dst
    intro hdropped
    cases src <;> cases dst <;> simp [edgeClass] at hdropped ⊢

theorem forall_edgesOf {c : EdgeClass} {P : StreamConn → Prop} :
    (∀ sc ∈ edgesOf g c g.edges, P sc) ↔ ∀ e ∈ g.edges, classOf g e = c → P (streamConnOf e) := by
  constructor
  · intro h e he hc
    exact h _ (List.mem_map_of_mem (List.mem_filter.mpr ⟨he, by simp [hc]⟩))
  · intro h sc hsc
    obtain ⟨e, he, rfl⟩ := List.mem_map.mp hsc
    obtain ⟨hmem, hc⟩ := List.mem_filter.mp he
    exact h e hmem (by simpa using hc)

theorem forall_hostStreams {b : Build} (hplaces : Places g b (classOf g))
    {P : String × Int × Bool → Prop} :
    (∀ hc ∈ b.hostStreams, P (hostEnd hc)) ↔ ∀ e ∈ g.edges,
      (classOf g e = .hostIn → P (e.dstKernel, e.dstPort, false)) ∧
        (classOf g e = .hostOut → P (e.srcKernel, e.srcPort, true)) := by
  rw [← List.forall_mem_map (P := P), hplaces.host, List.forall_mem_map]
  constructor
  · intro h e he
    constructor
    · intro hc
      have := h e (List.mem_filter.mpr ⟨he, by simp [hc]⟩)
      rwa [if_pos hc] at this
    · intro hc
      have := h e (List.mem_filter.mpr ⟨he, by simp [hc]⟩)
      rwa [if_neg (by simp [hc])] at this
  · intro h e he
    obtain ⟨hmem, hclass⟩ := List.mem_filter.mp he
    split
    · rename_i hc
      exact (h e hmem).1 hc
    · rename_i hc
      exact (h e hmem).2 (by simpa [hc] using hclass)

/-- The ends recorded, edge by edge. -/
theorem endsRecorded_iff (hg : Accepted g) (hports : ∀ e ∈ g.edges, PortsInRange g e) :
    EndsRecorded g (lowerToBackend g platform userClockHz sourcePath) ↔
      ∀ e ∈ g.edges,
        EndsReal (specialOf (g.find e.srcKernel)) (specialOf (g.find e.dstKernel)) := by
  have hout := fun e he => isOutPort_iff platform userClockHz sourcePath hg he (hports e he)
  have hin := fun e he => isInPort_iff platform userClockHz sourcePath hg he (hports e he)
  have hplaces := places_classOf g platform userClockHz sourcePath
  generalize lowerToBackend g platform userClockHz sourcePath = b at hout hin hplaces ⊢
  have hstream := forall_edgesOf (g := g) (c := .stream) (P := fun sc =>
    IsOutPort b sc.srcKernel sc.srcPort ∧ IsInPort b sc.dstKernel sc.dstPort)
  have htor := forall_edgesOf (g := g) (c := .tor) (P := fun sc =>
    if specialOf (g.find sc.srcKernel) = .torIn then IsInPort b sc.dstKernel sc.dstPort
    else IsOutPort b sc.srcKernel sc.srcPort)
  have hnic := forall_edgesOf (g := g) (c := .nic) (P := fun sc =>
    if specialOf (g.find sc.srcKernel) = .nicIn then IsInPort b sc.dstKernel sc.dstPort
    else IsOutPort b sc.srcKernel sc.srcPort)
  have hhost := forall_hostStreams hplaces (P := fun t =>
    if t.2.2 then IsOutPort b t.1 t.2.1 else IsInPort b t.1 t.2.1)
  have hsplit : EndsRecorded g b ↔ ∀ e ∈ g.edges,
      (classOf g e = .stream → IsOutPort b e.srcKernel e.srcPort ∧
        IsInPort b e.dstKernel e.dstPort) ∧
      (classOf g e = .tor → if specialOf (g.find e.srcKernel) = .torIn
        then IsInPort b e.dstKernel e.dstPort else IsOutPort b e.srcKernel e.srcPort) ∧
      (classOf g e = .nic → if specialOf (g.find e.srcKernel) = .nicIn
        then IsInPort b e.dstKernel e.dstPort else IsOutPort b e.srcKernel e.srcPort) ∧
      (classOf g e = .hostIn → IsInPort b e.dstKernel e.dstPort) ∧
      (classOf g e = .hostOut → IsOutPort b e.srcKernel e.srcPort) := by
    constructor
    · intro hends e he
      have hs := hends.stream
      have ht := hends.tor
      have hn := hends.nic
      rw [hplaces.stream] at hs
      rw [hplaces.tor] at ht
      rw [hplaces.nic] at hn
      obtain ⟨hhin, hhout⟩ := hhost.mp hends.host e he
      exact ⟨hstream.mp hs e he, htor.mp ht e he, hnic.mp hn e he, hhin, hhout⟩
    · intro h
      refine ⟨?_, ?_, ?_, hhost.mpr fun e he => (h e he).2.2.2⟩
      · rw [hplaces.stream]
        exact hstream.mpr fun e he => (h e he).1
      · rw [hplaces.tor]
        exact htor.mpr fun e he => (h e he).2.1
      · rw [hplaces.nic]
        exact hnic.mpr fun e he => (h e he).2.2.1
  rw [hsplit]
  refine forall₂_congr fun e he => ?_
  rw [hout e he, hin e he]
  unfold classOf
  generalize specialOf (g.find e.srcKernel) = src
  generalize specialOf (g.find e.dstKernel) = dst
  cases src <;> cases dst <;> simp [EndsReal, edgeClass]

/-- **When the plan records kernel ports only.** For every module that resolves without error to
a graph with existing ports: each edge is in exactly one list or dropped for `Idle` or `Drop`,
and every end recorded, the boundary pseudo-element aside, is a kernel port of the plan, if and
only if no edge but a dropped one has a second pseudo-element, or `begin` or `end`, at its
ends. -/
theorem placement_iff {m : Module} {fuel : Nat} {diags d : DiagnosticEngine} {g : Graph}
    (h : resolveModuleToGraph fuel m diags = some (true, d, g))
    (harity : (analyzePortArity g d).1 = true) (platform : Platform) (userClockHz : Int)
    (sourcePath : String) :
    ((∃ place, Places g (lowerToBackend g platform userClockHz sourcePath) place) ∧
        EndsRecorded g (lowerToBackend g platform userClockHz sourcePath)) ↔
      ∀ e ∈ g.edges, OneBoundary g e := by
  have hg := accepted_of_resolves h
  have hports := portsInRange_of_arity harity
  rw [and_iff_right ⟨classOf g, places_classOf g platform userClockHz sourcePath⟩,
    endsRecorded_iff hg hports]
  exact forall₂_congr fun e he => endsReal_iff (portsFit hg he (hports e he))

end

/-! ## Two modules -/

/-- `tor_in -> p -> nic_out`. -/
def throughPass : Module where
  stmts := [
    .elementDecl passElement,
    .instanceDecl { type := "Pass", name := "p" },
    .connectionDecl (connect "tor_in" "p"),
    .connectionDecl (connect "p" "nic_out")]

/-- What `throughPass` resolves to. -/
def throughPassGraph : Graph where
  kernels := [
    { name := "p", type := "Pass", nInPorts := 1, nOutPorts := 1 },
    { name := "nic_out", type := "nic_out", special := .nicOut, nInPorts := 1, autorun := true },
    { name := "tor_in", type := "tor_in", special := .torIn, nOutPorts := 1, autorun := true }]
  edges := [
    { srcKernel := "tor_in", dstKernel := "p" }, { srcKernel := "p", dstKernel := "nic_out" }]

theorem placement_throughPass :
    EndsRecorded throughPassGraph (lowerToBackend throughPassGraph .u50Xdma 322265625 "") := by
  have hres : resolveModuleToGraph 1 throughPass {} = some (true, {}, throughPassGraph) := by decide
  exact ((placement_iff hres (by decide) .u50Xdma 322265625 "").mpr (by decide)).2

/-- `tor_in -> nic_out`. -/
def wireThrough : Module where
  stmts := [.connectionDecl (connect "tor_in" "nic_out")]

/-- What `wireThrough` resolves to. -/
def wireGraph : Graph where
  kernels := [
    { name := "nic_out", type := "nic_out", special := .nicOut, nInPorts := 1, autorun := true },
    { name := "tor_in", type := "tor_in", special := .torIn, nOutPorts := 1, autorun := true }]
  edges := [{ srcKernel := "tor_in", dstKernel := "nic_out" }]

/-- The graph is accepted, and its one connection is recorded with an end `nic_out` that is no
kernel of the plan. -/
theorem wireThrough_records_nic_out :
    resolveModuleToGraph 1 wireThrough {} = some (true, {}, wireGraph) ∧
      analyzePortArity wireGraph {} = (true, {}) ∧
      (lowerToBackend wireGraph .u50Xdma 322265625 "").torConns
        = [{ srcKernel := "tor_in", dstKernel := "nic_out" }] ∧
      (lowerToBackend wireGraph .u50Xdma 322265625 "").kernels = [] ∧
      ¬ EndsRecorded wireGraph (lowerToBackend wireGraph .u50Xdma 322265625 "") := by
  have hconns : (lowerToBackend wireGraph .u50Xdma 322265625 "").torConns
      = [{ srcKernel := "tor_in", dstKernel := "nic_out" }] := by decide
  have hkernels : (lowerToBackend wireGraph .u50Xdma 322265625 "").kernels = [] := by decide
  refine ⟨by decide, by decide, hconns, hkernels, fun h => ?_⟩
  have hend := h.tor { srcKernel := "tor_in", dstKernel := "nic_out" } (by rw [hconns]; simp)
  rw [if_pos (by decide)] at hend
  obtain ⟨k, hk, -⟩ := hend
  rw [hkernels] at hk
  cases hk

end OpenClickNP
