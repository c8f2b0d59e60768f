import OpenClickNP.Backend.DataFlow
import OpenClickNP.Backend.NullStream
import OpenClickNP.Compiler.Placement

/-!
# What an emulated element graph computes

An element graph, with a function for each of its elements, is a data-flow network whose channels
are the edges (`Means`). The compiler lowers the graph to a plan, and the emulator runs the kernels
of the plan on streams that it finds through `port2stream`.

Where the graph is `WiredOnce`, the stream declared for an edge is the one passed to the two ports
of the edge and to no others (`streamFor_eq_iff`). Hence, for all bodies that compute the functions,
in every interleaving in which the writes find room:

* no edge carries more than the meaning of the graph allows (`emulated_within`);
* once nothing is under way, the edges carry just that (`emulated_means`);
* what two runs carry on an edge can be compared (`emulated_agree`).
-/

namespace OpenClickNP

open Ast Eg Be Run Histories OverwriteMap

/-! ## The meaning of a graph -/

/-- Whether an edge has an element, not a pseudo-element, as its source. -/
def fromElement (g : Graph) (e : Edge) : Bool := specialOf (g.find e.srcKernel) == .none

/-- Whether it has one as its destination. -/
def toElement (g : Graph) (e : Edge) : Bool := specialOf (g.find e.dstKernel) == .none

/-- What an element can read on an input port: all that the edge carries that ends there. -/
def inputHistory (g : Graph) (h : Edge → List Flit) (name : String) (p : Nat) : List Flit :=
  (g.edges.find? fun e => e.dstKernel == name && e.dstPort == (p : Int)).elim [] h

/-- **The meaning of an element graph**: every edge from an element, other than to `Drop`, carries
what the function of the element makes of what its input edges carry. -/
def Means (g : Graph) (F : String → StreamFn Flit) (h : Edge → List Flit) : Prop :=
  ∀ e ∈ g.edges, fromElement g e = true → classOf g e ≠ .dropped →
    h e = (F e.srcKernel).apply (inputHistory g h e.srcKernel) e.srcPort.toNat

/-- Elements have names of their own, none of them reserved; an output port has one edge at most,
an input port has just one, and that does not come from `Idle`. -/
structure WiredOnce (g : Graph) : Prop where
  names : (g.kernels.map (·.name)).Nodup
  unreserved : ∀ k ∈ g.kernels, k.special = .none → specialFromName k.name = .none
  edges : g.edges.Nodup
  outs : ((g.edges.filter (fromElement g)).map fun e => (e.srcKernel, e.srcPort)).Nodup
  ins : ((g.edges.filter (toElement g)).map fun e => (e.dstKernel, e.dstPort)).Nodup
  fed : ∀ k ∈ g.kernels, k.special = .none → ∀ p ∈ portsUpTo k.nInPorts,
    ∃ e ∈ g.edges, e.dstKernel = k.name ∧ e.dstPort = p.index ∧
      specialOf (g.find e.srcKernel) ≠ .idle

instance (g : Graph) : Decidable (WiredOnce g) :=
  decidable_of_iff (_ ∧ _ ∧ _ ∧ _ ∧ _ ∧ _)
    ⟨fun ⟨h1, h2, h3, h4, h5, h6⟩ => ⟨h1, h2, h3, h4, h5, h6⟩,
      fun ⟨h1, h2, h3, h4, h5, h6⟩ => ⟨h1, h2, h3, h4, h5, h6⟩⟩

/-! ## The stream of an edge -/

/-- The variable of the stream declared for an edge: its number in the list of the plan that the
edge is put in. -/
def edgeStream (g : Graph) (e : Edge) : Option StreamVar :=
  match classOf g e with
  | .stream => some (.stream ((g.edges.filter (classOf g · == .stream)).idxOf e))
  | .tor => some (.torStream ((g.edges.filter (classOf g · == .tor)).idxOf e))
  | .nic => some (.nicStream ((g.edges.filter (classOf g · == .nic)).idxOf e))
  | .hostIn | .hostOut => some (.hostStream ((g.edges.filter (isHostEdge g)).idxOf e))
  | .dropped => none

/-- The ends of an edge at elements. -/
def edgeEnds (g : Graph) (e : Edge) : List PortKey :=
  (if fromElement g e then [(e.srcKernel, .output, e.srcPort)] else []) ++
    if toElement g e then [(e.dstKernel, .input, e.dstPort)] else []

/-- The histories of the edges, by those of the streams declared for them. -/
def alongEdges (g : Graph) (h : Option StreamVar → List Flit) (e : Edge) : List Flit :=
  if e ∈ g.edges then (edgeStream g e).elim [] fun v => h (some v) else []

/-- What has been written to the stream of each edge. -/
def carried {ι γ : Type} {σ : ι → Type} (g : Graph)
    (s : NetState ι (Option StreamVar) γ σ Flit) : Edge → List Flit :=
  alongEdges g s.written

theorem mem_edgeEnds_output {g : Graph} {e : Edge} {name : String} {p : Int} :
    (name, Dir.output, p) ∈ edgeEnds g e ↔
      fromElement g e = true ∧ e.srcKernel = name ∧ e.srcPort = p := by
  unfold edgeEnds
  cases fromElement g e <;> cases toElement g e <;> simp [eq_comm]

theorem mem_edgeEnds_input {g : Graph} {e : Edge} {name : String} {p : Int} :
    (name, Dir.input, p) ∈ edgeEnds g e ↔
      toElement g e = true ∧ e.dstKernel = name ∧ e.dstPort = p := by
  unfold edgeEnds
  cases fromElement g e <;> cases toElement g e <;> simp [eq_comm]

theorem classOf_of_edgeStream {g : Graph} {e : Edge} {v : StreamVar}
    (h : edgeStream g e = some v) : classOf g e ≠ .dropped := by
  intro hc
  unfold edgeStream at h
  rw [hc] at h
  cases h

theorem edgeStream_isSome {g : Graph} {e : Edge} (h : classOf g e ≠ .dropped) :
    ∃ v, edgeStream g e = some v := by
  unfold edgeStream
  cases hc : classOf g e with
  | dropped => exact absurd hc h
  | _ => exact ⟨_, rfl⟩

/-- Two edges have streams of their own. -/
theorem edgeStream_inj {g : Graph} {e e' : Edge} {v : StreamVar} (he : e ∈ g.edges)
    (h : edgeStream g e = some v) (h' : edgeStream g e' = some v) : e = e' := by
  have hidx : ∀ P : Edge → Bool, P e = true →
      (g.edges.filter P).idxOf e = (g.edges.filter P).idxOf e' → e = e' := fun P hP heq =>
    (List.idxOf_inj (List.mem_filter.mpr ⟨he, hP⟩)).mp heq
  unfold edgeStream at h h'
  cases hc : classOf g e <;> cases hc' : classOf g e' <;>
    simp only [hc, hc', Option.some.injEq, reduceCtorEq] at h h' <;>
    rw [← h'] at h <;> simp only [StreamVar.stream.injEq, StreamVar.torStream.injEq,
      StreamVar.nicStream.injEq, StreamVar.hostStream.injEq, reduceCtorEq] at h
  all_goals exact hidx _ (by simp [hc, isHostEdge]) h

/-! ## The assignments of `emitMain`, edge by edge -/

/-- The loop over the connections made of a list of different edges: each edge has the variable of
its number in the list. -/
theorem mem_loop {β : Type} {l : List Edge} (hl : l.Nodup) (conn : Edge × Nat → β)
    (ends : β → List PortKey) (var : Nat → StreamVar) {key : PortKey} {v : StreamVar} :
    (key, v) ∈ (l.zipIdx.map conn).zipIdx.flatMap (fun p => (ends p.1).map (·, var p.2)) ↔
      ∃ e ∈ l, var (l.idxOf e) = v ∧ key ∈ ends (conn (e, l.idxOf e)) := by
  simp only [List.mem_flatMap, List.mem_map, Prod.mk.injEq]
  constructor
  · rintro ⟨⟨c, i⟩, hmem, key', hkey, rfl, rfl⟩
    have hget := List.mk_mem_zipIdx_iff_getElem?.mp hmem
    rw [List.getElem?_map, List.getElem?_zipIdx, Option.map_map] at hget
    obtain ⟨e, he, rfl⟩ := Option.map_eq_some_iff.mp hget
    obtain ⟨hi, heq⟩ := List.getElem?_eq_some_iff.mp he
    have hidx : l.idxOf e = i := heq ▸ hl.idxOf_getElem i hi
    refine ⟨e, heq ▸ List.getElem_mem hi, by rw [hidx], ?_⟩
    rw [hidx]
    simpa using hkey
  · rintro ⟨e, he, rfl, hkey⟩
    refine ⟨(conn (e, l.idxOf e), l.idxOf e), ?_, key, hkey, rfl, rfl⟩
    rw [List.mk_mem_zipIdx_iff_getElem?, List.getElem?_map, List.getElem?_zipIdx,
      List.getElem?_idxOf he]
    simp

/-- The assignments for an edge, whichever loop makes them. -/
theorem boundaryAssigns_eq (inName outName : String) (var : Nat → StreamVar)
    (p : StreamConn × Nat) :
    boundaryAssigns inName outName var p
      = (boundaryEnds inName outName p.1).map (·, var p.2) := by
  unfold boundaryAssigns boundaryEnds
  split <;> split <;> rfl

/-- The boundary names are those of their kinds. -/
theorem specialFromName_boundary (n : String) :
    (n = "tor_in" ↔ specialFromName n = .torIn) ∧
      (n = "tor_out" ↔ specialFromName n = .torOut) ∧
      (n = "nic_in" ↔ specialFromName n = .nicIn) ∧
      (n = "nic_out" ↔ specialFromName n = .nicOut) := by
  unfold specialFromName
  split_ifs <;> simp_all

section
variable {g : Graph}

/-- A pseudo-element has the name of its kind. -/
def KindsNamed (g : Graph) : Prop :=
  ∀ k ∈ g.kernels, k.special ≠ .none → k.special = specialFromName k.name

/-- What is used of an accepted graph that is wired once, with one pseudo-element at most at the
ends of an edge. -/
structure Emulable (g : Graph) : Prop extends WiredOnce g where
  accepted : Accepted g
  named : KindsNamed g
  ports : ∀ e ∈ g.edges, PortsInRange g e
  boundary : ∀ e ∈ g.edges,
    EndsReal (specialOf (g.find e.srcKernel)) (specialOf (g.find e.dstKernel))

/-- The name of an end tells its kind. -/
theorem Emulable.kind_of_name (hg : Emulable g) {name : String}
    (hfound : (g.find name).isSome = true) : specialOf (g.find name) = specialFromName name := by
  obtain ⟨k, hk⟩ := Option.isSome_iff_exists.mp hfound
  obtain ⟨hmem, rfl⟩ := Graph.find_eq_some hk
  rw [hk]
  by_cases hspecial : k.special = .none
  · exact hspecial.trans (hg.unreserved k hmem hspecial).symm
  · exact hg.named k hmem hspecial

/-- The loops assign the ends of an edge that are elements. -/
theorem ends_of_class (hg : Emulable g) {e : Edge} (he : e ∈ g.edges) :
    (classOf g e = .stream → streamEnds (streamConnOf e) = edgeEnds g e) ∧
      (classOf g e = .tor → boundaryEnds "tor_in" "tor_out" (streamConnOf e) = edgeEnds g e) ∧
      (classOf g e = .nic → boundaryEnds "nic_in" "nic_out" (streamConnOf e) = edgeEnds g e) ∧
      ∀ n, isHostEdge g e = true → hostEnds (hostConnOf g (e, n)) = edgeEnds g e := by
  have hsrc := hg.kind_of_name (hg.accepted.ends e he).1
  have hdst := hg.kind_of_name (hg.accepted.ends e he).2
  have hreal := hg.boundary e he
  have hname := specialFromName_boundary
  unfold isHostEdge hostConnOf
  unfold boundaryEnds streamConnOf
  simp only [ne_eq, (hname _).1, (hname _).2.1, (hname _).2.2.1, (hname _).2.2.2, ← hsrc, ← hdst]
  unfold edgeEnds fromElement toElement classOf
  revert hreal
  generalize specialOf (g.find e.srcKernel) = src
  generalize specialOf (g.find e.dstKernel) = dst
  intro hreal
  cases src <;> cases dst <;>
    simp [EndsReal, edgeClass, streamEnds, hostEnds, hostInConn, hostOutConn] at hreal ⊢

/-- A loop of assignments goes over the edges of a class. -/
theorem mem_classLoop (hg : Emulable g) (c : EdgeClass) (ends : StreamConn → List PortKey)
    (var : Nat → StreamVar) {key : PortKey} {v : StreamVar} :
    (key, v) ∈ (edgesOf g c g.edges).zipIdx.flatMap (fun p => (ends p.1).map (·, var p.2)) ↔
      ∃ e ∈ g.edges, classOf g e = c ∧ var ((g.edges.filter (classOf g · == c)).idxOf e) = v ∧
        key ∈ ends (streamConnOf e) := by
  have hindexed : ∀ l : List Edge, l.map streamConnOf
      = l.zipIdx.map fun p => streamConnOf p.1 := by
    intro l
    conv_lhs => rw [← List.zipIdx_map_fst 0 l, List.map_map]
    rfl
  unfold edgesOf
  rw [hindexed, mem_loop (hg.edges.filter _)]
  simp only [List.mem_filter, beq_iff_eq, and_assoc]

/-- The loop of the host streams goes over the edges of the host. -/
theorem mem_hostLoop (hg : Emulable g) {key : PortKey} {v : StreamVar} :
    (key, v) ∈ (((g.edges.filter (isHostEdge g)).zipIdx).map
        (hostConnOf g)).zipIdx.flatMap (fun p => (hostEnds p.1).map (·, .hostStream p.2)) ↔
      ∃ e ∈ g.edges, isHostEdge g e = true ∧
        .hostStream ((g.edges.filter (isHostEdge g)).idxOf e) = v ∧ key ∈ edgeEnds g e := by
  rw [mem_loop (hg.edges.filter _)]
  simp only [List.mem_filter, and_assoc]
  exact exists_congr fun e => and_congr_right fun he => and_congr_right fun hhost => by
    rw [(ends_of_class hg he).2.2.2 _ hhost]

/-- What is assigned to the ends of the edges is their streams. -/
theorem mem_assigns (hg : Emulable g) (platform : Platform) (userClockHz : Int)
    (sourcePath : String) {key : PortKey} {v : StreamVar} :
    (key, v) ∈ assigns (lowerToBackend g platform userClockHz sourcePath) ↔
      ∃ e ∈ g.edges, edgeStream g e = some v ∧ key ∈ edgeEnds g e := by
  obtain ⟨-, hstream, htor, hnic, hhost⟩ := lowerToBackend_lists g platform userClockHz sourcePath
  have htorLoop : torAssigns = fun p : StreamConn × Nat =>
      (boundaryEnds "tor_in" "tor_out" p.1).map (·, .torStream p.2) :=
    funext fun p => boundaryAssigns_eq _ _ _ p
  have hnicLoop : nicAssigns = fun p : StreamConn × Nat =>
      (boundaryEnds "nic_in" "nic_out" p.1).map (·, .nicStream p.2) :=
    funext fun p => boundaryAssigns_eq _ _ _ p
  unfold assigns laterAssigns
  rw [hstream, htor, hnic, hhost, htorLoop, hnicLoop]
  simp only [List.mem_append]
  rw [show streamAssigns = fun p : StreamConn × Nat =>
    (streamEnds p.1).map (·, StreamVar.stream p.2) from rfl]
  rw [show hostAssigns = fun p : HostConn × Nat =>
    (hostEnds p.1).map (·, StreamVar.hostStream p.2) from rfl]
  rw [mem_classLoop hg, mem_classLoop hg, mem_classLoop hg, mem_hostLoop hg]
  -- an edge is in the loop of its class, and in no other
  constructor
  · rintro (⟨e, he, hc, rfl, hkey⟩ | (⟨e, he, hc, rfl, hkey⟩ | ⟨e, he, hc, rfl, hkey⟩) |
      ⟨e, he, hc, rfl, hkey⟩)
    · rw [(ends_of_class hg he).1 hc] at hkey
      exact ⟨e, he, by simp [edgeStream, hc], hkey⟩
    · rw [(ends_of_class hg he).2.1 hc] at hkey
      exact ⟨e, he, by simp [edgeStream, hc], hkey⟩
    · rw [(ends_of_class hg he).2.2.1 hc] at hkey
      exact ⟨e, he, by simp [edgeStream, hc], hkey⟩
    · refine ⟨e, he, ?_, hkey⟩
      unfold isHostEdge at hc
      unfold edgeStream
      cases hcl : classOf g e <;> simp [hcl] at hc ⊢
  · rintro ⟨e, he, hv, hkey⟩
    unfold edgeStream at hv
    cases hc : classOf g e with
    | stream =>
      rw [hc] at hv
      exact Or.inl ⟨e, he, hc, Option.some.inj hv, (ends_of_class hg he).1 hc ▸ hkey⟩
    | tor =>
      rw [hc] at hv
      exact Or.inr (Or.inl (Or.inl
        ⟨e, he, hc, Option.some.inj hv, (ends_of_class hg he).2.1 hc ▸ hkey⟩))
    | nic =>
      rw [hc] at hv
      exact Or.inr (Or.inl (Or.inr
        ⟨e, he, hc, Option.some.inj hv, (ends_of_class hg he).2.2.1 hc ▸ hkey⟩))
    | hostIn | hostOut =>
      rw [hc] at hv
      exact Or.inr (Or.inr ⟨e, he, by simp [isHostEdge, hc], Option.some.inj hv, hkey⟩)
    | dropped =>
      rw [hc] at hv
      cases hv

/-- An output port is an end of one edge at most, and so is an input port. -/
theorem edge_of_end (hg : Emulable g) {e e' : Edge} (he : e ∈ g.edges) (he' : e' ∈ g.edges)
    {key : PortKey} (hkey : key ∈ edgeEnds g e) (hkey' : key ∈ edgeEnds g e') : e = e' := by
  obtain ⟨name, dir, p⟩ := key
  cases dir with
  | output =>
    obtain ⟨hfrom, hname, hp⟩ := mem_edgeEnds_output.mp hkey
    obtain ⟨hfrom', hname', hp'⟩ := mem_edgeEnds_output.mp hkey'
    exact List.inj_on_of_nodup_map hg.outs (List.mem_filter.mpr ⟨he, hfrom⟩)
      (List.mem_filter.mpr ⟨he', hfrom'⟩)
      (Prod.ext (hname.trans hname'.symm) (hp.trans hp'.symm))
  | input =>
    obtain ⟨hto, hname, hp⟩ := mem_edgeEnds_input.mp hkey
    obtain ⟨hto', hname', hp'⟩ := mem_edgeEnds_input.mp hkey'
    exact List.inj_on_of_nodup_map hg.ins (List.mem_filter.mpr ⟨he, hto⟩)
      (List.mem_filter.mpr ⟨he', hto'⟩)
      (Prod.ext (hname.trans hname'.symm) (hp.trans hp'.symm))

/-- **A port is passed the stream declared for its edge.** -/
theorem streamFor_eq_iff (hg : Emulable g) (platform : Platform) (userClockHz : Int)
    (sourcePath : String) {name : String} {dir : Dir} {p : Int} {v : StreamVar} :
    streamFor (lowerToBackend g platform userClockHz sourcePath) name dir p = some v ↔
      ∃ e ∈ g.edges, edgeStream g e = some v ∧ (name, dir, p) ∈ edgeEnds g e := by
  rw [← mem_assigns hg platform userClockHz sourcePath]
  constructor
  · exact mem_of_lookup_fill
  · intro hmem
    obtain ⟨⟨key', v'⟩, hmem', rfl, hlookup⟩ := lookup_fill_of_mem hmem
    -- the other assignments of the port assign the same stream
    obtain ⟨e, he, hv, hkey⟩ := (mem_assigns hg platform userClockHz sourcePath).mp hmem
    obtain ⟨e', he', hv', hkey'⟩ := (mem_assigns hg platform userClockHz sourcePath).mp hmem'
    obtain rfl := edge_of_end hg he he' hkey hkey'
    exact hlookup.trans (hv'.symm.trans hv)

/-! ## The kernels of the plan -/

/-- A kernel of the plan comes from an element of the graph. -/
theorem kernel_of_plan (hg : Emulable g) {platform : Platform} {userClockHz : Int}
    {sourcePath : String} {bk : KernelHls}
    (hbk : bk ∈ (lowerToBackend g platform userClockHz sourcePath).kernels) :
    ∃ k ∈ g.kernels, k.special = .none ∧ bk = lowerKernel k ∧ g.find bk.name = some k := by
  rw [(lowerToBackend_lists g platform userClockHz sourcePath).1] at hbk
  obtain ⟨k, hk, rfl⟩ := List.mem_map.mp hbk
  obtain ⟨hmem, hplain⟩ := List.mem_filter.mp hk
  refine ⟨k, hmem, by simpa using hplain, rfl, ?_⟩
  show g.find k.name = some k
  unfold Graph.find
  obtain ⟨k', hk'⟩ : ∃ k', g.kernels.find? (·.name == k.name) = some k' :=
    Option.isSome_iff_exists.mp (List.find?_isSome.mpr ⟨k, hmem, by simp⟩)
  have hname : k'.name = k.name := by simpa using List.find?_some hk'
  rw [hk', List.inj_on_of_nodup_map hg.names (List.mem_of_find?_eq_some hk') hmem hname]

/-- An element of the graph is a kernel of the plan. -/
theorem plan_of_kernel {platform : Platform} {userClockHz : Int} {sourcePath name : String}
    {k : Kernel} (hk : g.find name = some k) (hplain : k.special = .none) :
    ∃ i : Fin (lowerToBackend g platform userClockHz sourcePath).kernels.length,
      (lowerToBackend g platform userClockHz sourcePath).kernels.get i = lowerKernel k := by
  have hmem : lowerKernel k ∈ (lowerToBackend g platform userClockHz sourcePath).kernels :=
    (lowerKernel_mem hk hplain).1
  obtain ⟨i, hi, heq⟩ := List.getElem_of_mem hmem
  exact ⟨⟨i, hi⟩, heq⟩

/-- The kernels of the plan have names of their own. -/
theorem index_of_name (hg : Emulable g) {platform : Platform} {userClockHz : Int}
    {sourcePath : String} {b : Build} (hb : b = lowerToBackend g platform userClockHz sourcePath)
    {i j : Fin b.kernels.length} (h : (b.kernels.get i).name = (b.kernels.get j).name) : i = j := by
  have hnames : (b.kernels.map (·.name)).Nodup := by
    rw [hb, (lowerToBackend_lists g platform userClockHz sourcePath).1, List.map_map]
    exact hg.names.sublist (List.filter_sublist.map fun k : Kernel => k.name)
  have hsame : b.kernels.get i = b.kernels.get j :=
    List.inj_on_of_nodup_map hnames (List.getElem_mem _) (List.getElem_mem _) h
  exact Fin.ext ((List.Nodup.of_map _ hnames).getElem_inj_iff.mp hsame)

section
variable {platform : Platform} {userClockHz : Int} {sourcePath : String} {b : Build}

/-- An input port of a kernel is passed the stream of an edge. -/
theorem input_edge (hg : Emulable g)
    (hb : b = lowerToBackend g platform userClockHz sourcePath) (B : Bodies b)
    {i : Fin b.kernels.length} {p : Nat} (hp : p ∈ (B.fn i).inPorts) :
    ∃ e ∈ g.edges, ∃ v, edgeStream g e = some v ∧
      ((b.kernels.get i).name, Dir.input, (p : Int)) ∈ edgeEnds g e ∧
      (emuWiring b).inOf i p = some v := by
  have hport : (Int.ofNat p) ∈ (b.kernels.get i).inPorts.map (·.index) :=
    B.inPorts_eq i ▸ List.mem_map_of_mem hp
  have hmem : b.kernels.get i ∈ (lowerToBackend g platform userClockHz sourcePath).kernels :=
    hb ▸ List.getElem_mem _
  obtain ⟨k, hk, hplain, hlower, hfind⟩ := kernel_of_plan hg hmem
  obtain ⟨port, hport, hindex⟩ := List.mem_map.mp hport
  rw [hlower] at hport
  obtain ⟨e, he, hname, hdst, hidle⟩ := hg.fed k hk hplain port hport
  have hkname : (b.kernels.get i).name = k.name := congrArg KernelHls.name hlower
  have hto : specialOf (g.find e.dstKernel) = .none := by
    rw [hname, ← hkname, hfind]
    exact hplain
  have hclass : classOf g e ≠ .dropped := by
    unfold classOf
    rw [hto]
    revert hidle
    generalize specialOf (g.find e.srcKernel) = src
    cases src <;> simp [edgeClass]
  obtain ⟨v, hv⟩ := edgeStream_isSome hclass
  have hkey : ((b.kernels.get i).name, Dir.input, (p : Int)) ∈ edgeEnds g e :=
    mem_edgeEnds_input.mpr ⟨by simp [toElement, hto], hname.trans hkname.symm, hdst.trans hindex⟩
  refine ⟨e, he, v, hv, hkey, ?_⟩
  show streamFor b (b.kernels.get i).name .input p = some v
  subst hb
  exact (streamFor_eq_iff hg platform userClockHz sourcePath).mpr ⟨e, he, hv, hkey⟩

/-- The stream of an edge from an element is passed to an output port of a kernel. -/
theorem output_port (hg : Emulable g)
    (hb : b = lowerToBackend g platform userClockHz sourcePath) (B : Bodies b) {e : Edge}
    {v : StreamVar} (he : e ∈ g.edges) (hv : edgeStream g e = some v)
    (hfrom : fromElement g e = true) :
    ∃ i : Fin b.kernels.length, ∃ q ∈ (B.fn i).outPorts, (b.kernels.get i).name = e.srcKernel ∧
      e.srcPort = (q : Int) ∧ (emuWiring b).outOf i q = some v := by
  obtain ⟨k, hk⟩ := Option.isSome_iff_exists.mp (hg.accepted.ends e he).1
  have hplain : k.special = .none := by
    unfold fromElement at hfrom
    rw [hk] at hfrom
    simpa [specialOf] using hfrom
  have hindex : ∃ i : Fin b.kernels.length, b.kernels.get i = lowerKernel k := by
    rw [hb]
    exact plan_of_kernel hk hplain
  obtain ⟨i, hi⟩ := hindex
  obtain ⟨hlo, hhi⟩ := (hg.ports e he).src
  -- the port is one of the element's
  have houts : (B.fn i).outPorts.map Int.ofNat = (b.kernels.get i).outPorts.map (·.index) :=
    B.outPorts_eq i
  have hport : e.srcPort ∈ (B.fn i).outPorts.map Int.ofNat := by
    rw [houts, hi]
    obtain ⟨port, hport, hindex⟩ := mem_portsUpTo.mpr ⟨hlo, hhi k hk⟩
    exact hindex ▸ List.mem_map_of_mem hport
  obtain ⟨q, hq, hqe⟩ := List.mem_map.mp hport
  have hname : (b.kernels.get i).name = e.srcKernel := by
    rw [hi]
    exact (Graph.find_eq_some hk).2
  refine ⟨i, q, hq, hname, hqe.symm, ?_⟩
  show streamFor b (b.kernels.get i).name .output q = some v
  rw [hname]
  subst hb
  exact (streamFor_eq_iff hg platform userClockHz sourcePath).mpr
    ⟨e, he, hv, mem_edgeEnds_output.mpr ⟨hfrom, rfl, hqe.symm⟩⟩

/-- The edge of a connected output port. -/
theorem output_edge (hg : Emulable g)
    (hb : b = lowerToBackend g platform userClockHz sourcePath) {i : Fin b.kernels.length}
    {q : Nat} {v : StreamVar} (hv : (emuWiring b).outOf i q = some v) :
    ∃ e ∈ g.edges, edgeStream g e = some v ∧
      ((b.kernels.get i).name, Dir.output, (q : Int)) ∈ edgeEnds g e := by
  replace hv : streamFor b (b.kernels.get i).name .output q = some v := hv
  subst hb
  exact (streamFor_eq_iff hg platform userClockHz sourcePath).mp hv

/-- **The wiring of the emulator joins the kernels as the edges do.** -/
theorem joins_emuWiring (hg : Emulable g)
    (hb : b = lowerToBackend g platform userClockHz sourcePath) (B : Bodies b) :
    Joins (emuWiring b) B.fn Option.isSome where
  inputs {i p} hp := by
    obtain ⟨-, -, v, -, -, hv⟩ := input_edge hg hb B hp
    exact Option.isSome_iff_exists.mpr ⟨v, hv⟩
  reader {i j p q} hp hq heq := by
    obtain ⟨e, he, v, hev, hkey, hv⟩ := input_edge hg hb B hp
    obtain ⟨e', he', v', hev', hkey', hv'⟩ := input_edge hg hb B hq
    obtain rfl := Option.some.inj (hv.symm.trans (heq.trans hv'))
    obtain rfl := edgeStream_inj he hev hev'
    obtain ⟨-, hname, hport⟩ := mem_edgeEnds_input.mp hkey
    obtain ⟨-, hname', hport'⟩ := mem_edgeEnds_input.mp hkey'
    exact ⟨index_of_name hg hb (hname.symm.trans hname'),
      Int.ofNat_inj.mp (hport.symm.trans hport')⟩
  writer {i j p q} hp hq hlive heq := by
    obtain ⟨v, hv⟩ := Option.isSome_iff_exists.mp hlive
    obtain ⟨e, he, hev, hkey⟩ := output_edge hg hb hv
    obtain ⟨e', he', hev', hkey'⟩ := output_edge hg hb (heq.symm.trans hv)
    obtain rfl := edgeStream_inj he hev hev'
    obtain ⟨-, hname, hport⟩ := mem_edgeEnds_output.mp hkey
    obtain ⟨-, hname', hport'⟩ := mem_edgeEnds_output.mp hkey'
    exact ⟨index_of_name hg hb (hname.symm.trans hname'),
      Int.ofNat_inj.mp (hport.symm.trans hport')⟩

end

/-! ## The graph as a network -/

/-- The element graph as a data-flow network: its nodes are the elements by their names, its
channels the edges. -/
def graphNet (g : Graph) (F : String → StreamFn Flit) : Net String Edge Flit where
  inOf name p := g.edges.find? fun e => e.dstKernel == name && e.dstPort == (p : Int)
  outOf name q := g.edges.find? fun e =>
    (fromElement g e && classOf g e != .dropped) && (e.srcKernel == name && e.srcPort == (q : Int))
  fn := F
  writer {i j q r k} hi hj := by
    have hi := List.find?_some hi
    have hj := List.find?_some hj
    simp only [Bool.and_eq_true, beq_iff_eq] at hi hj
    exact ⟨hi.2.1.symm.trans hj.2.1, Int.ofNat_inj.mp (hi.2.2.symm.trans hj.2.2)⟩

/-- The edge of an output port of an element. -/
theorem outOf_eq_iff (hg : Emulable g) {F : String → StreamFn Flit} {name : String} {q : Nat}
    {e : Edge} : (graphNet g F).outOf name q = some e ↔
      e ∈ g.edges ∧ classOf g e ≠ .dropped ∧ (name, Dir.output, (q : Int)) ∈ edgeEnds g e := by
  constructor
  · intro hfind
    have hall := List.find?_some hfind
    simp only [Bool.and_eq_true, beq_iff_eq, bne_iff_ne] at hall
    exact ⟨List.mem_of_find?_eq_some hfind, hall.1.2,
      mem_edgeEnds_output.mpr ⟨hall.1.1, hall.2.1, hall.2.2⟩⟩
  · rintro ⟨he, hclass, hkey⟩
    obtain ⟨hfrom, hname, hq⟩ := mem_edgeEnds_output.mp hkey
    have hsome : ((graphNet g F).outOf name q).isSome = true :=
      List.find?_isSome.mpr ⟨e, he, by simp [hfrom, hclass, hname, hq]⟩
    obtain ⟨e', he'⟩ := Option.isSome_iff_exists.mp hsome
    have hall := List.find?_some he'
    simp only [Bool.and_eq_true, beq_iff_eq, bne_iff_ne] at hall
    rw [he', edge_of_end hg (List.mem_of_find?_eq_some he') he
      (mem_edgeEnds_output.mpr ⟨hall.1.1, hall.2.1, hall.2.2⟩) hkey]

/-- The edge of an input port of an element. -/
theorem inOf_of_end (hg : Emulable g) {F : String → StreamFn Flit} {name : String} {p : Nat}
    {e : Edge} (he : e ∈ g.edges) (hkey : (name, Dir.input, (p : Int)) ∈ edgeEnds g e) :
    (graphNet g F).inOf name p = some e := by
  obtain ⟨hto, hname, hp⟩ := mem_edgeEnds_input.mp hkey
  have hsome : ((graphNet g F).inOf name p).isSome = true :=
    List.find?_isSome.mpr ⟨e, he, by simp [hname, hp]⟩
  obtain ⟨e', he'⟩ := Option.isSome_iff_exists.mp hsome
  have hall := List.find?_some he'
  simp only [Bool.and_eq_true, beq_iff_eq] at hall
  have hto' : toElement g e' = true := by
    unfold toElement at hto ⊢
    rw [hall.1, ← hname]
    exact hto
  rw [he', edge_of_end hg (List.mem_of_find?_eq_some he') he
    (mem_edgeEnds_input.mpr ⟨hto', hall.1, hall.2⟩) hkey]

/-- The meaning of the graph is the equations of the network. -/
theorem means_iff (hg : Emulable g) {F : String → StreamFn Flit} {h : Edge → List Flit} :
    Means g F h ↔ (graphNet g F).Solves h := by
  constructor
  · intro hm name q e hout
    obtain ⟨he, hclass, hkey⟩ := (outOf_eq_iff hg).mp hout
    obtain ⟨hfrom, rfl, hq⟩ := mem_edgeEnds_output.mp hkey
    have heq := hm e he hfrom hclass
    rw [hq] at heq
    exact heq
  · intro hs e he hfrom hclass
    obtain ⟨hlo, -⟩ := (hg.ports e he).src
    have hq : e.srcPort = ((e.srcPort.toNat : Nat) : Int) := (Int.toNat_of_nonneg (by omega)).symm
    exact hs e.srcKernel e.srcPort.toNat e ((outOf_eq_iff hg).mpr
      ⟨he, hclass, mem_edgeEnds_output.mpr ⟨hfrom, rfl, hq⟩⟩)

/-- The edges that no element writes. -/
theorem source_iff (hg : Emulable g) {F : String → StreamFn Flit} {e : Edge} (he : e ∈ g.edges) :
    (graphNet g F).Source e ↔ fromElement g e = false ∨ classOf g e = .dropped := by
  constructor
  · intro hs
    by_contra hnot
    obtain ⟨hfrom, hclass⟩ := not_or.mp hnot
    obtain ⟨hlo, -⟩ := (hg.ports e he).src
    have hq : e.srcPort = ((e.srcPort.toNat : Nat) : Int) := (Int.toNat_of_nonneg (by omega)).symm
    exact hs e.srcKernel e.srcPort.toNat ((outOf_eq_iff hg).mpr
      ⟨he, hclass, mem_edgeEnds_output.mpr ⟨by simpa using hfrom, rfl, hq⟩⟩)
  · intro hnot name q hout
    obtain ⟨-, hclass, hkey⟩ := (outOf_eq_iff hg).mp hout
    obtain ⟨hfrom, -⟩ := mem_edgeEnds_output.mp hkey
    rcases hnot with hnot | hnot
    · rw [hfrom] at hnot
      cases hnot
    · exact hclass hnot

/-! ## The emulator against the graph -/

theorem alongEdges_of_stream {h : Option StreamVar → List Flit} {e : Edge} {v : StreamVar}
    (he : e ∈ g.edges) (hv : edgeStream g e = some v) : alongEdges g h e = h (some v) := by
  unfold alongEdges
  rw [if_pos he, hv]
  rfl

theorem alongEdges_of_dropped {h : Option StreamVar → List Flit} {e : Edge}
    (hc : classOf g e = .dropped) : alongEdges g h e = [] := by
  unfold alongEdges edgeStream
  rw [hc]
  exact ite_self []

/-- What is written to the stream of an edge, the edge carries. -/
theorem alongEdges_update {h : Option StreamVar → List Flit} {e : Edge} {v : StreamVar}
    (he : e ∈ g.edges) (hv : edgeStream g e = some v) (xs : List Flit) :
    alongEdges g (Function.update h (some v) xs) = Function.update (alongEdges g h) e xs := by
  funext e'
  by_cases hee : e' = e
  · subst hee
    rw [Function.update_self, alongEdges_of_stream he hv, Function.update_self]
  · rw [Function.update_of_ne hee]
    unfold alongEdges
    split
    · rename_i he'
      cases hv' : edgeStream g e' with
      | none => rfl
      | some v' =>
        have hne : some v' ≠ some v := fun heq =>
          hee (edgeStream_inj he' (hv'.trans heq) hv)
        show Function.update h (some v) xs (some v') = h (some v')
        rw [Function.update_of_ne hne]
    · rfl

/-- What is written to another stream, no edge carries. -/
theorem alongEdges_of_other {h : Option StreamVar → List Flit} {k : Option StreamVar}
    (hk : ∀ e ∈ g.edges, ∀ v, edgeStream g e = some v → k ≠ some v) (xs : List Flit) :
    alongEdges g (Function.update h k xs) = alongEdges g h := by
  funext e
  unfold alongEdges
  split
  · rename_i he
    cases hv : edgeStream g e with
    | none => rfl
    | some v =>
      show Function.update h k xs (some v) = h (some v)
      rw [Function.update_of_ne (Ne.symm (hk e he v hv))]
  · rfl

section
variable {platform : Platform} {userClockHz : Int} {sourcePath : String} {b : Build}
  {B : Bodies b} {F : String → StreamFn Flit}

/-- A kernel sees of the streams what its element sees of the edges. -/
theorem seen_alongEdges (hg : Emulable g)
    (hb : b = lowerToBackend g platform userClockHz sourcePath)
    (hW : Joins (emuWiring b) B.fn Option.isSome) {h : Option StreamVar → List Flit}
    {i : Fin b.kernels.length} {p : Nat} (hp : p ∈ (B.fn i).inPorts) :
    (flowNet hW fun i => F (b.kernels.get i).name).seen h i p
      = (graphNet g F).seen (alongEdges g h) (b.kernels.get i).name p := by
  obtain ⟨e, he, v, hv, hkey, hin⟩ := input_edge hg hb B hp
  have hedge : (graphNet g F).inOf (b.kernels.get i).name p = some e := inOf_of_end hg he hkey
  unfold Net.seen
  rw [hedge]
  show (if p ∈ (B.fn i).inPorts then some ((emuWiring b).inOf i p) else none).elim [] h = _
  rw [if_pos hp, hin]
  exact (alongEdges_of_stream he hv).symm

/-- **The emulator refines the graph**: histories of the streams are histories of the edges.
Induction on the steps. -/
theorem reached_alongEdges (hg : Emulable g)
    (hb : b = lowerToBackend g platform userClockHz sourcePath)
    (hW : Joins (emuWiring b) B.fn Option.isSome)
    (hB : ∀ i, Computes (B.fn i) (B.init i) (F (b.kernels.get i).name)
      (OutLive (emuWiring b) Option.isSome i))
    {h : Option StreamVar → List Flit}
    (hr : (flowNet hW fun i => F (b.kernels.get i).name).Reached h) :
    (graphNet g F).Reached (alongEdges g h) := by
  induction hr with
  | start =>
    have hempty : alongEdges g (fun _ => []) = fun _ => [] := by
      funext e
      unfold alongEdges
      cases edgeStream g e <;> exact ite_self []
    rw [hempty]
    exact .start
  | @next h h' _ hs ih =>
    cases hs with
    | @feed k hk xs =>
      by_cases hedge : ∃ e ∈ g.edges, ∃ v, edgeStream g e = some v ∧ k = some v
      · obtain ⟨e, he, v, hv, rfl⟩ := hedge
        rw [alongEdges_update he hv, ← alongEdges_of_stream he hv (h := h)]
        refine ih.next (.feed ((source_iff hg he).mpr ?_) xs)
        -- an edge from an element has a kernel that writes it
        by_contra hnot
        obtain ⟨hfrom, -⟩ := not_or.mp hnot
        obtain ⟨i, q, hq, -, -, hout⟩ := output_port hg hb B he hv (by simpa using hfrom)
        refine hk i q ?_
        show (if q ∈ (B.fn i).outPorts ∧ ((emuWiring b).outOf i q).isSome = true
          then some ((emuWiring b).outOf i q) else none) = some (some v)
        rw [hout, if_pos ⟨hq, rfl⟩]
      · rw [alongEdges_of_other fun e he v hv heq => hedge ⟨e, he, v, hv, heq⟩]
        exact ih
    | @fire i q k hk xs hmore hfn =>
      -- what a kernel writes is what the element of the edge's start writes
      obtain ⟨⟨hq, hlive⟩, heq⟩ := Option.ite_none_right_eq_some.mp hk
      obtain rfl := Option.some.inj heq
      obtain ⟨v, hv⟩ := Option.isSome_iff_exists.mp hlive
      obtain ⟨e, he, hev, hkey⟩ := output_edge hg hb hv
      rw [hv, alongEdges_update he hev]
      have hedge : (graphNet g F).outOf (b.kernels.get i).name q = some e :=
        (outOf_eq_iff hg).mpr ⟨he, classOf_of_edgeStream hev, hkey⟩
      refine ih.next (.fire hedge ?_ ?_)
      · rw [alongEdges_of_stream he hev, ← hv]
        exact hmore
      · obtain ⟨P, -, hP⟩ := hB i
        have hsame :=
          hP.reads (fun p hp => seen_alongEdges (F := F) (h := h) hg hb hW hp) q hq hlive
        exact hfn.trans (hsame ▸ List.prefix_rfl)

/-- Histories of the streams that solve their equations solve those of the graph. -/
theorem solves_alongEdges (hg : Emulable g)
    (hb : b = lowerToBackend g platform userClockHz sourcePath)
    (hW : Joins (emuWiring b) B.fn Option.isSome)
    (hB : ∀ i, Computes (B.fn i) (B.init i) (F (b.kernels.get i).name)
      (OutLive (emuWiring b) Option.isSome i))
    {h : Option StreamVar → List Flit}
    (hs : (flowNet hW fun i => F (b.kernels.get i).name).Solves h) :
    (graphNet g F).Solves (alongEdges g h) := by
  intro name q e hout
  obtain ⟨he, hclass, hkey⟩ := (outOf_eq_iff hg).mp hout
  obtain ⟨hfrom, rfl, hq⟩ := mem_edgeEnds_output.mp hkey
  obtain ⟨v, hv⟩ := edgeStream_isSome hclass
  obtain ⟨i, q', hq', hname, hport, hi⟩ := output_port hg hb B he hv hfrom
  obtain rfl := Int.ofNat_inj.mp (hport.symm.trans hq)
  have hlive : OutLive (emuWiring b) Option.isSome i q' := by
    show ((emuWiring b).outOf i q').isSome = true
    rw [hi]
    rfl
  have heq : h (some v) = _ := hs i q' (some v) (by
    show (if q' ∈ (B.fn i).outPorts ∧ ((emuWiring b).outOf i q').isSome = true
      then some ((emuWiring b).outOf i q') else none) = some (some v)
    rw [if_pos ⟨hq', hlive⟩, hi])
  obtain ⟨P, -, hP⟩ := hB i
  rw [alongEdges_of_stream he hv, heq, ← hname]
  exact hP.reads (fun p hp => seen_alongEdges (F := F) (h := h) hg hb hW hp) q' hq' hlive

theorem carried_eq (g : Graph) (t : NetState (Fin b.kernels.length) (Option StreamVar) Unit
    B.State Flit) : carried g t = alongEdges g (histories Option.isSome t) := by
  funext e
  unfold carried alongEdges
  cases edgeStream g e <;> rfl

/-- What the edges carry in a run is a history of the graph. -/
theorem reached_carried (hg : Emulable g)
    (hb : b = lowerToBackend g platform userClockHz sourcePath)
    (hB : ∀ i, Computes (B.fn i) (B.init i) (F (b.kernels.get i).name)
      (OutLive (emuWiring b) Option.isSome i))
    {t : NetState (Fin b.kernels.length) (Option StreamVar) Unit B.State Flit}
    (hr : Reaches (nstep (emuWiring b) B.fn) (WithinRoom (emuWiring b) B.fn Option.isSome)
      (emuStart b B) t) : (graphNet g F).Reached (carried g t) := by
  have hW := joins_emuWiring hg hb B
  rw [carried_eq]
  exact reached_alongEdges hg hb hW hB
    (reached_histories hW hB (emuCap b) hr)

end

/-! ## Compiled modules -/

theorem kindsNamed_addSpecial (h : KindsNamed g) (n : String) :
    KindsNamed (Resolver.addSpecial g n) := by
  unfold Resolver.addSpecial
  split
  · exact h
  · split
    · exact h
    · intro k hk hspecial
      rcases List.mem_append.mp hk with hk | hk
      · exact h k hk hspecial
      · rw [List.mem_singleton.mp hk]
        rfl

theorem kindsNamed_of_resolves {m : Module} {fuel : Nat} {diags d : DiagnosticEngine}
    (h : resolveModuleToGraph fuel m diags = some (true, d, g)) : KindsNamed g := by
  obtain ⟨rf, hrf, -, -, rfl⟩ := resolver_of_resolves h
  obtain ⟨os, -, -, hplain⟩ := adds_module hrf
  have hfold : ∀ (ns : List String) (g : Graph), KindsNamed g →
      KindsNamed (ns.foldl Resolver.addSpecial g) := by
    intro ns
    induction ns with
    | nil => exact fun g hg => hg
    | cons n ns ih => exact fun g hg => ih _ (kindsNamed_addSpecial hg n)
  -- no statement of a module makes a pseudo-element
  have hnamed : KindsNamed rf.synthesizeSpecials.graph :=
    hfold _ _ fun k hk hspecial => absurd (hplain k hk) hspecial
  intro k hk hspecial
  obtain ⟨k', hk', hname, hkind, -⟩ := mem_assignSlots hk
  rw [hkind] at hspecial ⊢
  rw [hname]
  exact hnamed k' hk' hspecial

/-- What the compiler checks, and that the graph is wired once. -/
theorem emulable_of_resolves {m : Module} {fuel : Nat} {diags d : DiagnosticEngine}
    (h : resolveModuleToGraph fuel m diags = some (true, d, g))
    (harity : (analyzePortArity g d).1 = true) (hone : ∀ e ∈ g.edges, OneBoundary g e)
    (hw : WiredOnce g) : Emulable g where
  toWiredOnce := hw
  accepted := accepted_of_resolves h
  named := kindsNamed_of_resolves h
  ports := portsInRange_of_arity harity
  boundary e he := (endsReal_iff (portsFit (accepted_of_resolves h) he
    (portsInRange_of_arity harity e he))).mpr (hone e he)

end

end OpenClickNP
