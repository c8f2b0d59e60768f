import OpenClickNP.Lib.OverwriteMap
import OpenClickNP.Compiler.Lower
import OpenClickNP.Compiler.Resolver

/-!
# `sw_emu/emit.cpp`: `emitMain`

`emitMain` declares a stream for each connection of the plan and passes streams to the kernel
functions through the map `port2stream`. The map has one entry for each kernel port, and each
of its four loops overwrites what is there: a connection keeps its stream only when no other
connection ends in the same port (`emitMain_realises_iff`).
-/

namespace OpenClickNP

open Be Eg OverwriteMap

/-! ## `port2stream` -/

/-- The stream variables `stream_<i>`, `tor_stream_<i>`, `nic_stream_<i>`, `host_stream_<i>`. -/
inductive StreamVar where
  | stream (i : Nat) | torStream (i : Nat) | nicStream (i : Nat) | hostStream (i : Nat)
deriving DecidableEq, Repr

/-- The second component of a key, `"in"` or `"out"`. -/
inductive Dir where
  | input | output
deriving DecidableEq, Repr

/-- `(kernel_name, "in"|"out", port_index)`. -/
abbrev PortKey := String × Dir × Int

/-- The assignments of the loop over the internal connections, for the `i`-th of them. -/
def streamAssigns (p : StreamConn × Nat) : List (PortKey × StreamVar) :=
  [((p.1.srcKernel, .output, p.1.srcPort), .stream p.2),
   ((p.1.dstKernel, .input, p.1.dstPort), .stream p.2)]

/-- The assignments of the two loops over boundary connections; an end with one of the two
literal names is the pseudo-element and is not assigned. -/
def boundaryAssigns (inName outName : String) (var : Nat → StreamVar) (p : StreamConn × Nat) :
    List (PortKey × StreamVar) :=
  (if p.1.srcKernel ≠ inName ∧ p.1.srcKernel ≠ outName then
    [((p.1.srcKernel, .output, p.1.srcPort), var p.2)] else []) ++
  (if p.1.dstKernel ≠ inName ∧ p.1.dstKernel ≠ outName then
    [((p.1.dstKernel, .input, p.1.dstPort), var p.2)] else [])

def torAssigns : StreamConn × Nat → List (PortKey × StreamVar) :=
  boundaryAssigns "tor_in" "tor_out" .torStream

def nicAssigns : StreamConn × Nat → List (PortKey × StreamVar) :=
  boundaryAssigns "nic_in" "nic_out" .nicStream

def hostAssigns (p : HostConn × Nat) : List (PortKey × StreamVar) :=
  [((p.1.kernel, if p.1.kernelToHost then .output else .input, p.1.port), .hostStream p.2)]

/-- The assignments of the last three loops. -/
def laterAssigns (b : Build) : List (PortKey × StreamVar) :=
  b.torConns.zipIdx.flatMap torAssigns ++ b.nicConns.zipIdx.flatMap nicAssigns
    ++ b.hostStreams.zipIdx.flatMap hostAssigns

/-- All assignments of `emitMain`, in the order it makes them. -/
def assigns (b : Build) : List (PortKey × StreamVar) :=
  b.streamConns.zipIdx.flatMap streamAssigns ++ laterAssigns b

def port2stream (b : Build) : List (PortKey × StreamVar) := fill (assigns b)

/-- `stream_decls`: the streams with their depths. -/
def streamDecls (b : Build) : List (StreamVar × Int) :=
  b.streamConns.zipIdx.map (fun p => (.stream p.2, p.1.depth))
    ++ b.torConns.zipIdx.map (fun p => (.torStream p.2, p.1.depth))
    ++ b.nicConns.zipIdx.map (fun p => (.nicStream p.2, p.1.depth))
    ++ b.hostStreams.zipIdx.map (fun p => (.hostStream p.2, 64))

/-- `stream_for`; `none` stands for `SwStream::null()`. -/
def streamFor (b : Build) (kernel : String) (dir : Dir) (portIdx : Int) : Option StreamVar :=
  (port2stream b).lookup (kernel, dir, portIdx)

/-! ## The launched kernels -/

/-- One `threads.emplace_back`: the streams passed as `in_<p>` and `out_<p>`. -/
structure Launch where
  kernel : String
  ins : List (Int × Option StreamVar)
  outs : List (Int × Option StreamVar)
  hasSignal : Bool
deriving DecidableEq, Repr

def launchOf (b : Build) (k : KernelHls) : Launch where
  kernel := k.name
  ins := k.inPorts.map fun p => (p.index, streamFor b k.name .input p.index)
  outs := k.outPorts.map fun p => (p.index, streamFor b k.name .output p.index)
  hasSignal := k.hasSignal

/-- `emitMain`: the declared streams and the launched kernels. -/
def emitMain (b : Build) : List (StreamVar × Int) × List Launch :=
  (streamDecls b, b.kernels.map (launchOf b))

/-- The kernel ports that are passed the stream `v` to write to. -/
def writers (ls : List Launch) (v : StreamVar) : List (String × Int) :=
  ls.flatMap fun l => (l.outs.filter (·.2 = some v)).map fun o => (l.kernel, o.1)

/-- The kernel ports that are passed the stream `v` to read from. -/
def readers (ls : List Launch) (v : StreamVar) : List (String × Int) :=
  ls.flatMap fun l => (l.ins.filter (·.2 = some v)).map fun i => (l.kernel, i.1)

/-- The wiring realises a connection: its stream has the connection's source port as its one
writer and the connection's destination port as its one reader. -/
def Realised (ls : List Launch) (sc : StreamConn) (v : StreamVar) : Prop :=
  writers ls v = [(sc.srcKernel, sc.srcPort)] ∧ readers ls v = [(sc.dstKernel, sc.dstPort)]

instance (ls : List Launch) (sc : StreamConn) (v : StreamVar) : Decidable (Realised ls sc v) :=
  inferInstanceAs (Decidable (_ ∧ _))

/-! ## Ports of the plan -/

/-- The ends of an internal connection. -/
def streamEnds (sc : StreamConn) : List PortKey :=
  [(sc.srcKernel, .output, sc.srcPort), (sc.dstKernel, .input, sc.dstPort)]

/-- The ends of a boundary connection that are not the pseudo-element. -/
def boundaryEnds (inName outName : String) (sc : StreamConn) : List PortKey :=
  (if sc.srcKernel ≠ inName ∧ sc.srcKernel ≠ outName then
    [(sc.srcKernel, .output, sc.srcPort)] else []) ++
  (if sc.dstKernel ≠ inName ∧ sc.dstKernel ≠ outName then
    [(sc.dstKernel, .input, sc.dstPort)] else [])

def hostEnds (hc : HostConn) : List PortKey :=
  [(hc.kernel, if hc.kernelToHost then .output else .input, hc.port)]

/-- The kernel ports that the connections of the plan end in, with repetitions. -/
def connEnds (b : Build) : List PortKey :=
  b.streamConns.flatMap streamEnds ++
    (b.torConns.flatMap (boundaryEnds "tor_in" "tor_out")
      ++ b.nicConns.flatMap (boundaryEnds "nic_in" "nic_out")
      ++ b.hostStreams.flatMap hostEnds)

/-- The output ports of the launched kernels. -/
def launchedOuts (b : Build) : List (String × Int) :=
  b.kernels.flatMap fun k => k.outPorts.map fun p => (k.name, p.index)

/-- The input ports of the launched kernels. -/
def launchedIns (b : Build) : List (String × Int) :=
  b.kernels.flatMap fun k => k.inPorts.map fun p => (k.name, p.index)

/-- A connection that shares neither of its ports with another connection, between kernels
that are launched with these ports, each under a name of its own. -/
def WiredAlone (b : Build) (sc : StreamConn) : Prop :=
  (connEnds b).count (sc.srcKernel, .output, sc.srcPort) = 1 ∧
    (connEnds b).count (sc.dstKernel, .input, sc.dstPort) = 1 ∧
    (launchedOuts b).count (sc.srcKernel, sc.srcPort) = 1 ∧
    (launchedIns b).count (sc.dstKernel, sc.dstPort) = 1

instance (b : Build) (sc : StreamConn) : Decidable (WiredAlone b sc) :=
  inferInstanceAs (Decidable (_ ∧ _))

/-! ## The assignments, each made once -/

/-- The assignments of one loop, whose counter is part of the value assigned. -/
theorem nodup_loop {α : Type} {f : α × Nat → List (PortKey × StreamVar)} {var : Nat → StreamVar}
    (hvar : ∀ i j, var i = var j → i = j) (hval : ∀ p, ∀ e ∈ f p, e.2 = var p.2)
    (hnd : ∀ p, (f p).Nodup) (l : List α) : (l.zipIdx.flatMap f).Nodup := by
  rw [List.nodup_flatMap]
  refine ⟨fun p _ => hnd p, ?_⟩
  have hidx : (l.zipIdx.map Prod.snd).Nodup := by
    rw [List.zipIdx_map_snd]
    exact List.nodup_range'
  refine (List.pairwise_map.mp hidx).imp ?_
  intro p q hne e hp hq
  exact hne (hvar _ _ ((hval p e hp).symm.trans (hval q e hq)))

theorem boundaryAssigns_val {inName outName : String} {var : Nat → StreamVar}
    {p : StreamConn × Nat} {e : PortKey × StreamVar}
    (he : e ∈ boundaryAssigns inName outName var p) : e.2 = var p.2 := by
  unfold boundaryAssigns at he
  rcases List.mem_append.mp he with h | h
  · split at h <;> simp_all
  · split at h <;> simp_all

theorem boundaryAssigns_nodup (inName outName : String) (var : Nat → StreamVar)
    (p : StreamConn × Nat) : (boundaryAssigns inName outName var p).Nodup := by
  unfold boundaryAssigns
  split <;> split <;> simp

theorem streamAssigns_val {p : StreamConn × Nat} {e : PortKey × StreamVar}
    (he : e ∈ streamAssigns p) : e.2 = .stream p.2 := by
  rcases List.mem_pair.mp he with rfl | rfl <;> rfl

/-- A later loop assigns none of the `stream_<i>`. -/
theorem laterAssigns_val {b : Build} {e : PortKey × StreamVar} (he : e ∈ laterAssigns b)
    (i : Nat) : e.2 ≠ .stream i := by
  unfold laterAssigns at he
  simp only [List.mem_append, List.mem_flatMap] at he
  rcases he with (⟨p, -, h⟩ | ⟨p, -, h⟩) | ⟨p, -, h⟩
  · rw [boundaryAssigns_val h]; exact StreamVar.noConfusion
  · rw [boundaryAssigns_val h]; exact StreamVar.noConfusion
  · rw [hostAssigns, List.mem_singleton] at h
    rw [h]; exact StreamVar.noConfusion

theorem assigns_nodup (b : Build) : (assigns b).Nodup := by
  have hstream : (b.streamConns.zipIdx.flatMap streamAssigns).Nodup :=
    nodup_loop (fun i j h => StreamVar.stream.inj h) (fun p e he => streamAssigns_val he)
      (fun p => by simp [streamAssigns]) b.streamConns
  have htor : (b.torConns.zipIdx.flatMap torAssigns).Nodup :=
    nodup_loop (fun i j h => StreamVar.torStream.inj h) (fun p e he => boundaryAssigns_val he)
      (boundaryAssigns_nodup _ _ _) b.torConns
  have hnic : (b.nicConns.zipIdx.flatMap nicAssigns).Nodup :=
    nodup_loop (fun i j h => StreamVar.nicStream.inj h) (fun p e he => boundaryAssigns_val he)
      (boundaryAssigns_nodup _ _ _) b.nicConns
  have hhost : (b.hostStreams.zipIdx.flatMap hostAssigns).Nodup :=
    nodup_loop (fun i j h => StreamVar.hostStream.inj h)
      (fun p e he => by rw [hostAssigns, List.mem_singleton] at he; rw [he])
      (fun p => by simp [hostAssigns]) b.hostStreams
  unfold assigns laterAssigns
  refine hstream.append ((htor.append hnic ?_).append hhost ?_) ?_
  · intro e h1 h2
    obtain ⟨p, -, h1⟩ := List.mem_flatMap.mp h1
    obtain ⟨q, -, h2⟩ := List.mem_flatMap.mp h2
    exact StreamVar.noConfusion ((boundaryAssigns_val h1).symm.trans (boundaryAssigns_val h2))
  · intro e h1 h2
    obtain ⟨q, -, h2⟩ := List.mem_flatMap.mp h2
    rw [hostAssigns, List.mem_singleton] at h2
    rcases List.mem_append.mp h1 with h1 | h1
    · obtain ⟨p, -, h1⟩ := List.mem_flatMap.mp h1
      have h1 := boundaryAssigns_val h1
      rw [h2] at h1
      exact StreamVar.noConfusion h1
    · obtain ⟨p, -, h1⟩ := List.mem_flatMap.mp h1
      have h1 := boundaryAssigns_val h1
      rw [h2] at h1
      exact StreamVar.noConfusion h1
  · intro e h1 h2
    obtain ⟨p, -, h1⟩ := List.mem_flatMap.mp h1
    exact laterAssigns_val h2 p.2 (streamAssigns_val h1)

/-- The keys assigned are the ends of the connections. -/
theorem map_fst_assigns (b : Build) : (assigns b).map Prod.fst = connEnds b := by
  have hloop : ∀ {α : Type} (l : List α) (f : α × Nat → List (PortKey × StreamVar))
      (ends : α → List PortKey), (∀ p, (f p).map Prod.fst = ends p.1) →
      (l.zipIdx.flatMap f).map Prod.fst = l.flatMap ends := by
    intro α l f ends h
    conv_rhs => rw [← List.zipIdx_map_fst 0 l, List.flatMap_map]
    rw [List.map_flatMap]
    exact List.flatMap_congr fun p _ => h p
  have hboundary : ∀ inName outName var p,
      (boundaryAssigns inName outName var p).map Prod.fst = boundaryEnds inName outName p.1 := by
    intro inName outName var p
    unfold boundaryAssigns boundaryEnds
    split <;> split <;> rfl
  unfold assigns laterAssigns connEnds
  rw [List.map_append, List.map_append, List.map_append,
    hloop _ streamAssigns streamEnds (fun p => rfl),
    hloop _ torAssigns _ (fun p => hboundary _ _ _ p),
    hloop _ nicAssigns _ (fun p => hboundary _ _ _ p),
    hloop _ hostAssigns hostEnds (fun p => rfl)]

/-! ## The wiring -/

theorem writers_emitMain (b : Build) (v : StreamVar) :
    writers (emitMain b).2 v =
      (launchedOuts b).filter fun k => streamFor b k.1 .output k.2 = some v := by
  simp only [writers, emitMain, launchOf, launchedOuts, List.flatMap_map, List.filter_flatMap,
    List.filter_map, List.map_map]
  rfl

theorem readers_emitMain (b : Build) (v : StreamVar) :
    readers (emitMain b).2 v =
      (launchedIns b).filter fun k => streamFor b k.1 .input k.2 = some v := by
  simp only [readers, emitMain, launchOf, launchedIns, List.flatMap_map, List.filter_flatMap,
    List.filter_map, List.map_map]
  rfl

/-- The keys under which `stream_<i>` is found are the two ends of the `i`-th connection. -/
theorem key_of_stream {b : Build} {p : StreamConn × Nat} (hp : p ∈ b.streamConns.zipIdx)
    {key : PortKey} (h : (port2stream b).lookup key = some (.stream p.2)) :
    key = (p.1.srcKernel, .output, p.1.srcPort) ∨ key = (p.1.dstKernel, .input, p.1.dstPort) := by
  have hmem := mem_of_lookup_fill h
  unfold assigns at hmem
  rcases List.mem_append.mp hmem with hs | hl
  · obtain ⟨q, hq, he⟩ := List.mem_flatMap.mp hs
    have hidx : p.2 = q.2 := StreamVar.stream.inj (streamAssigns_val he)
    have hpq : p = q := by
      have h1 := List.mk_mem_zipIdx_iff_getElem?.mp hp
      have h2 := List.mk_mem_zipIdx_iff_getElem?.mp hq
      rw [← hidx] at h2
      exact Prod.ext (Option.some.inj (h1.symm.trans h2)) hidx
    rw [hpq]
    rcases List.mem_pair.mp he with h1 | h1
    · exact .inl (Prod.ext_iff.mp h1).1
    · exact .inr (Prod.ext_iff.mp h1).1
  · exact absurd rfl (laterAssigns_val hl p.2)

theorem filter_eq_singleton_iff {α : Type} [BEq α] [LawfulBEq α] {P : α → Bool} {a : α}
    (hP : ∀ x, P x = true → x = a) (l : List α) :
    l.filter P = [a] ↔ P a = true ∧ l.count a = 1 := by
  have hfilter : P a = true → l.filter P = List.replicate (l.count a) a := by
    intro ha
    rw [← List.filter_beq]
    refine List.filter_congr fun x _ => ?_
    by_cases hx : x = a
    · simp [hx, ha]
    · have hxP : P x = false := by
        cases hPx : P x with
        | false => rfl
        | true => exact absurd (hP x hPx) hx
      simp [hx, hxP]
  constructor
  · intro h
    have ha : P a = true := (List.mem_filter.mp (h ▸ List.mem_singleton_self a)).2
    have hlen := congrArg List.length (hfilter ha)
    rw [h, List.length_replicate] at hlen
    exact ⟨ha, hlen.symm⟩
  · rintro ⟨ha, hcount⟩
    rw [hfilter ha, hcount]
    rfl

/-- A connection is realised when its two map entries survive and its ports are launched. -/
theorem realised_iff {b : Build} {p : StreamConn × Nat} (hp : p ∈ b.streamConns.zipIdx) :
    Realised (emitMain b).2 p.1 (.stream p.2) ↔
      (∀ e ∈ streamAssigns p, (port2stream b).lookup e.1 = some e.2) ∧
        (launchedOuts b).count (p.1.srcKernel, p.1.srcPort) = 1 ∧
        (launchedIns b).count (p.1.dstKernel, p.1.dstPort) = 1 := by
  have hout : ∀ k : String × Int,
      decide (streamFor b k.1 .output k.2 = some (.stream p.2)) = true →
        k = (p.1.srcKernel, p.1.srcPort) := by
    intro k hk
    rcases key_of_stream hp (of_decide_eq_true hk) with h | h
    · simp only [Prod.mk.injEq] at h
      exact Prod.ext h.1 h.2.2
    · simp at h
  have hin : ∀ k : String × Int,
      decide (streamFor b k.1 .input k.2 = some (.stream p.2)) = true →
        k = (p.1.dstKernel, p.1.dstPort) := by
    intro k hk
    rcases key_of_stream hp (of_decide_eq_true hk) with h | h
    · simp at h
    · simp only [Prod.mk.injEq] at h
      exact Prod.ext h.1 h.2.2
  unfold Realised
  rw [writers_emitMain, readers_emitMain, filter_eq_singleton_iff hout,
    filter_eq_singleton_iff hin]
  simp only [streamAssigns, List.mem_cons, List.not_mem_nil, or_false, forall_eq_or_imp,
    forall_eq, decide_eq_true_eq]
  unfold streamFor
  tauto

/-- **When the wiring of the emulator is right.** For every plan, each internal connection has
its stream passed to its source port and to its destination port and to no other, if and only
if no connection shares a port with one of them and each joins ports that are launched once. -/
theorem emitMain_realises_iff (b : Build) :
    (∀ p ∈ b.streamConns.zipIdx, Realised (emitMain b).2 p.1 (.stream p.2)) ↔
      ∀ sc ∈ b.streamConns, WiredAlone b sc := by
  have hsurv : (∀ e ∈ b.streamConns.zipIdx.flatMap streamAssigns,
        (port2stream b).lookup e.1 = some e.2) ↔
      ∀ e ∈ b.streamConns.zipIdx.flatMap streamAssigns, (connEnds b).count e.1 = 1 := by
    unfold port2stream
    rw [assigns, survive_iff ?_, ← assigns]
    · refine forall₂_congr fun e he => ?_
      rw [← map_fst_assigns]
      exact (count_eq_one_iff (assigns_nodup b) (List.mem_append_left _ he)).symm
    · intro e he e' he'
      obtain ⟨p, -, hp⟩ := List.mem_flatMap.mp he
      rw [streamAssigns_val hp]
      exact laterAssigns_val he' p.2
  have hfst : ∀ P : StreamConn → Prop,
      (∀ sc ∈ b.streamConns, P sc) ↔ ∀ p ∈ b.streamConns.zipIdx, P p.1 := by
    intro P
    conv_lhs => rw [← List.zipIdx_map_fst 0 b.streamConns]
    exact List.forall_mem_map
  rw [hfst]
  constructor
  · intro h p hp
    have hall : ∀ e ∈ b.streamConns.zipIdx.flatMap streamAssigns,
        (port2stream b).lookup e.1 = some e.2 := by
      intro e he
      obtain ⟨q, hq, he⟩ := List.mem_flatMap.mp he
      exact ((realised_iff hq).mp (h q hq)).1 e he
    have hcount := hsurv.mp hall
    have hmem : ∀ e ∈ streamAssigns p, (connEnds b).count e.1 = 1 := fun e he =>
      hcount e (List.mem_flatMap.mpr ⟨p, hp, he⟩)
    obtain ⟨-, houts, hins⟩ := (realised_iff hp).mp (h p hp)
    exact ⟨hmem _ List.mem_cons_self, hmem _ (List.mem_cons_of_mem _ List.mem_cons_self),
      houts, hins⟩
  · intro h p hp
    have hall : ∀ e ∈ b.streamConns.zipIdx.flatMap streamAssigns, (connEnds b).count e.1 = 1 := by
      intro e he
      obtain ⟨q, hq, he⟩ := List.mem_flatMap.mp he
      obtain ⟨h1, h2, -⟩ := h q hq
      rcases List.mem_pair.mp he with rfl | rfl
      · exact h1
      · exact h2
    have hlookup := hsurv.mpr hall
    obtain ⟨-, -, houts, hins⟩ := h p hp
    exact (realised_iff hp).mpr
      ⟨fun e he => hlookup e (List.mem_flatMap.mpr ⟨p, hp, he⟩), houts, hins⟩

/-- The heap of the delay scheduler, feeding two ports of the queue: `mh -> [2]tq` and
`mh -> [3]tq`. -/
def fanOut : Ast.Module where
  stmts := [
    .elementDecl { name := "MinHeap", nInPorts := 1, nOutPorts := 1 },
    .elementDecl { name := "TripleQueue", nInPorts := 3, nOutPorts := 1 },
    .instanceDecl { type := "MinHeap", name := "mh" },
    .instanceDecl { type := "TripleQueue", name := "tq", nInPorts := 3, nOutPorts := 1 },
    .connectionDecl
      { source := { nodeName := "mh" }, dest := { nodeName := "tq", range := { lo := 2 } } },
    .connectionDecl
      { source := { nodeName := "mh" }, dest := { nodeName := "tq", range := { lo := 3 } } }]

/-- What `fanOut` resolves to. -/
def fanOutGraph : Graph where
  kernels := [
    { name := "mh", type := "MinHeap", nInPorts := 1, nOutPorts := 1 },
    { name := "tq", type := "TripleQueue", nInPorts := 3, nOutPorts := 1 }]
  edges := [
    { srcKernel := "mh", dstKernel := "tq", dstPort := 2 },
    { srcKernel := "mh", dstKernel := "tq", dstPort := 3 }]

/-- The graph is accepted, and `stream_0` has a reader but no writer. -/
theorem emitMain_unwired_fanOut :
    resolveModuleToGraph 1 fanOut {} = some (true, {}, fanOutGraph) ∧
      analyzePortArity fanOutGraph {} = (true, {}) ∧
      writers (emitMain (lowerToBackend fanOutGraph .u50Xdma 322265625 "")).2 (.stream 0) = [] ∧
      ¬ ∀ p ∈ (lowerToBackend fanOutGraph .u50Xdma 322265625 "").streamConns.zipIdx,
          Realised (emitMain (lowerToBackend fanOutGraph .u50Xdma 322265625 "")).2 p.1
            (.stream p.2) := by
  decide

end OpenClickNP
