import OpenClickNP.Backend.EmulatedRuns
import OpenClickNP.Elements.AesEcb
import OpenClickNP.Elements.FlowState
import OpenClickNP.Elements.FrameKeeping
import OpenClickNP.Elements.Tcams

/-!
# The element library

What a topology names, the library has: for the type of an element its kernel function, the state
that its `.init` block leaves, and the function on histories that it computes (`LibraryElement`).
The emulator of a plan whose elements are all in the library (`Stocked`) runs with their bodies
(`libraryBodies`), and these compute what the library says (`computeAll_library`).
-/

namespace OpenClickNP

open Ast Eg Be Run Histories

/-! ## Elements of other modules that act on each flit -/

section
variable {σ : Type} {K : KernelFn σ Flit} {next : σ → Flit → σ} {change : σ → Flit → Flit}

/-- An element that puts out one flit for each. -/
theorem acts_of_one (hin : K.inPorts = [1]) (hout : K.outPorts = [1])
    (hhandler : K.handler = onEachFlit next fun st f => [(1, change st f)])
    (hsignal : ∀ v, (K.signal v).ops = []) :
    ActsOnFlits K next fun st f => [(1, change st f)] where
  inPorts := hin
  handler := hhandler
  ports q hq := by
    rw [hout, List.mem_singleton] at hq
    rw [hq]
    decide
  once _ _ q _ := by
    apply filter_length_le_one
    exact List.nodup_singleton _
  signal := hsignal

/-- An element that passes the flit on to port 1, and perhaps one to port 2. -/
theorem acts_of_tap {tap : σ → Flit → Option Flit} (hin : K.inPorts = [1])
    (hout : K.outPorts = [1, 2])
    (hhandler : K.handler
      = onEachFlit next fun st f => (1, f) :: (tap st f).toList.map ((2, ·)))
    (hsignal : ∀ v, (K.signal v).ops = []) :
    ActsOnFlits K next fun st f => (1, f) :: (tap st f).toList.map ((2, ·)) where
  inPorts := hin
  handler := hhandler
  ports q hq := by
    rw [hout] at hq
    rcases List.mem_pair.mp hq with rfl | rfl <;> decide
  once st f q _ := by
    apply filter_length_le_one
    cases tap st f <;> simp
  signal := hsignal

end

theorem acts_tee : ActsOnFlits tee (fun st _ => st)
    fun _ f => (1, f) :: (some f).toList.map ((2, ·)) := by
  refine acts_of_tap rfl rfl ?_ fun _ => rfl
  funext v
  show teeHandler v = _
  unfold teeHandler onEachFlit
  cases testPort v.inputPort 1 <;> rfl

theorem acts_firstFlit (describe : Flit → Flit) : ActsOnFlits (firstFlitFn describe)
    (fun st f =>
      { first := if f.eop then true else if st.first && f.sop then false else st.first })
    fun st f => (1, f) ::
      (if st.first && f.sop then some (describe f) else none).toList.map ((2, ·)) := by
  refine acts_of_tap rfl rfl ?_ fun _ => rfl
  funext v
  show firstFlitHandler describe v = _
  unfold firstFlitHandler onEachFlit
  cases testPort v.inputPort 1 with
  | false => rfl
  | true => cases hstarts : v.state.first && (v.inputData 1).sop <;> simp [hstarts]

theorem acts_aesCtr : ActsOnFlits aesCtr
    (fun st _ => { st with counter := advanceCounter st.counter })
    fun st f => [(1, aesCtrFlit st f)] :=
  acts_of_one rfl rfl rfl fun _ => rfl

theorem acts_aesEcb {Key : Type} (encryptBlock : Key → Vector UInt8 16 → Vector UInt8 16)
    (setKey : ClSignal → Key → Key) : ActsOnFlits (aesEcb encryptBlock setKey) (fun st _ => st)
    fun key f => [(1, ecbFlit (encryptBlock key) f)] := by
  refine acts_of_one rfl rfl ?_ fun _ => rfl
  funext v
  show aesEcbHandler encryptBlock v = _
  unfold aesEcbHandler onEachFlit
  cases testPort v.inputPort 1 <;> rfl

theorem acts_hashTable : ActsOnFlits hashTable (fun st _ => st) fun st f => [(1, st.answer f)] := by
  refine acts_of_one rfl rfl ?_ fun _ => rfl
  funext v
  show hashTableHandler v = _
  unfold hashTableHandler onEachFlit
  cases testPort v.inputPort 1 <;> rfl

theorem acts_packetSetDip : ActsOnFlits packetSetDip (fun st _ => st)
    fun st f => [(1, setDip st.newDip f)] := by
  refine acts_of_one rfl rfl ?_ fun _ => rfl
  funext v
  show packetSetDipHandler v = _
  unfold packetSetDipHandler onEachFlit
  cases testPort v.inputPort 1 <;> rfl

theorem acts_regTcam : ActsOnFlits regTcam (fun st _ => st) fun st f => [(1, tcamResult st f)] := by
  refine acts_of_one rfl rfl ?_ fun _ => rfl
  funext v
  show regTcamHandler v = _
  unfold regTcamHandler onEachFlit
  cases testPort v.inputPort 1 <;> rfl

theorem plain_sha1 : Plain sha1 1 := by
  refine plain_of_ready (List.mem_singleton_self 1) (by decide) (fun _ => rfl) ?_ ?_ fun _ => rfl
  · intro v op hop
    split at hop
    · rw [List.mem_singleton.mp hop]
      rfl
    · cases hop
  · intro v
    split
    · exact Nat.le_refl 1
    · exact Nat.zero_le 1

/-! ## Entries -/

/-- An element of the library. -/
structure LibraryElement where
  State : Type
  fn : KernelFn State Flit
  init : State
  computed : StreamFn Flit
  computes : ∀ used, Computes fn init computed used

/-- An element that keeps packets whole. -/
structure FramingElement extends LibraryElement where
  frames : KeepsClean computed

namespace FramingElement

variable {σ : Type} {K : KernelFn σ Flit} {next : σ → Flit → σ}

/-- One flit for each, with its marks or a packet of its own. -/
def ofOne {change : σ → Flit → Flit} (hK : ActsOnFlits K next fun st f => [(1, change st f)])
    (init : σ) (h : (∀ st f, SameMarks f (change st f)) ∨ ∀ st f, WholeFrame (change st f)) :
    FramingElement where
  State := σ
  fn := K
  init := init
  computed := _
  computes := hK.computes init
  frames := by
    apply keepsClean_routed
    intro q
    rcases h with hmarks | hwhole
    · by_cases hq : q = 1
      · subst hq
        exact Or.inl fun st f _ => ⟨change st f, rfl, hmarks st f⟩
      · refine Or.inr fun st f o ho hport => absurd ?_ hq
        rw [List.mem_singleton.mp ho] at hport
        exact hport.symm
    · refine Or.inr fun st f o ho _ => ?_
      rw [List.mem_singleton.mp ho]
      exact hwhole st f

/-- The flit goes on to port 1; on port 2 there are copies, or packets of one flit. -/
def ofTap {tap : σ → Flit → Option Flit}
    (hK : ActsOnFlits K next fun st f => (1, f) :: (tap st f).toList.map ((2, ·))) (init : σ)
    (h : (∀ st f, tap st f = some f) ∨ ∀ st f g, tap st f = some g → WholeFrame g) :
    FramingElement where
  State := σ
  fn := K
  init := init
  computed := _
  computes := hK.computes init
  frames := by
    apply keepsClean_routed
    intro q
    have htap : ∀ st f o, o ∈ (1, f) :: (tap st f).toList.map ((2, ·)) →
        o = (1, f) ∨ ∃ g, tap st f = some g ∧ o = (2, g) := by
      intro st f o ho
      rcases List.mem_cons.mp ho with rfl | ho
      · exact Or.inl rfl
      · obtain ⟨g, hg, rfl⟩ := List.mem_map.mp ho
        exact Or.inr ⟨g, Option.mem_toList.mp hg, rfl⟩
    by_cases hone : q = 1
    · subst hone
      refine Or.inl fun st f _ => ⟨f, ?_, sameMarks_refl f⟩
      show (((1, f) :: (tap st f).toList.map ((2, ·))).filter _).map Prod.snd = [f]
      cases tap st f <;> rfl
    · by_cases htwo : q = 2
      · subst htwo
        rcases h with hsame | hwhole
        · refine Or.inl fun st f _ => ⟨f, ?_, sameMarks_refl f⟩
          show (((1, f) :: (tap st f).toList.map ((2, ·))).filter _).map Prod.snd = [f]
          rw [hsame]
          rfl
        · refine Or.inr fun st f o ho hport => ?_
          rcases htap st f o ho with rfl | ⟨g, hg, rfl⟩
          · cases hport
          · exact hwhole st f g hg
      · refine Or.inr fun st f o ho hport => ?_
        rcases htap st f o ho with rfl | ⟨g, hg, rfl⟩
        · exact absurd hport.symm hone
        · exact absurd hport.symm htwo

/-- One flit for two, with the marks of the first or a packet of its own. -/
def ofPair {pair : Flit → Flit → Flit} {J : KernelFn Unit Flit} (hJ : J = rendezvous pair)
    (h : (∀ f g, SameMarks f (pair f g)) ∨ ∀ f g, WholeFrame (pair f g)) : FramingElement where
  State := Unit
  fn := J
  init := ()
  computed := StreamFn.rendezvous pair
  computes := hJ ▸ computes_rendezvous pair
  frames := keepsClean_rendezvous (h.imp_right fun hwhole f g _ => hwhole f g)

/-- `Pass` lets clean flits through. -/
def ofPass : FramingElement where
  State := PassState
  fn := pass
  init := passInit
  computed := _
  computes := acts_pass.computes passInit
  frames := by
    apply keepsClean_routed
    intro q
    by_cases hq : q = 1
    · subst hq
      refine Or.inl fun st f hf => ⟨f, ?_, sameMarks_refl f⟩
      show ((PassState.out st f).filter _).map Prod.snd = [f]
      rw [PassState.out, hf]
      rfl
    · refine Or.inr fun st f o ho hport => absurd ?_ hq
      change o ∈ PassState.out st f at ho
      unfold PassState.out at ho
      split at ho
      · cases ho
      · rw [List.mem_singleton.mp ho] at hport
        exact hport.symm

/-- `SHA1` puts out digests. -/
def ofSha1 (ctx : Sha1.Ctx) : FramingElement where
  State := Sha1State
  fn := sha1
  init := { ctx := Sha1.init ctx, started := false }
  computed := _
  computes := transduces_sha1.computes lazy_sha1 plain_sha1 _
  frames := by
    apply keepsClean_whole
    intro st f g hg
    change g ∈ Sha1State.out st f at hg
    unfold Sha1State.out at hg
    split at hg
    · rw [List.mem_singleton.mp hg]
      exact whole_digestFlit _
    · cases hg

end FramingElement

/-! ## The library -/

/-- What the source leaves open: the bytes behind a buffer, and what the memory holds in front of an
`.init` block. -/
structure Leftovers where
  outside : Flit → Nat → UInt8
  entries : Fin TABLE_SIZE → Entry
  rules : TcamState
  ctx : Sha1.Ctx
  counts : FlowCounterState

/-- All bytes are zero. -/
def Leftovers.zero : Leftovers where
  outside _ _ := 0
  entries _ := { key0 := 0, key1 := 0, action := 0, valid := 0 }
  rules := { key := fun _ => 0, mask := fun _ => 0, val := fun _ => 0, valid := fun _ => false }
  ctx := default
  counts := { key := fun _ => 0, cnt := fun _ => 0, valid := fun _ => false }

section
variable (m : Leftovers)

theorem whole_of_some {g f : Flit} (hg : WholeFrame g) (h : some g = some f) : WholeFrame f :=
  Option.some.inj h ▸ hg

theorem whole_of_ite {c : Prop} [Decidable c] {g f : Flit} (hg : WholeFrame g)
    (h : (if c then some g else none) = some f) : WholeFrame f := by
  split at h
  · exact whole_of_some hg h
  · cases h

theorem sameMarks_ite {c : Prop} [Decidable c] {f g : Flit} (hg : SameMarks f g) :
    SameMarks f (if c then g else f) := by
  split
  · exact hg
  · exact sameMarks_refl f

theorem acts_wire : ActsOnFlits wire (fun st _ => st) fun _ f => [(1, f)] :=
  acts_forwarding fun _ => rfl

theorem acts_countingWire : ActsOnFlits countingWire (fun n _ => n + 1) fun _ f => [(1, f)] :=
  acts_forwarding fun _ => rfl

/-- The elements that pass flits on as they are. -/
def plainElements : List (String × FramingElement) :=
  [("Pass", .ofPass),
    ("PassThrough", .ofOne (K := passThroughFn) acts_wire () (.inl fun _ => sameMarks_refl)),
    ("TestOnSoftware", .ofOne (K := testOnSoftware) acts_wire () (.inl fun _ => sameMarks_refl)),
    ("NoEchoLatencyTest", .ofOne (K := noEchoLatencyTest) acts_wire ()
      (.inl fun _ => sameMarks_refl)),
    ("RSA_modexp", .ofOne (K := rsaModexp) acts_wire () (.inl fun _ => sameMarks_refl)),
    ("SHA1_BlockGen", .ofOne (K := sha1BlockGen) acts_countingWire 0
      (.inl fun _ => sameMarks_refl)),
    ("PktLogger", .ofOne (K := pktLogger) acts_countingWire 0 (.inl fun _ => sameMarks_refl)),
    ("TestDumper", .ofOne (K := testDumper) acts_countingWire 0 (.inl fun _ => sameMarks_refl)),
    ("DelayTester", .ofOne (K := delayTester) acts_countingWire 0 (.inl fun _ => sameMarks_refl)),
    ("PortScanDetect", .ofOne (K := portScanDetect) (acts_forwarding fun _ => rfl) portScanInit
      (.inl fun _ => sameMarks_refl))]

/-- The elements that change a flit. -/
def changers : List (String × FramingElement) :=
  [("AppendHMAC", .ofOne (K := appendHmac) (acts_forwarding fun _ => rfl) appendHmacInit
      (.inl fun _ f => sameMarks_set f 3 _)),
    ("NexthopAlloc", .ofOne (K := nexthopAlloc) (acts_forwarding fun _ => rfl) 0
      (.inl fun _ f => sameMarks_set f 2 _)),
    ("NVGRE_Decap", .ofOne (K := nvgreDecap) (acts_forwarding fun _ => rfl) ()
      (.inl fun _ f => sameMarks_ite (sameMarks_set f 2 0))),
    ("NVGRE_Encap", .ofOne (K := nvgreEncap) (acts_forwarding fun _ => rfl) nvgreEncapInit
      (.inl fun _ f => sameMarks_ite (sameMarks_set f 2 _))),
    ("Regex", .ofOne (K := regex) (acts_forwarding fun _ => rfl) ()
      (.inl fun _ f => sameMarks_ite (sameMarks_set f 3 1))),
    ("PacketSetDIP",
      .ofOne acts_packetSetDip setDipInit (.inl fun st => sameMarks_setDip st.newDip)),
    ("RegTCAM", .ofOne acts_regTcam (regTcamInit m.rules) (.inl fun _ f => sameMarks_set f 2 _)),
    ("FlowCounter", .ofOne (K := flowCounter) (acts_forwarding fun _ => rfl)
      (flowCounterInit m.counts) (.inl fun _ f => sameMarks_set f 3 _)),
    ("AES_CTR", .ofOne acts_aesCtr (.keyed (Vector.replicate 16 0) (Vector.replicate 16 0))
      (.inl sameMarks_aesCtrFlit)),
    ("AES_ECB", .ofOne (K := aesEcb128) (acts_aesEcb _ _) aesEcbInit
      (.inl fun _ => sameMarks_ecbFlit _)),
    ("HashTable", .ofOne acts_hashTable (hashTableInit m.entries)
      (.inr fun st _ => whole_resultFlit st _ _)),
    ("SHA1", .ofSha1 m.ctx)]

/-- The elements with a second output. -/
def taps : List (String × FramingElement) :=
  [("Tee", .ofTap acts_tee () (.inl fun _ _ => rfl)),
    ("Fork", .ofTap (K := fork) (acts_tapping _ _) (0, 0) (.inl fun _ _ => rfl)),
    ("s2p", .ofTap (K := s2p) (acts_tapping _ _) () (.inl fun _ _ => rfl)),
    ("AllocResultAdapter", .ofTap (K := allocResultAdapter) (acts_tapping _ _) ()
      (.inl fun _ _ => rfl)),
    ("FlowTupleTest", .ofTap (K := flowTupleTest) (acts_tapping _ _) ()
      (.inr fun _ _ _ => whole_of_some (whole_single _))),
    ("NVGRE_Parser", .ofTap (K := nvgreParser) (acts_tapping _ _) ()
      (.inr fun _ _ _ => whole_of_ite (whole_single _))),
    ("NVGRE_Match_Pre", .ofTap (K := nvgreMatchPre) (acts_tapping _ _) ()
      (.inr fun _ _ _ => whole_of_ite (whole_single _))),
    ("TimeStamp_Parser", .ofTap (K := timeStampParser) (acts_tapping _ _) ()
      (.inr fun _ _ _ => whole_of_ite (whole_single _))),
    ("PriorityParser", .ofTap (K := priorityParser) (acts_tapping _ _) ()
      (.inr fun _ _ _ => whole_of_ite (whole_single _))),
    ("VLAN_Parser", .ofTap (K := vlanParser) (acts_tapping _ _) ()
      (.inr fun _ _ _ => whole_of_ite (whole_single _))),
    ("IP_Parser", .ofTap (K := ipParser m.outside) (acts_tapping _ _) ()
      (.inr fun _ _ _ => whole_of_some (whole_marked (by simp)))),
    ("TCP_Parser", .ofTap (K := tcpParser m.outside) (acts_tapping _ _) ()
      (.inr fun _ _ _ => whole_of_some (whole_single _))),
    ("UDP_Parser", .ofTap (K := udpParser m.outside) (acts_tapping _ _) ()
      (.inr fun _ _ _ => whole_of_some (whole_single _))),
    ("RoCE_Classifier", .ofTap (K := roceClassifier m.outside) (acts_tapping _ _) ()
      (.inr fun _ _ _ => whole_of_some (whole_single _))),
    ("FlowTupleParser", .ofTap (K := flowTupleParser m.outside) (acts_firstFlit _) firstInit
      (.inr fun _ _ _ => whole_of_ite (whole_marked (by simp)))),
    ("IPChecksum", .ofTap (K := ipChecksum m.outside) (acts_firstFlit _) firstInit
      (.inr fun _ _ _ => whole_of_ite (whole_marked (by simp))))]

/-- The elements that wait for two flits. -/
def pairings : List (String × FramingElement) :=
  [("Sync", .ofPair (J := sync) rfl (.inl fun _ _ => sameMarks_copied (by simp) _)),
    ("Add2048", .ofPair (J := add2048) rfl (.inr (whole_laneWise 4 (· + ·)))),
    ("Subtract1024", .ofPair (J := subtract1024) rfl (.inr (whole_laneWise 2 (· - ·)))),
    ("Mult1024", .ofPair (J := mult1024) rfl (.inr (whole_laneWise 1 (· * ·)))),
    ("Montgomery", .ofPair (J := montgomery) rfl (.inr (whole_laneWise 1 (· * ·)))),
    ("XorInputs", .ofPair (J := xorInputs) rfl (.inr (whole_laneWise 4 (· ^^^ ·)))),
    ("NVGRE_Match_Post", .ofPair (J := nvgreMatchPost) rfl (.inl fun f _ => sameMarks_set f 2 _))]

/-- The elements of the library that keep packets whole, by their types. -/
def framingElement (type : String) : Option FramingElement :=
  (plainElements ++ changers m ++ taps m ++ pairings).lookup type

/-- An element that may tear packets apart. -/
def LibraryElement.ofActs {σ : Type} {K : KernelFn σ Flit} {next : σ → Flit → σ}
    {out : σ → Flit → List (Nat × Flit)} (hK : ActsOnFlits K next out) (init : σ) :
    LibraryElement where
  State := σ
  fn := K
  init := init
  computed := _
  computes := hK.computes init

/-- The elements that choose a port for each flit. -/
def choosers : List (String × LibraryElement) :=
  [("FlitDemux", .ofActs (K := flitDemux) (acts_routing (by decide) _ _) ()),
    ("FlitDemuxByMeta", .ofActs (K := flitDemuxByMeta) (acts_routing (by decide) _ _) ()),
    ("HashDemux", .ofActs (K := hashDemux) (acts_routing (by decide) _ _) ()),
    ("RegexDispatcher", .ofActs (K := regexDispatcher) (acts_routing (by decide) _ _) ()),
    ("Demux2", .ofActs (K := demux2) (acts_routing (by decide) _ _) demux2Init)]

/-- **The library.** -/
def libraryElement (type : String) : Option LibraryElement :=
  ((framingElement m type).map (·.toLibraryElement)).or (choosers.lookup type)

end

/-! ## Topologies of library elements -/

/-- `a[q] -> [p]b`. -/
def link (a : String) (q : Int) (b : String) (p : Int) : ConnectionDecl where
  source := { nodeName := a, range := { lo := q, hi := q } }
  dest := { nodeName := b, range := { lo := p, hi := p } }

/-- The pseudo-elements for both cables. -/
def cables : List Kernel :=
  [{ name := "nic_in", type := "nic_in", special := .nicIn, nOutPorts := 1, autorun := true },
    { name := "nic_out", type := "nic_out", special := .nicOut, nInPorts := 1, autorun := true },
    { name := "tor_in", type := "tor_in", special := .torIn, nOutPorts := 1, autorun := true },
    { name := "tor_out", type := "tor_out", special := .torOut, nInPorts := 1, autorun := true }]

def dropKernel : Kernel :=
  { name := "Drop", type := "Drop", special := .drop, nInPorts := 1, autorun := true }

/-- The ports of the element are those of the kernel. -/
def Supplies (e : LibraryElement) (k : KernelHls) : Prop :=
  e.fn.inPorts.map Int.ofNat = k.inPorts.map (·.index) ∧
    e.fn.outPorts.map Int.ofNat = k.outPorts.map (·.index)

instance (e : LibraryElement) (k : KernelHls) : Decidable (Supplies e k) :=
  inferInstanceAs (Decidable (_ ∧ _))

/-- The library has all elements of the graph. -/
def Stocked (L : String → Option LibraryElement) (g : Graph) : Prop :=
  ∀ k ∈ g.kernels, k.special = .none → ∃ e ∈ L k.type, Supplies e (lowerKernel k)

instance (L : String → Option LibraryElement) (g : Graph) : Decidable (Stocked L g) :=
  inferInstanceAs (Decidable (∀ k ∈ g.kernels, k.special = .none → ∃ e ∈ L k.type, _))

section
variable {L : String → Option LibraryElement} {g : Graph} {platform : Platform}
  {userClockHz : Int} {sourcePath : String}

theorem stocked_kernel (h : Stocked L g) {bk : KernelHls}
    (hbk : bk ∈ (lowerToBackend g platform userClockHz sourcePath).kernels) :
    ∃ e ∈ L bk.elementType, Supplies e bk := by
  rw [(lowerToBackend_lists g platform userClockHz sourcePath).1] at hbk
  obtain ⟨k, hk, rfl⟩ := List.mem_map.mp hbk
  obtain ⟨hmem, hplain⟩ := List.mem_filter.mp hk
  exact h k hmem (by simpa using hplain)

theorem isSome_of_stocked (h : Stocked L g)
    (i : Fin (lowerToBackend g platform userClockHz sourcePath).kernels.length) :
    (L (lowerToBackend g platform userClockHz sourcePath).kernels[i].elementType).isSome := by
  obtain ⟨e, he, -⟩ := stocked_kernel h (List.getElem_mem i.isLt)
  exact Option.isSome_iff_exists.mpr ⟨e, he⟩

/-- The element for a kernel. -/
def elementFor (h : Stocked L g)
    (i : Fin (lowerToBackend g platform userClockHz sourcePath).kernels.length) :
    LibraryElement :=
  (L (lowerToBackend g platform userClockHz sourcePath).kernels[i].elementType).get
    (isSome_of_stocked h i)

theorem elementFor_mem (h : Stocked L g)
    (i : Fin (lowerToBackend g platform userClockHz sourcePath).kernels.length) :
    L (lowerToBackend g platform userClockHz sourcePath).kernels[i].elementType
      = some (elementFor h i) := (Option.some_get _).symm

theorem supplies_elementFor (h : Stocked L g)
    (i : Fin (lowerToBackend g platform userClockHz sourcePath).kernels.length) :
    Supplies (elementFor h i) (lowerToBackend g platform userClockHz sourcePath).kernels[i] := by
  obtain ⟨e, he, hports⟩ := stocked_kernel h (List.getElem_mem i.isLt)
  have hsame : elementFor h i = e := Option.some.inj ((elementFor_mem h i).symm.trans he)
  rw [hsame]
  exact hports

variable (platform userClockHz sourcePath) in
/-- The bodies of the library; a kernel serves signals if its instance is host-controlled. -/
def libraryBodies (h : Stocked L g) :
    Bodies (lowerToBackend g platform userClockHz sourcePath) where
  State i := (elementFor h i).State
  fn i := { (elementFor h i).fn with
    hasSignal := (lowerToBackend g platform userClockHz sourcePath).kernels[i].hasSignal }
  inPorts_eq i := (supplies_elementFor h i).1
  outPorts_eq i := (supplies_elementFor h i).2
  hasSignal_eq _ := rfl
  init i := (elementFor h i).init

/-- What puts out nothing. -/
def silence : StreamFn Flit where
  apply _ _ := []
  mono _ _ := List.prefix_rfl

/-- The function of the element with a name. -/
def libraryFns (L : String → Option LibraryElement) (g : Graph) (name : String) : StreamFn Flit :=
  ((g.find name).bind fun k => L k.type).elim silence (·.computed)

/-- Whether a function serves signals does not matter to what its bodies compute. -/
theorem Computes.of_hasSignal {σ : Type} {K : KernelFn σ Flit} {st : σ} {F : StreamFn Flit}
    {used : Nat → Prop} (h : Computes K st F used) (hasSignal : Bool) :
    Computes { K with hasSignal := hasSignal } st F used := by
  obtain ⟨P, hinit, hP⟩ := h
  refine ⟨P, hinit, fun q hq hu => ?_, hP.reads, hP.call, hP.sent⟩
  have hplain := hP.plain q hq hu
  exact ⟨hplain.mem, hplain.lt, hplain.plain, hplain.length_le, hplain.signal⟩

/-- **The bodies of the library compute what the library says.** -/
theorem computeAll_library (hg : Emulable g) (h : Stocked L g) :
    ComputeAll (lowerToBackend g platform userClockHz sourcePath)
      (libraryBodies platform userClockHz sourcePath h) (libraryFns L g) := by
  intro i
  obtain ⟨k, -, -, hbk, hfind⟩ := kernel_of_plan hg
    (List.getElem_mem (l := (lowerToBackend g platform userClockHz sourcePath).kernels) i.isLt)
  have htype : L k.type = some (elementFor h i) := by
    have hsame : (lowerToBackend g platform userClockHz sourcePath).kernels[i].elementType
        = k.type := congrArg KernelHls.elementType hbk
    rw [← hsame]
    exact elementFor_mem h i
  have hfn : libraryFns L g ((lowerToBackend g platform userClockHz sourcePath).kernels.get i).name
      = (elementFor h i).computed := by
    unfold libraryFns
    rw [show g.find ((lowerToBackend g platform userClockHz sourcePath).kernels.get i).name = some k
      from hfind, Option.bind_some, htype]
    rfl
  rw [hfn]
  exact ((elementFor h i).computes _).of_hasSignal _

end

/-! ## Chains of elements -/

/-- What an element with one input port makes of what comes in there, for its port `q`. -/
def through (F : StreamFn Flit) (q : Nat) (fs : List Flit) : List Flit :=
  F.apply (fun p => if p = 1 then fs else []) q

theorem through_mono (F : StreamFn Flit) (q : Nat) {fs gs : List Flit} (h : fs <+: gs) :
    through F q fs <+: through F q gs := by
  refine F.mono (fun p => ?_) q
  show (if p = 1 then fs else []) <+: if p = 1 then gs else []
  split
  · exact h
  · exact List.prefix_rfl

/-! ### Single elements -/

section
variable {σ : Type} {next : σ → Flit → σ}

/-- One flit for each, the same whatever the state has become. -/
theorem through_one {change : σ → Flit → Flit} {st : σ}
    (hsame : ∀ st' f, change (next st' f) = change st') (fs : List Flit) :
    through (StreamFn.routed { next := next, out := fun st f => [(1, change st f)] } st) 1 fs
      = fs.map (change st) :=
  apply_map (I := fun st' => change st' = change st) (fun st' f h => (hsame st' f).trans h)
    (fun _ _ h => h ▸ rfl) rfl _

theorem through_wire (st : σ) (fs : List Flit) :
    through (StreamFn.routed { next := next, out := fun _ f => [(1, f)] } st) 1 fs = fs :=
  (apply_map (g := id) (I := fun _ => True) (fun _ _ h => h) (fun _ _ _ => rfl) trivial _).trans
    (List.map_id fs)

/-- Port 1 of an element with a tap. -/
theorem through_tap (tap : σ → Flit → Option Flit) (st : σ) (fs : List Flit) :
    through (StreamFn.routed
      { next := next, out := fun st f => (1, f) :: (tap st f).toList.map ((2, ·)) } st) 1 fs
        = fs := by
  refine (apply_map (g := id) (I := fun _ => True) (fun _ _ h => h) ?_ trivial _).trans
    (List.map_id fs)
  intro st f _
  show (((1, f) :: (tap st f).toList.map ((2, ·))).filter _).map Prod.snd = [f]
  cases tap st f <;> rfl

end

/-- `e'` comes from an element whose only input edge is `e`. -/
def Hop (g : Graph) (e e' : Edge) : Prop :=
  e' ∈ g.edges ∧ fromElement g e' = true ∧ classOf g e' ≠ .dropped ∧
    (g.edges.filter fun d => d.dstKernel == e'.srcKernel) = [e] ∧ e.dstPort = 1

instance (g : Graph) (e e' : Edge) : Decidable (Hop g e e') :=
  inferInstanceAs (Decidable (_ ∧ _ ∧ _ ∧ _ ∧ _))

/-- What goes through the elements in front of the edges `es`, one after the other. -/
def along (F : String → StreamFn Flit) (es : List Edge) (fs : List Flit) : List Flit :=
  es.foldl (fun fs e => through (F e.srcKernel) e.srcPort.toNat fs) fs

theorem along_mono (F : String → StreamFn Flit) (es : List Edge) {fs gs : List Flit}
    (h : fs <+: gs) : along F es fs <+: along F es gs := by
  induction es generalizing fs gs with
  | nil => exact h
  | cons e es ih => exact ih (through_mono (F e.srcKernel) e.srcPort.toNat h)

section
variable {g : Graph} {F : String → StreamFn Flit} {h : Edge → List Flit} {e e' : Edge}

theorem Hop.inputHistory (hop : Hop g e e') :
    inputHistory g h e'.srcKernel = fun p => if p = 1 then h e else [] := by
  obtain ⟨-, -, -, honly, hport⟩ := hop
  funext p
  unfold OpenClickNP.inputHistory
  have hfind : (g.edges.find? fun d => d.dstKernel == e'.srcKernel && d.dstPort == (p : Int))
      = [e].find? fun d => d.dstPort == (p : Int) := by
    rw [← honly, List.find?_filter]
    congr 1
    funext d
    rw [Bool.eq_iff_iff, Bool.and_eq_true, decide_eq_true_iff]
  rw [hfind, List.find?_singleton, hport]
  by_cases hp : p = 1
  · subst hp
    rfl
  · have hne : ((1 : Int) == (p : Int)) = false := by
      rw [beq_eq_false_iff_ne]
      omega
    rw [hne, if_neg hp]
    rfl

theorem Follows.hop (hf : Follows g F h) (hop : Hop g e e') :
    h e' <+: through (F e'.srcKernel) e'.srcPort.toNat (h e) := by
  have hstep := hf e' hop.1 hop.2.1 hop.2.2.1
  rwa [hop.inputHistory] at hstep

theorem Means.hop (hm : Means g F h) (hop : Hop g e e') :
    h e' = through (F e'.srcKernel) e'.srcPort.toNat (h e) := by
  have hstep := hm e' hop.1 hop.2.1 hop.2.2.1
  rwa [hop.inputHistory] at hstep

/-- **What leaves a chain** is a first part of what goes through it. Induction on the edges. -/
theorem Follows.along (hf : Follows g F h) {es : List Edge} (hes : (e :: es).IsChain (Hop g)) :
    h (es.getLastD e) <+: along F es (h e) := by
  induction es generalizing e with
  | nil => exact List.prefix_rfl
  | cons e' es ih =>
    obtain ⟨hop, hrest⟩ := List.isChain_cons_cons.mp hes
    rw [List.getLastD_cons]
    exact (ih hrest).trans (along_mono F es (hf.hop hop))

theorem Means.along (hm : Means g F h) {es : List Edge} (hes : (e :: es).IsChain (Hop g)) :
    h (es.getLastD e) = along F es (h e) := by
  induction es generalizing e with
  | nil => rfl
  | cons e' es ih =>
    obtain ⟨hop, hrest⟩ := List.isChain_cons_cons.mp hes
    rw [List.getLastD_cons, ih hrest, hm.hop hop]
    rfl

/-- **What leaves a chain in a run** is a first part of what goes through it, and all of it when
nothing is under way. -/
theorem carried_along {L : String → Option LibraryElement} {platform : Platform}
    {userClockHz : Int} {sourcePath : String} (hg : Emulable g) (hL : Stocked L g)
    {t : NetState _ (Option StreamVar) Unit
      (libraryBodies platform userClockHz sourcePath hL).State Flit}
    (hr : Emulates (lowerToBackend g platform userClockHz sourcePath)
      (libraryBodies platform userClockHz sourcePath hL) t)
    {es : List Edge} (hes : (e :: es).IsChain (Hop g)) :
    carried g t (es.getLastD e) <+: along (libraryFns L g) es (carried g t e) ∧
      (AtRest (lowerToBackend g platform userClockHz sourcePath)
        (libraryBodies platform userClockHz sourcePath hL) t →
        carried g t (es.getLastD e) = along (libraryFns L g) es (carried g t e)) := by
  have hB : ComputeAll (lowerToBackend g platform userClockHz sourcePath)
      (libraryBodies platform userClockHz sourcePath hL) (libraryFns L g) :=
    computeAll_library hg hL
  refine ⟨(emulates_follows hg hB hr).along hes, fun hsettled => ?_⟩
  exact ((means_iff hg).mpr (emulates_solves hg hB hr hsettled)).along hes

end

end OpenClickNP
