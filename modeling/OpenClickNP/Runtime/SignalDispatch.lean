import OpenClickNP.Runtime.SignalWindows

/-!
# From a kernel's name to its registers

`Element::signal` looks the name up in the signal table, `dispatchSignal` takes the IP handle of
the `gid` it finds and accesses offsets of the control bundle, and the pragma of the HLS backend
says where in the bundle the kernel's block lies. The table and the handles fit together
(`elementSignal_eq`); the offsets are those of the block itself, without the base that the pragma
gives it, so that every access ends before the window begins (`access_below_window`).
-/

namespace OpenClickNP

open ByteMem Eg Be Windows

/-! ## `emitInterfacePragmas` -/

/-- The pragmas the HLS backend emits for the interface of a kernel. -/
inductive Pragma where
  | axis (port : String)
  | sAxilite (port : String) (offset : Option Int)
  | apCtrlNone (port : String)
  | dataPack (name : String)
deriving DecidableEq

/-- `std::hex << v` for an `int`. -/
def hexText (v : Int) : String := String.ofList (Nat.toDigits 16 (v % 2 ^ 32).toNat)

def Pragma.text : Pragma → String
  | .axis port => "#pragma HLS INTERFACE axis port=" ++ port ++ "\n"
  | .sAxilite port none => "#pragma HLS INTERFACE s_axilite port=" ++ port ++ " bundle=control\n"
  | .sAxilite port (some offset) =>
    "#pragma HLS INTERFACE s_axilite port=" ++ port ++ " bundle=control offset=0x"
      ++ hexText offset ++ "\n"
  | .apCtrlNone port => "#pragma HLS INTERFACE ap_ctrl_none port=" ++ port ++ "\n"
  | .dataPack name => "#pragma HLS DATA_PACK variable=" ++ name ++ "\n"

def interfacePragmas (k : KernelHls) : List Pragma :=
  k.inPorts.map (fun p => .axis ("in_" ++ toString p.index))
    ++ k.outPorts.map (fun p => .axis ("out_" ++ toString p.index))
    ++ (if k.hasSignal then
          [.sAxilite "sig_io" (some k.axiliteBase), .sAxilite "return" none, .dataPack "sig_io"]
        else if k.autorun then [.apCtrlNone "return"]
        else [.sAxilite "return" none])

def emitInterfacePragmas (k : KernelHls) : String :=
  String.join ((interfacePragmas k).map Pragma.text)

/-- Where a pragma places the argument `sig_io`. -/
def Pragma.sigIoOffset : Pragma → Option Int
  | .sAxilite "sig_io" offset => offset
  | _ => none

/-- The first byte of the register window of a kernel's `sig_io`. -/
def windowStart (k : KernelHls) : Option Int := (interfacePragmas k).findSome? Pragma.sigIoOffset

theorem windowStart_of_hasSignal {k : KernelHls} (h : k.hasSignal = true) :
    windowStart k = some k.axiliteBase := by
  have haxis : ∀ (f : Port → String) (ps : List Port),
      (ps.map fun p => Pragma.axis (f p)).findSome? Pragma.sigIoOffset = none := by
    intro f ps
    simp [List.findSome?_eq_none_iff, Pragma.sigIoOffset]
  rw [windowStart, interfacePragmas, if_pos h, List.findSome?_append, List.findSome?_append,
    haxis, haxis]
  rfl

/-! ## The tables of the runtime -/

/-- `findSignalGid(kernel_name)`, on the table that `recordSignals` has copied. -/
def findSignalGid (signals : List SignalEntry) (kernelName : String) : Int :=
  match signals.find? (fun s => kernelName == s.kernel) with
  | some s => s.gid
  | none => -1

/-- The kernel whose IP handle `Platform::open` has stored under `gid`; `emplace` keeps the
first. -/
def axiliteBlock (signals : List SignalEntry) (gid : Int) : Option String :=
  (signals.find? (fun s => gid == s.gid)).map (·.kernel)

/-- `Platform::dispatchSignal`: the kernel behind the handle and the offsets accessed through it,
or `none` when there is no handle. -/
def dispatchSignal (signals : List SignalEntry) (gid : Int) (req : SignalRequest) :
    Option (String × List Nat) :=
  (axiliteBlock signals gid).map fun ip => (ip, dispatchOffsets req)

/-- `Element::signal`: the `gid` it dispatches to and what that accesses. -/
def elementSignal (signals : List SignalEntry) (name : String) (req : SignalRequest) :
    Option (Int × String × List Nat) :=
  let gid := findSignalGid signals name
  if gid < 0 then none else (dispatchSignal signals gid req).map fun acc => (gid, acc)

/-! ## The table of a plan -/

/-- The entry of a host-controlled kernel. -/
def signalEntryOf (k : Kernel) : SignalEntry where
  gid := k.gid
  kernel := k.name
  axiliteBase := k.axiliteBase

theorem foldl_addKernel_signalTable (ks : List Kernel) (b : Build) :
    (ks.foldl addKernel b).signalTable
      = b.signalTable ++ (ks.filter hostControlled).map signalEntryOf := by
  induction ks generalizing b with
  | nil => simp
  | cons k ks ih =>
    rw [List.foldl_cons, ih]
    unfold addKernel
    by_cases hspecial : k.special = .none
    · by_cases hcontrol : k.hostControl = true
      · simp [hspecial, hcontrol, hostControlled, signalEntryOf]
      · simp [hspecial, hcontrol, hostControlled]
    · simp [hspecial, hostControlled]

theorem signalTable_lowerToBackend (g : Graph) (platform : Platform) (userClockHz : Int)
    (sourcePath : String) :
    (lowerToBackend g platform userClockHz sourcePath).signalTable
      = (g.kernels.filter hostControlled).map signalEntryOf := by
  have hedges := foldl_addEdge g g.edges (g.kernels.foldl addKernel
    { platform := platform, userClockHz := userClockHz, sourcePath := sourcePath }) 0
  rw [lowerToBackend]
  simp only [Nat.cast_zero, add_zero] at hedges
  rw [hedges]
  simp [foldl_addKernel_signalTable]

/-- Of items with distinct keys, the search finds the one with the key. -/
theorem find?_map_of_nodup {α β κ : Type} [BEq κ] [LawfulBEq κ] (f : α → β) (key : α → κ)
    (key' : β → κ) (hkey : ∀ x, key' (f x) = key x) {l : List α} (hnodup : (l.map key).Nodup)
    {x : α} (hx : x ∈ l) : (l.map f).find? (fun y => key x == key' y) = some (f x) := by
  induction l with
  | nil => cases hx
  | cons y l ih =>
    obtain ⟨hfresh, hrest⟩ := List.nodup_cons.mp hnodup
    rw [List.map_cons, List.find?_cons, hkey]
    rcases List.mem_cons.mp hx with rfl | hx
    · simp
    · have hne : (key x == key y) = false := by
        rw [beq_eq_false_iff_ne]
        exact fun heq => hfresh (heq ▸ List.mem_map_of_mem hx)
      rw [hne]
      exact ih hrest hx

/-! ## What a call reaches -/

/-- The four bytes at `off` of the control bundle are in the register window of `k`, which starts
at the base that the table records for its `gid`. -/
def InWindow (signals : List SignalEntry) (k : Kernel) (off : Nat) : Prop :=
  ∃ base : Int, windowStart (lowerKernel k) = some base ∧
    (∃ e ∈ signals, e.gid = k.gid ∧ e.axiliteBase = base) ∧
    base ≤ off ∧ off + 4 ≤ base + structSize signalIOFields

/-- The host reaches the signal block of `k`: a call with its `gid` stays in its window, and a
call with its name goes to its `gid`. -/
structure Addressed (signals : List SignalEntry) (k : Kernel) : Prop where
  accesses : ∀ req, ∃ offs, dispatchSignal signals k.gid req = some (k.name, offs) ∧
    ∀ off ∈ offs, InWindow signals k off
  reaches : findSignalGid signals k.name = k.gid

section
variable {m : Ast.Module} {fuel : Nat} {diags d : DiagnosticEngine} {g : Graph}
  (h : resolveModuleToGraph fuel m diags = some (true, d, g))
  (platform : Platform) (userClockHz : Int) (sourcePath : String)
  {k : Kernel} (hk : k ∈ g.kernels) (hcontrol : hostControlled k = true)
include h hk hcontrol

theorem slot_bounds : 0 ≤ k.gid ∧ 0x1000 ≤ k.axiliteBase := by
  obtain ⟨hgid, hbase⟩ := slots_resolved h
  have hmem : k ∈ g.kernels.filter hostControlled := List.mem_filter.mpr ⟨hk, hcontrol⟩
  have hgidMem := List.mem_map_of_mem (f := (·.gid)) hmem
  have hbaseMem := List.mem_map_of_mem (f := (·.axiliteBase)) hmem
  rw [hgid] at hgidMem
  rw [hbase] at hbaseMem
  exact ⟨le_of_mem_strided (by norm_num) hgidMem, le_of_mem_strided (by norm_num) hbaseMem⟩

/-- A call with the `gid` of a kernel goes through the handle of that kernel. -/
theorem dispatchSignal_eq (req : SignalRequest) :
    dispatchSignal (lowerToBackend g platform userClockHz sourcePath).signalTable k.gid req
      = some (k.name, dispatchOffsets req) := by
  obtain ⟨hgid, -⟩ := slots_resolved h
  have hnodup : ((g.kernels.filter hostControlled).map (·.gid)).Nodup :=
    hgid ▸ nodup_strided one_pos
  have hfind := find?_map_of_nodup signalEntryOf (·.gid) (·.gid) (fun _ => rfl) hnodup
    (List.mem_filter.mpr ⟨hk, hcontrol⟩)
  rw [dispatchSignal, axiliteBlock, signalTable_lowerToBackend, hfind]
  rfl

/-- Under distinct names a call by name goes to the kernel. -/
theorem elementSignal_eq (hnames : ((g.kernels.filter hostControlled).map (·.name)).Nodup)
    (req : SignalRequest) :
    elementSignal (lowerToBackend g platform userClockHz sourcePath).signalTable k.name req
      = some (k.gid, k.name, dispatchOffsets req) := by
  have hfind := find?_map_of_nodup signalEntryOf (·.name) (·.kernel) (fun _ => rfl) hnames
    (List.mem_filter.mpr ⟨hk, hcontrol⟩)
  have hgid : findSignalGid (lowerToBackend g platform userClockHz sourcePath).signalTable k.name
      = k.gid := by
    rw [findSignalGid, signalTable_lowerToBackend, hfind]
    rfl
  have hnonneg := (slot_bounds h hk hcontrol).1
  rw [elementSignal, hgid, if_neg (by omega), dispatchSignal_eq h _ _ _ hk hcontrol]
  rfl

/-- The base is not added: every access ends before the window begins, although with the base it
would be inside. -/
theorem access_below_window (req : SignalRequest) {off : Nat} (hoff : off ∈ dispatchOffsets req) :
    off + 4 ≤ k.axiliteBase ∧
      k.axiliteBase + off + 4 ≤ k.axiliteBase + structSize signalIOFields := by
  have hbase := (slot_bounds h hk hcontrol).2
  have hlt := (covers_iff.mpr (le_refl 0x88)).accesses req off hoff
  rw [structSize_signalBlock]
  omega

theorem not_inWindow (signals : List SignalEntry) (req : SignalRequest) {off : Nat}
    (hoff : off ∈ dispatchOffsets req) : ¬ InWindow signals k off := by
  rintro ⟨base, hstart, -, hle, -⟩
  obtain ⟨hc, -⟩ := Bool.and_eq_true_iff.mp hcontrol
  rw [windowStart_of_hasSignal (k := lowerKernel k) hc] at hstart
  obtain rfl : k.axiliteBase = base := Option.some.inj hstart
  have hbelow := (access_below_window h hk hcontrol req hoff).1
  omega

theorem unaddressed :
    ¬ Addressed (lowerToBackend g platform userClockHz sourcePath).signalTable k := by
  intro haddr
  obtain ⟨offs, hdispatch, hoffs⟩ := haddr.accesses {}
  rw [dispatchSignal_eq h platform userClockHz sourcePath hk hcontrol] at hdispatch
  obtain ⟨-, rfl⟩ := Prod.mk.inj (Option.some.inj hdispatch)
  have hmem : 0x00 ∈ dispatchOffsets {} := by decide
  exact not_inWindow h hk hcontrol _ {} hmem (hoffs 0 hmem)

/-- **No host-controlled kernel is addressed.** In every graph that resolves, a call of
`dispatchSignal` with the `gid` of a host-controlled kernel misses the register window of that
kernel. -/
theorem not_addressed :
    ¬ Addressed (lowerToBackend g platform userClockHz sourcePath).signalTable k :=
  unaddressed h platform userClockHz sourcePath hk hcontrol

end

theorem not_addressed_controlled :
    ∃ d g, resolveModuleToGraph 1 controlledModule {} = some (true, d, g) ∧
      ∃ k ∈ g.kernels, k.name = "y" ∧
        ¬ Addressed (lowerToBackend g .u50Xdma 322265625 "").signalTable k := by
  have hrun : (resolveModuleToGraph 1 controlledModule {}).map
      (fun out => (out.1, out.2.2.kernels.map fun k => (k.name, hostControlled k)))
        = some (true, [("x", true), ("y", true)]) := by
    decide
  obtain ⟨⟨ok, d, g⟩, hres, hout⟩ := Option.map_eq_some_iff.mp hrun
  obtain ⟨rfl, hkernels⟩ := Prod.mk.inj hout
  have hy : ("y", true) ∈ g.kernels.map fun k => (k.name, hostControlled k) := by
    rw [show (g.kernels.map fun k => (k.name, hostControlled k)) = [("x", true), ("y", true)]
      from hkernels]
    decide
  obtain ⟨k, hk, hky⟩ := List.mem_map.mp hy
  obtain ⟨hname, hcontrol⟩ := Prod.mk.inj hky
  exact ⟨d, g, hres, k, hk, hname, not_addressed hres _ _ _ hk hcontrol⟩

/-- The status word that `dispatchSignal` writes for `x` is at `0x00`; its block is at `0x1000`. -/
theorem addressed_fails :
    ¬ ∀ (m : Ast.Module) (fuel : Nat) (diags d : DiagnosticEngine) (g : Graph),
      resolveModuleToGraph fuel m diags = some (true, d, g) →
      ∀ (platform : Platform) (userClockHz : Int) (sourcePath : String), ∀ k ∈ g.kernels,
        hostControlled k = true →
        Addressed (lowerToBackend g platform userClockHz sourcePath).signalTable k := by
  intro hall
  have hrun : (resolveModuleToGraph 1 controlledModule {}).map
      (fun out => (out.1, (out.2.2.kernels.filter hostControlled).length)) = some (true, 2) := by
    decide
  obtain ⟨⟨ok, d, g⟩, hres, hout⟩ := Option.map_eq_some_iff.mp hrun
  obtain ⟨rfl, htwo⟩ := Prod.mk.inj hout
  have hpos : 0 < (g.kernels.filter hostControlled).length := by
    rw [show (g.kernels.filter hostControlled).length = 2 from htwo]
    decide
  obtain ⟨k, hmem⟩ := List.exists_mem_of_length_pos hpos
  obtain ⟨hk, hcontrol⟩ := List.mem_filter.mp hmem
  exact unaddressed hres .u50Xdma 322265625 "" hk hcontrol
    (hall _ _ _ _ _ hres .u50Xdma 322265625 "" k hk hcontrol)

end OpenClickNP
