import OpenClickNP.Lib.Windows
import OpenClickNP.Compiler.KernelNames
import OpenClickNP.Compiler.Lower
import OpenClickNP.Runtime.SignalRegs

/-!
# The register windows of the signal blocks

Four components agree on a signal block or do not: the resolver hands out `gid` and
`axilite_base` at a stride of 128 bytes, the HLS backend prints the base into the pragma of
`sig_io`, the signal table records it, and `dispatchSignal` accesses the registers.

* A block takes 136 bytes, so the windows of two host-controlled kernels overlap
  (`signalWindows_apart_iff`).
* `dispatchSignal` does not add the base, so no access reaches a window (`not_addressed`).
-/

namespace OpenClickNP

open ByteMem Eg Be Windows

/-! ## The accesses of `dispatchSignal` -/

/-- The writes of parameter `i`. -/
def lparamAccesses (req : SignalRequest) (i : Fin 7) : List (Nat × UInt32) :=
  [(0x10 + i.val * 8 + 0, lowHalf (req.lparam i)), (0x10 + i.val * 8 + 4, highHalf (req.lparam i))]

/-- The `write_register` calls of `dispatchSignal`, in order. -/
def dispatchWrites (req : SignalRequest) : List (Nat × UInt32) :=
  [(0x04, req.cmd.toUInt32), (0x08, req.sparam)]
    ++ (List.finRange 7).flatMap (lparamAccesses req) ++ [(0x00, 0x1)]

/-- The offsets of its `read_register` calls: the one of the poll loop, then the response. -/
def dispatchReads : List Nat :=
  [0x00, 0x44, 0x48]
    ++ (List.finRange 7).flatMap fun i => [0x50 + i.val * 8 + 0, 0x50 + i.val * 8 + 4]

/-- Every offset that a call accesses. -/
def dispatchOffsets (req : SignalRequest) : List Nat :=
  (dispatchWrites req).map (·.1) ++ dispatchReads

theorem publish_eq_dispatchWrites (m : Mem) (req : SignalRequest) :
    publish m req = (dispatchWrites req).foldl (fun m w => writeRegister m w.1 w.2) m := by
  rfl

/-- The response depends on the offsets read only. -/
theorem collect_congr {m m' : Mem}
    (h : ∀ off ∈ dispatchReads, readRegister m off = readRegister m' off) :
    collect m = collect m' := by
  have hlo : ∀ i : Fin 7, 0x50 + i.val * 8 ∈ dispatchReads := by decide
  have hhi : ∀ i : Fin 7, 0x50 + i.val * 8 + 4 ∈ dispatchReads := by decide
  have hlparam : ∀ i : Fin 7,
      joinHalves (readRegister m (0x50 + i.val * 8 + 4)) (readRegister m (0x50 + i.val * 8))
        = joinHalves (readRegister m' (0x50 + i.val * 8 + 4))
            (readRegister m' (0x50 + i.val * 8)) :=
    fun i => by rw [h _ (hlo i), h _ (hhi i)]
  simp only [collect, h 0x44 (by decide), h 0x48 (by decide), hlparam]

/-- `sizeof` of a structure with these fields. -/
def structSize (fields : List (Nat × Nat)) : Nat :=
  alignUp ((fields.zip (fieldOffsets 0 fields)).foldl (fun _ f => f.2 + f.1.1 * f.1.2) 0)
    ((fields.map (·.1)).foldl max 1)

/-- A window of `w` bytes holds the block and every access relative to it. -/
structure Covers (w : Nat) : Prop where
  block : structSize signalIOFields ≤ w
  accesses : ∀ req, ∀ off ∈ dispatchOffsets req, off + 4 ≤ w

theorem structSize_signalBlock : structSize signalIOFields = 0x88 := by decide

theorem dispatchOffsets_eq (req : SignalRequest) : dispatchOffsets req = dispatchOffsets {} := rfl

/-- The accesses end where the block ends. -/
theorem covers_iff {w : Nat} : Covers w ↔ 0x88 ≤ w := by
  constructor
  · intro h
    exact structSize_signalBlock ▸ h.block
  · intro hw
    refine ⟨structSize_signalBlock ▸ hw, fun req off hoff => ?_⟩
    have hmax : ∀ off ∈ dispatchOffsets {}, off + 4 ≤ 0x88 := by decide
    exact (hmax off (dispatchOffsets_eq req ▸ hoff)).trans hw

/-! ## The windows of a graph -/

/-- The condition under which the resolver hands out a slot. -/
def hostControlled (k : Kernel) : Bool := k.hostControl && k.special == .none

/-- The slots run at a stride of one and of `0x80`. Induction on the kernels; the counters are
general. -/
theorem slots_assignSlot (ks done : List Kernel) (gid base : Int) :
    let slotted := ((ks.foldl Resolver.assignSlot (done, gid, base)).1).filter hostControlled
    let n := (ks.filter hostControlled).length
    slotted.map (·.gid) = (done.filter hostControlled).map (·.gid) ++ strided gid 1 n ∧
      slotted.map (·.axiliteBase)
        = (done.filter hostControlled).map (·.axiliteBase) ++ strided base 0x80 n := by
  induction ks generalizing done gid base with
  | nil => simp [strided]
  | cons k ks ih =>
    rw [List.foldl_cons]
    by_cases hk : hostControlled k = true
    · have hslot : hostControlled { k with gid := gid, axiliteBase := base } = true := hk
      have hturn : Resolver.assignSlot (done, gid, base) k
          = (done ++ [{ k with gid := gid, axiliteBase := base }], gid + 1, base + 0x80) :=
        if_pos hk
      rw [hturn, List.filter_cons_of_pos hk]
      simp [ih, strided, hslot]
    · have hturn : Resolver.assignSlot (done, gid, base) k = (done ++ [k], gid, base) := if_neg hk
      rw [hturn, List.filter_cons_of_neg hk]
      simp [ih, hk]

theorem slots_assignSignalSlots (r : Resolver) :
    let slotted := r.assignSignalSlots.graph.kernels.filter hostControlled
    slotted.map (·.gid) = strided 0 1 slotted.length ∧
      slotted.map (·.axiliteBase) = strided 0x1000 0x80 slotted.length := by
  obtain ⟨hgid, hbase⟩ := slots_assignSlot r.graph.kernels [] 0 0x1000
  simp only [List.filter_nil, List.map_nil, List.nil_append] at hgid hbase
  have hlen := congrArg List.length hgid
  simp only [List.length_map, length_strided] at hlen
  rw [← hlen] at hgid hbase
  exact ⟨hgid, hbase⟩

section
variable {m : Ast.Module} {fuel : Nat} {diags d : DiagnosticEngine} {g : Graph}
  (h : resolveModuleToGraph fuel m diags = some (true, d, g))
include h

/-- The slots of a resolved graph. -/
theorem slots_resolved :
    (g.kernels.filter hostControlled).map (·.gid)
        = strided 0 1 (g.kernels.filter hostControlled).length ∧
      (g.kernels.filter hostControlled).map (·.axiliteBase)
        = strided 0x1000 0x80 (g.kernels.filter hostControlled).length := by
  obtain ⟨rf, -, -, -, rfl⟩ := resolver_of_resolves h
  exact slots_assignSignalSlots rf.synthesizeSpecials

theorem slots_apart_iff {w : Nat} (hw : Covers w) :
    (g.kernels.filter hostControlled).Pairwise
        (fun a b => a.gid ≠ b.gid ∧ Apart w a.axiliteBase b.axiliteBase) ↔
      (g.kernels.filter hostControlled).length ≤ 1 := by
  have hwide := covers_iff.mp hw
  obtain ⟨hgid, hbase⟩ := slots_resolved h
  have hdistinct : (g.kernels.filter hostControlled).Pairwise (fun a b => a.gid ≠ b.gid) := by
    have hnodup : ((g.kernels.filter hostControlled).map (·.gid)).Nodup :=
      hgid ▸ nodup_strided one_pos
    exact List.pairwise_map.mp hnodup
  have hwindows :
      (strided 0x1000 0x80 (g.kernels.filter hostControlled).length).Pairwise (Apart w) ↔
        (w : Int) ≤ 0x80 ∨ (g.kernels.filter hostControlled).length ≤ 1 :=
    pairwise_apart_strided_iff (by norm_num) (by omega)
  rw [← hbase, List.pairwise_map] at hwindows
  rw [List.pairwise_and_iff, hwindows, and_iff_right hdistinct]
  omega

/-- **When the windows are apart.** For every graph that resolves, and windows of any width that
holds the block and the accesses, the host-controlled kernels have distinct `gid`s and disjoint
windows if and only if there is at most one of them. -/
theorem signalWindows_apart_iff {w : Nat} (hw : Covers w) :
    (g.kernels.filter hostControlled).Pairwise
        (fun a b => a.gid ≠ b.gid ∧ Apart w a.axiliteBase b.axiliteBase) ↔
      (g.kernels.filter hostControlled).length ≤ 1 :=
  slots_apart_iff h hw

end

/-- `Pass @ x` and `Pass @ y`, both with a signal block. -/
def controlledModule : Ast.Module where
  stmts := [
    .elementDecl passElement,
    .instanceDecl { type := "Pass", name := "x", hostControl := true },
    .instanceDecl { type := "Pass", name := "y", hostControl := true },
    .connectionDecl (connect "x" "y")]

theorem signalWindows_apart_controlled :
    ∃ d g, resolveModuleToGraph 1 controlledModule {} = some (true, d, g) ∧
      ((g.kernels.filter hostControlled).Pairwise
          (fun a b => a.gid ≠ b.gid ∧ Apart 0x88 a.axiliteBase b.axiliteBase) ↔
        (g.kernels.filter hostControlled).length ≤ 1) := by
  have hrun : (resolveModuleToGraph 1 controlledModule {}).map Prod.fst = some true := by decide
  obtain ⟨⟨ok, d, g⟩, hres, hok⟩ := Option.map_eq_some_iff.mp hrun
  obtain rfl : ok = true := hok
  exact ⟨d, g, hres, signalWindows_apart_iff hres (w := 0x88) (covers_iff.mpr le_rfl)⟩

/-- The last eight bytes of the block of `x` are the first of the block of `y`. -/
theorem signalWindows_overlap :
    ¬ ∀ (m : Ast.Module) (fuel : Nat) (diags d : DiagnosticEngine) (g : Graph) (w : Nat),
      resolveModuleToGraph fuel m diags = some (true, d, g) → Covers w →
      (g.kernels.filter hostControlled).Pairwise
        (fun a b => a.gid ≠ b.gid ∧ Apart w a.axiliteBase b.axiliteBase) := by
  intro hall
  have hrun : (resolveModuleToGraph 1 controlledModule {}).map
      (fun out => (out.1, (out.2.2.kernels.filter hostControlled).length)) = some (true, 2) := by
    decide
  obtain ⟨⟨ok, d, g⟩, hres, hout⟩ := Option.map_eq_some_iff.mp hrun
  obtain ⟨rfl, htwo⟩ := Prod.mk.inj hout
  have hcovers : Covers 0x88 := covers_iff.mpr le_rfl
  have hle := (slots_apart_iff hres hcovers).mp (hall _ _ _ _ _ _ hres hcovers)
  rw [show (g.kernels.filter hostControlled).length = 2 from htwo] at hle
  exact absurd hle (by decide)

end OpenClickNP
