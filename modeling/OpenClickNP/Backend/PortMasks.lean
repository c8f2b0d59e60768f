import OpenClickNP.Compiler.KernelNames
import OpenClickNP.Compiler.Lower
import OpenClickNP.Runtime.Flit

/-!
# Ports as bits

The generated function of a kernel keeps its ports in masks of 32 bits, of which the last one is
`PROC_BREAK`. No pass looks at the number of ports, so the ports of a kernel have bits of their own
exactly when there are at most thirty of them (`masksApart_iff`).
-/

namespace OpenClickNP

open Ast Eg Be

def PORT_NULL : PortMask := 0

def PROC_BREAK : PortMask := 0x80000000

def Be.Port.mask (p : Port) : PortMask := PORT_BIT p.index.toNat

/-- The ports have distinct bits, none of them reserved. -/
structure MasksApart (ports : List Port) : Prop where
  nodup : (ports.map Port.mask).Nodup
  ne_zero : ∀ p ∈ ports, p.mask ≠ PORT_NULL
  in_all : ∀ p ∈ ports, p.mask &&& PORT_ALL = p.mask
  no_break : ∀ p ∈ ports, p.mask &&& PROC_BREAK = 0

theorem PORT_BIT_injOn {i j : Nat} (hi : i < 32) (h : PORT_BIT i = PORT_BIT j) : i = j := by
  have hbit : (PORT_BIT i).getLsbD i = (PORT_BIT j).getLsbD i := by rw [h]
  rw [getLsbD_PORT_BIT, getLsbD_PORT_BIT] at hbit
  simpa [hi] using hbit

theorem PORT_BIT_free : ∀ i < 31, PORT_BIT i ≠ PORT_NULL ∧ PORT_BIT i &&& PORT_ALL = PORT_BIT i ∧
    PORT_BIT i &&& PROC_BREAK = 0 := by
  decide

/-- Port 31 is `PROC_BREAK`; the ports beyond it, for which the shift is undefined, come after
it. -/
theorem masksApart_portsUpTo (n : Int) : MasksApart (portsUpTo n) ↔ n ≤ 30 := by
  have hmask : ∀ p ∈ portsUpTo n, ∃ i < n.toNat, p.mask = PORT_BIT (i + 1) := by
    intro p hp
    obtain ⟨i, hi, rfl⟩ := List.mem_map.mp hp
    exact ⟨i, List.mem_range.mp hi, rfl⟩
  constructor
  · intro h
    by_contra hmany
    -- with more than thirty ports there is one with the number 31
    have hlast : ({ index := 31 } : Port) ∈ portsUpTo n :=
      List.mem_map.mpr ⟨30, List.mem_range.mpr (by omega), rfl⟩
    exact absurd (h.no_break _ hlast) (by decide)
  · intro h
    have hfree : ∀ p ∈ portsUpTo n, p.mask ≠ PORT_NULL ∧ p.mask &&& PORT_ALL = p.mask ∧
        p.mask &&& PROC_BREAK = 0 := by
      intro p hp
      obtain ⟨i, hi, hbit⟩ := hmask p hp
      rw [hbit]
      exact PORT_BIT_free (i + 1) (by omega)
    refine ⟨?_, fun p hp => (hfree p hp).1, fun p hp => (hfree p hp).2.1,
      fun p hp => (hfree p hp).2.2⟩
    rw [portsUpTo, List.map_map]
    refine List.Nodup.map_on ?_ List.nodup_range
    intro i hi j _ heq
    have hsame : PORT_BIT (i + 1) = PORT_BIT (j + 1) := heq
    have hi' := List.mem_range.mp hi
    exact Nat.succ.inj (PORT_BIT_injOn (by omega) hsame)

/-- **Ports of their own**: for every graph, the kernels of the plan have them exactly when none has
more than thirty inputs or outputs. -/
theorem masksApart_iff (g : Graph) (platform : Platform) (userClockHz : Int)
    (sourcePath : String) :
    (∀ k ∈ (lowerToBackend g platform userClockHz sourcePath).kernels,
        MasksApart k.inPorts ∧ MasksApart k.outPorts) ↔
      ∀ k ∈ g.kernels, k.special = .none → k.nInPorts ≤ 30 ∧ k.nOutPorts ≤ 30 := by
  rw [(lowerToBackend_lists g platform userClockHz sourcePath).1, List.forall_mem_map]
  simp only [List.mem_filter, beq_iff_eq, and_imp]
  refine forall₃_congr fun k _ _ => ?_
  exact and_congr (masksApart_portsUpTo k.nInPorts) (masksApart_portsUpTo k.nOutPorts)

/-- `.element Fan <31, 1>`, and an instance of it. -/
def fanModule : Module where
  stmts := [
    .elementDecl { name := "Fan", nInPorts := 31, nOutPorts := 1 },
    .instanceDecl { type := "Fan", name := "f" }]

/-- The graph passes every check; its input 31 is the bit of `PROC_BREAK`. -/
theorem masks_reserved :
    ¬ ∀ (m : Module) (fuel : Nat) (diags d : DiagnosticEngine) (g : Graph)
      (platform : Platform) (userClockHz : Int) (sourcePath : String),
      resolveModuleToGraph fuel m diags = some (true, d, g) →
      (analyzePortArity g d).1 = true →
      ∀ k ∈ (lowerToBackend g platform userClockHz sourcePath).kernels,
        MasksApart k.inPorts ∧ MasksApart k.outPorts := by
  intro h
  let g : Graph :=
    { kernels := [{ name := "f", type := "Fan", nInPorts := 31, nOutPorts := 1 }] }
  have hres : resolveModuleToGraph 1 fanModule {} = some (true, {}, g) := by decide
  have hmem : lowerKernel { name := "f", type := "Fan", nInPorts := 31, nOutPorts := 1 }
      ∈ (lowerToBackend g .u50Xdma 322265625 "").kernels := List.mem_singleton_self _
  have hports := (h fanModule 1 {} {} g .u50Xdma 322265625 "" hres (by decide) _ hmem).1
  exact absurd ((masksApart_portsUpTo 31).mp hports) (by decide)

end OpenClickNP
