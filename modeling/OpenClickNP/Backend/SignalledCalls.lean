import OpenClickNP.Backend.Transduction

/-!
# Calls behind signals

An element whose state block only signals change answers a flit from the signals that have been
served before. In every run these are a first part of the signals posted (`served_of_replays`); the
other way round, for every list of signals and every flit there is a run that serves the signals
and then calls the handler with the flit (`Transduces.reaches_call`).
-/

namespace OpenClickNP

open Run

variable {σ τ α : Type} {K : KernelFn σ α} {s : KernelState σ α}

theorem posted_append (as bs : List (KernelAction α)) :
    posted (as ++ bs) = posted as ++ posted bs := List.filterMap_append

theorem posted_posts (history : List ClSignal) :
    posted (history.map fun req => (.post req : KernelAction α)) = history := by
  induction history with
  | nil => rfl
  | cons req history ih => exact congrArg (req :: ·) ih

theorem posted_kernels (n : Nat) : posted (List.replicate n (.kernel : KernelAction α)) = [] := by
  induction n with
  | zero => rfl
  | succ n ih => exact ih

/-- The kernel is in front of a call of the handler that finds the flit `f`, and no signal waits. -/
structure FrontOfCall (s : KernelState σ α) (f : α) : Prop where
  body : s.pc = .body
  noSignal : s.locals.hasSignal = false
  noRequest : s.requests = []
  ready : testPort s.locals.inputPort 1 = true
  found : s.locals.inputData 1 = f

/-- Signals are posted. -/
theorem exec_posts (history : List ClSignal) (s : KernelState σ α) :
    exec (kstep K) s (history.map .post) = { s with requests := s.requests ++ history } := by
  induction history generalizing s with
  | nil => simp [exec]
  | cons req history ih =>
    show exec (kstep K) { s with requests := s.requests ++ [req] } _ = _
    rw [ih]
    simp

/-- Nothing comes in from the kernel. -/
theorem arrived_kernels (n : Nat) (s : KernelState σ α) :
    (exec (kstep K) s (List.replicate n .kernel)).arrived = s.arrived := by
  induction n generalizing s with
  | zero => rfl
  | succ n ih => exact (ih (kernelStep K s)).trans arrived_kernelStep

/-- A kernel that no flit has come in to waits for one. -/
theorem waiting_of_idle (h : Idle s) (hinputs : Inputs s) (hnone : s.arrived 1 = []) :
    Waiting s := by
  have hports := hinputs 1
  rw [hnone] at hports
  obtain ⟨htaken, hq⟩ := List.append_eq_nil_iff.mp hports.symm
  obtain ⟨-, hlatched⟩ := List.append_eq_nil_iff.mp htaken
  refine ⟨h, ?_, hq⟩
  cases hbit : testPort s.locals.inputPort 1 with
  | false => rfl
  | true =>
    rw [latched, if_pos hbit] at hlatched
    cases hlatched

section
variable {apply : σ → ClSignal → σ} {proj : σ → τ} {M : Transducer τ (Option α) α}
  {harmless : ClSignal → Prop}

/-- A kernel that waits gets a flit, and goes on to the call. -/
theorem Transduces.frontOfCall (hK : Transduces K proj harmless M) (h : Waiting s) (f : α) :
    FrontOfCall (exec (kstep K) s (.produce 1 f :: List.replicate 3 .kernel)) f := by
  obtain ⟨-, hpc, hreq, -, -⟩ := produceStep_frame s 1 f
  have hfront := inFront_readFlit h.toIdle f
  have hrecv : kernelStep K (produceStep s 1 f)
      = { produceStep s 1 f with pc := .readIn [1] } := by
    unfold kernelStep
    rw [hpc.trans h.head]
    exact (recvStep_of_noRequest (hreq.trans h.noRequest)).trans (by rw [hK.inPorts])
  have hexec : exec (kstep K) s (.produce 1 f :: List.replicate 3 .kernel) = readFlit s f := by
    show kernelStep K (kernelStep K (kernelStep K (produceStep s 1 f))) = _
    rw [hrecv]
    rfl
  rw [hexec]
  exact ⟨rfl, hfront.noSignal, hfront.noRequest, hfront.latched, (readFlit_of_waiting h f).1⟩

variable [Inhabited α]

/-- **The state block is what the signals served so far make of the first one.** -/
theorem served_of_replays (hR : Replays K apply) (state : σ) (inCap outCap : Nat → Int)
    (as : List (KernelAction α)) : ∃ served,
      served ++ pending (exec (kstep K) (kinit state inCap outCap) as) = posted as ∧
      (exec (kstep K) (kinit state inCap outCap) as).locals.state = served.foldl apply state := by
  obtain ⟨served, hall, hstate⟩ := hR.exec (kinit state inCap outCap) as
  have hnone : pending (kinit state inCap outCap : KernelState σ α) = [] := rfl
  rw [hnone, List.nil_append] at hall
  exact ⟨served, hall, hstate⟩

/-- **There is a run to every call behind every list of signals.** The signals are posted and
served, then the flit comes in. -/
theorem Transduces.reaches_call (hK : Transduces K proj harmless M) (hR : Replays K apply)
    (hhas : K.hasSignal = true) (state : σ) (inCap outCap : Nat → Int) (history : List ClSignal)
    (f : α) : ∃ as, posted as = history ∧
      FrontOfCall (exec (kstep K) (kinit state inCap outCap) as) f ∧
      (exec (kstep K) (kinit state inCap outCap) as).locals.state
        = history.foldl apply state := by
  let s₀ : KernelState σ α := kinit state inCap outCap
  let s₁ : KernelState σ α := { s₀ with requests := s₀.requests ++ history }
  have hpost : exec (kstep K) s₀ (history.map .post) = s₁ := exec_posts history s₀
  obtain ⟨n, -, hidle⟩ := hK.flush (s := s₁) hhas rfl rfl (by decide : testPort PORT_ALL 1 = true)
  have hinputs : Inputs (exec (kstep K) s₁ (List.replicate n .kernel)) :=
    inv_exec (fun _ _ _ => inputs_step) _ (inputs_kinit state inCap outCap)
  have harrived : (exec (kstep K) s₁ (List.replicate n .kernel)).arrived 1 = [] :=
    congrFun (arrived_kernels n s₁) 1
  have hfront := hK.frontOfCall (waiting_of_idle hidle hinputs harrived) f
  let as : List (KernelAction α) := history.map .post ++ (List.replicate n .kernel ++
    .produce 1 f :: List.replicate 3 .kernel)
  have hexec : exec (kstep K) s₀ as = exec (kstep K)
      (exec (kstep K) s₁ (List.replicate n .kernel))
      (.produce 1 f :: List.replicate 3 .kernel) := by
    rw [exec_append, hpost, exec_append]
  have hposted : posted as = history := by
    rw [posted_append, posted_posts, posted_append, posted_kernels]
    exact List.append_nil _
  rw [← hexec] at hfront
  obtain ⟨served, hall, hstate⟩ := served_of_replays hR state inCap outCap as
  have hnone : pending (exec (kstep K) s₀ as) = [] := by
    rw [pending, hfront.noSignal, hfront.noRequest]
    rfl
  rw [hnone, List.append_nil, hposted] at hall
  refine ⟨as, hposted, hfront, ?_⟩
  rw [hstate, hall]

end

end OpenClickNP
