import Mathlib.Tactic.FinCases
import OpenClickNP.Lib.Run
import OpenClickNP.Runtime.SignalRegs

/-!
# The signal call under interleaving

One host thread calls `dispatchSignal`; one kernel polls, computes and responds. Each register
access of the host and each of the kernel's three functions is one atomic step on a `SignalIO`
block on whose layout both sides agree.

The status word carries the whole handshake: `1` from publishing to polling, `0` while the
kernel computes, `2` from the response on. The invariant (`Inv`) follows it around one call. It
is kept as long as no poll loop gives up: a host that gives up still collects a response and
starts the next call while the kernel may be anywhere.
-/

namespace OpenClickNP

open Run

namespace SignalRpc

/-! ## Register accesses of the host -/

/-- The registers `dispatchSignal` writes; a 64-bit parameter is two of them. -/
inductive WriteReg where
  | cmd | sparam | lparamLo (i : Fin 7) | lparamHi (i : Fin 7) | status
deriving DecidableEq

/-- The registers `dispatchSignal` reads after the poll loop. -/
inductive ReadReg where
  | rspCmd | rspSparam | rspLparamLo (i : Fin 7) | rspLparamHi (i : Fin 7)
deriving DecidableEq

def writeReg (io : SignalIO) : WriteReg → UInt32 → SignalIO
  | .cmd, v => { io with cmd := v.toUInt16 }
  | .sparam, v => { io with sparam := v }
  | .lparamLo i, v =>
    { io with lparam := Function.update io.lparam i (joinHalves (highHalf (io.lparam i)) v) }
  | .lparamHi i, v =>
    { io with lparam := Function.update io.lparam i (joinHalves v (lowHalf (io.lparam i))) }
  | .status, v => { io with status := v }

def readReg (io : SignalIO) : ReadReg → UInt32
  | .rspCmd => io.rspCmd.toUInt32
  | .rspSparam => io.rspSparam
  | .rspLparamLo i => lowHalf (io.rspLparam i)
  | .rspLparamHi i => highHalf (io.rspLparam i)

def lparamWrites (req : SignalRequest) (i : Fin 7) : List (WriteReg × UInt32) :=
  [(.lparamLo i, lowHalf (req.lparam i)), (.lparamHi i, highHalf (req.lparam i))]

/-- The writes of `dispatchSignal` before the one that publishes the request. -/
def requestWrites (req : SignalRequest) : List (WriteReg × UInt32) :=
  (.cmd, req.cmd.toUInt32) :: (.sparam, req.sparam)
    :: (List.finRange 7).flatMap (lparamWrites req)

/-- The reads of `dispatchSignal` that make up the response. -/
def responseReads : List ReadReg :=
  .rspCmd :: .rspSparam
    :: (List.finRange 7).flatMap fun i => [.rspLparamLo i, .rspLparamHi i]

/-- The response assembled from the values of `responseReads`. -/
def assemble (vals : List UInt32) : SignalResponse where
  cmd := (vals.getD 0 0).toUInt16
  sparam := vals.getD 1 0
  lparam := fun i => joinHalves (vals.getD (2 + 2 * i + 1) 0) (vals.getD (2 + 2 * i) 0)

/-- The bound of the poll loop. -/
def POLLS : Nat := 10000

/-! ## States and steps -/

/-- Where the host thread is: between two calls, or in one with the accesses left to make. -/
inductive HostPc where
  | idle
  | writing (req : SignalRequest) (rest : List (WriteReg × UInt32))
  | polling (req : SignalRequest) (i : Nat)
  | reading (req : SignalRequest) (rest : List ReadReg) (vals : List UInt32)

/-- Where the kernel is: without a signal, with one polled, with its body run. -/
inductive KernelPc where
  | waiting
  | polled
  | answered (outevent : ClSignal)

/-- The system, with the state `σ` of the kernel's element. The last five fields only record
what has happened: the number of calls made, the published requests the kernel has not polled,
the call whose request it polled last, the runs of the body, the responses returned. -/
structure State (σ : Type) where
  io : SignalIO := {}
  host : HostPc := .idle
  kernel : KernelPc := .waiting
  event : ClSignal := {}
  element : σ
  calls : Nat := 0
  pending : List (Nat × SignalRequest) := []
  polledCall : Option Nat := none
  computed : List (Option Nat × ClSignal × ClSignal) := []
  returned : List (Nat × SignalRequest × SignalResponse) := []

inductive Action (σ : Type) where
  /-- The host calls `dispatchSignal`. -/
  | call (req : SignalRequest)
  /-- The host makes its next register access. -/
  | access
  /-- The kernel calls `poll_signal`. -/
  | poll
  /-- The kernel runs the `.signal` body. -/
  | signal
  /-- The kernel calls `respond_signal`. -/
  | respond
  /-- The kernel runs its handler, which may change the element's state. -/
  | handler (element : σ)

variable {σ : Type} (body : σ → ClSignal → σ × ClSignal)

/-- The host's next access. The write to `status` comes last and publishes the request; the
poll loop ends on the response bit or on its bound; the last read returns. -/
def access (s : State σ) : Option (State σ) :=
  match s.host with
  | .idle => none
  | .writing req [] =>
    some { s with
      io := writeReg s.io .status 0x1
      host := .polling req 0
      pending := s.pending ++ [(s.calls, req)] }
  | .writing req (w :: rest) =>
    some { s with io := writeReg s.io w.1 w.2, host := .writing req rest }
  | .polling req i =>
    if s.io.status &&& 0x2 ≠ 0 then some { s with host := .reading req responseReads [] }
    else if i + 1 < POLLS then some { s with host := .polling req (i + 1) }
    else some { s with host := .reading req responseReads [] }
  | .reading req [] vals =>
    some { s with
      host := .idle
      returned := s.returned ++ [(s.calls, req, assemble vals)] }
  | .reading req (r :: rest) vals =>
    some { s with host := .reading req rest (vals ++ [readReg s.io r]) }

def step (s : State σ) : Action σ → Option (State σ)
  | .call req =>
    match s.host with
    | .idle => some { s with host := .writing req (requestWrites req), calls := s.calls + 1 }
    | _ => none
  | .access => access s
  | .poll =>
    match s.kernel with
    | .waiting =>
      let (ok, io, event) := pollSignal s.io s.event
      if ok then
        some { s with
          io := io
          event := event
          kernel := .polled
          polledCall := s.pending.getLast?.map Prod.fst
          pending := s.pending.dropLast }
      else some s
    | _ => none
  | .signal =>
    match s.kernel with
    | .polled =>
      let (element, outevent) := body s.element s.event
      some { s with
        element := element
        kernel := .answered outevent
        computed := s.computed ++ [(s.polledCall, s.event, outevent)] }
    | _ => none
  | .respond =>
    match s.kernel with
    | .answered outevent =>
      some { s with io := respondSignal s.io outevent, kernel := .waiting }
    | _ => none
  | .handler element =>
    match s.kernel with
    | .waiting => some { s with element := element }
    | _ => none

/-! ## The two properties -/

/-- The response that carries a signal. -/
def responseOf (s : ClSignal) : SignalResponse where
  cmd := s.cmd
  sparam := s.sparam
  lparam := s.lparam

/-- Every response returned is the one the body computed for the request of the same call. -/
def Answered (s : State σ) : Prop :=
  ∀ r ∈ s.returned, ∃ c ∈ s.computed,
    c.1 = some r.1 ∧ Carries c.2.1 r.2.1 ∧ r.2.2 = responseOf c.2.2

/-- The block holds a request. -/
def Holds (io : SignalIO) (req : SignalRequest) : Prop :=
  io.cmd = req.cmd ∧ io.sparam = req.sparam ∧ io.lparam = req.lparam

/-- A published request that the kernel has not polled is still there to be polled. -/
def Kept (s : State σ) : Prop :=
  s.pending = [] ∨
    ∃ p, s.pending = [p] ∧ s.io.status &&& 0x1 ≠ 0 ∧ Holds s.io p.2

/-- The condition on a step: it is not the last turn of a poll loop with the response bit still
clear. -/
def PollAnswered (s : State σ) (a : Action σ) : Prop :=
  match a, s.host with
  | .access, .polling _ i => i + 1 < POLLS ∨ s.io.status &&& 0x2 ≠ 0
  | _, _ => True

/-! ## Accesses of a whole call -/

/-- The writes `rest` applied one after the other. -/
def writeAll (io : SignalIO) (rest : List (WriteReg × UInt32)) : SignalIO :=
  rest.foldl (fun io w => writeReg io w.1 w.2) io

theorem writeReg_status {r : WriteReg} (h : r ≠ .status) (io : SignalIO) (v : UInt32) :
    (writeReg io r v).status = io.status := by
  cases r with
  | status => exact absurd rfl h
  | _ => rfl

/-- The parameter writes for the indices `is` set these parameters and keep the ones that are
set already. Induction on the indices. -/
theorem writeAll_lparamWrites (req : SignalRequest) (is : List (Fin 7)) (io : SignalIO) :
    (writeAll io (is.flatMap (lparamWrites req))).cmd = io.cmd ∧
      (writeAll io (is.flatMap (lparamWrites req))).sparam = io.sparam ∧
      ∀ i, i ∈ is ∨ io.lparam i = req.lparam i →
        (writeAll io (is.flatMap (lparamWrites req))).lparam i = req.lparam i := by
  induction is generalizing io with
  | nil => exact ⟨rfl, rfl, fun i h => h.resolve_left List.not_mem_nil⟩
  | cons j is ih =>
    -- the block after both halves of parameter `j`
    obtain ⟨io', hio', hcmd, hsparam, hlparam⟩ : ∃ io' : SignalIO,
        writeAll io (lparamWrites req j) = io' ∧ io'.cmd = io.cmd ∧ io'.sparam = io.sparam ∧
          io'.lparam = Function.update io.lparam j (req.lparam j) := by
      refine ⟨_, rfl, rfl, rfl, ?_⟩
      simp [writeAll, lparamWrites, writeReg, lowHalf_joinHalves, joinHalves_split]
    have happ : writeAll io ((j :: is).flatMap (lparamWrites req))
        = writeAll io' (is.flatMap (lparamWrites req)) := by
      rw [List.flatMap_cons, ← hio']
      exact List.foldl_append
    obtain ⟨h1, h2, h3⟩ := ih io'
    rw [happ]
    refine ⟨h1.trans hcmd, h2.trans hsparam, fun i hi => h3 i ?_⟩
    by_cases hij : i = j
    · right
      rw [hlparam, hij, Function.update_self]
    · rcases hi with hmem | heq
      · exact .inl ((List.mem_cons.mp hmem).resolve_left hij)
      · right
        rw [hlparam, Function.update_of_ne hij, heq]

/-- Once its writes are made the block holds the request. -/
theorem holds_requestWrites (io : SignalIO) (req : SignalRequest) :
    Holds (writeAll io (requestWrites req)) req := by
  obtain ⟨hcmd, hsparam, hlparam⟩ := writeAll_lparamWrites req (List.finRange 7)
    (writeReg (writeReg io .cmd req.cmd.toUInt32) .sparam req.sparam)
  refine ⟨hcmd.trans ?_, hsparam, funext fun i => hlparam i (.inl (List.mem_finRange i))⟩
  simp [writeReg]

theorem requestWrites_ne_status (req : SignalRequest) :
    ∀ w ∈ requestWrites req, w.1 ≠ .status := by
  intro w hw
  simp only [requestWrites, lparamWrites, List.mem_cons, List.mem_flatMap, List.not_mem_nil,
    or_false] at hw
  rcases hw with rfl | rfl | ⟨i, -, rfl | rfl⟩ <;> exact WriteReg.noConfusion

/-- The response in the block. -/
def rspOf (io : SignalIO) : SignalResponse where
  cmd := io.rspCmd
  sparam := io.rspSparam
  lparam := io.rspLparam

/-- Reading all response registers of a block that does not change gives its response. -/
theorem assemble_responseReads (io : SignalIO) :
    assemble (responseReads.map (readReg io)) = rspOf io := by
  have hlparam : ∀ i : Fin 7,
      (responseReads.map (readReg io)).getD (2 + 2 * i) 0 = lowHalf (io.rspLparam i) ∧
        (responseReads.map (readReg io)).getD (2 + 2 * i + 1) 0 = highHalf (io.rspLparam i) := by
    intro i
    fin_cases i <;> exact ⟨rfl, rfl⟩
  unfold assemble rspOf
  congr 1
  · simp [responseReads, readReg]
  · funext i
    rw [(hlparam i).1, (hlparam i).2, joinHalves_split]

/-! ## The invariant -/

/-- Nothing is under way on the kernel's side. -/
def Quiet (s : State σ) : Prop :=
  s.kernel = .waiting ∧ s.pending = [] ∧ s.io.status &&& 0x1 = 0

/-- The body has been run for the current call, with the result `outevent`. -/
def Computed (s : State σ) (req : SignalRequest) (outevent : ClSignal) : Prop :=
  ∃ c ∈ s.computed, c.1 = some s.calls ∧ Carries c.2.1 req ∧ c.2.2 = outevent

/-- The current call has been answered and its response is in the block. -/
def Done (s : State σ) (req : SignalRequest) : Prop :=
  s.kernel = .waiting ∧ s.pending = [] ∧ s.io.status = 0x2 ∧
    ∃ outevent, Computed s req outevent ∧ rspOf s.io = responseOf outevent

/-- The four stages of a published request: to be polled, polled, computed, answered. -/
inductive Serving (s : State σ) (req : SignalRequest) : Prop
  | published (hk : s.kernel = .waiting) (hp : s.pending = [(s.calls, req)])
      (hs : s.io.status = 0x1) (hr : Holds s.io req)
  | polled (hk : s.kernel = .polled) (hp : s.pending = []) (hs : s.io.status = 0)
      (hc : s.polledCall = some s.calls) (he : Carries s.event req)
  | computed {outevent : ClSignal} (hk : s.kernel = .answered outevent) (hp : s.pending = [])
      (hs : s.io.status = 0) (hc : Computed s req outevent)
  | answered (hd : Done s req)

/-- Only an answered request shows the response bit. -/
theorem Serving.done_of_response {s : State σ} {req : SignalRequest} (h : Serving s req)
    (hst : s.io.status &&& 0x2 ≠ 0) : Done s req := by
  cases h with
  | published _ _ hs _ => exact absurd (by rw [hs]; decide) hst
  | polled _ _ hs _ _ => exact absurd (by rw [hs]; decide) hst
  | computed _ _ hs _ => exact absurd (by rw [hs]; decide) hst
  | answered hd => exact hd

/-- The stage does not depend on the point the host has come to. -/
theorem Serving.with_host {s : State σ} {req : SignalRequest} (h : Serving s req)
    (host : HostPc) : Serving { s with host := host } req := by
  cases h with
  | published hk hp hs hr => exact .published hk hp hs hr
  | polled hk hp hs hc he => exact .polled hk hp hs hc he
  | computed hk hp hs hc => exact .computed hk hp hs hc
  | answered hd => exact .answered hd

/-- What holds at each point of the host's call. -/
def HostFacts (s : State σ) : Prop :=
  match s.host with
  | .idle => Quiet s
  | .writing req rest =>
    Quiet s ∧ Holds (writeAll s.io rest) req ∧ ∀ w ∈ rest, w.1 ≠ .status
  | .polling req _ => Serving s req
  | .reading req rest vals =>
    Done s req ∧ vals ++ rest.map (readReg s.io) = responseReads.map (readReg s.io)

def Inv (s : State σ) : Prop := Answered s ∧ HostFacts s

theorem Done.quiet {s : State σ} {req : SignalRequest} (h : Done s req) : Quiet s := by
  obtain ⟨hk, hp, hs, -⟩ := h
  refine ⟨hk, hp, ?_⟩
  rw [hs]; decide

/-- The invariant gives the second property as well. -/
theorem Inv.kept {s : State σ} (h : Inv s) : Kept s := by
  obtain ⟨-, hfacts⟩ := h
  unfold HostFacts at hfacts
  split at hfacts
  · exact .inl hfacts.2.1
  · exact .inl hfacts.1.2.1
  · cases hfacts with
    | published hk hp hs hr =>
      refine .inr ⟨_, hp, ?_, hr⟩
      rw [hs]; decide
    | polled _ hp _ _ _ => exact .inl hp
    | computed _ hp _ _ => exact .inl hp
    | answered hd => exact .inl hd.quiet.2.1
  · exact .inl hfacts.1.quiet.2.1

/-! ## What one step preserves -/

section
variable {body} {s t : State σ}

theorem inv_call {req : SignalRequest} (hinv : Inv s) (h : step body s (.call req) = some t) :
    Inv t := by
  obtain ⟨hans, hfacts⟩ := hinv
  cases hhost : s.host with
  | idle =>
    simp only [step, hhost, Option.some.injEq] at h
    simp only [HostFacts, hhost] at hfacts
    subst h
    exact ⟨hans, hfacts, holds_requestWrites _ _, requestWrites_ne_status _⟩
  | _ => simp [step, hhost] at h

/-- An access of the host, by the point of the call it is made at. -/
theorem inv_access (hinv : Inv s) (hok : PollAnswered s .access)
    (h : step body s .access = some t) : Inv t := by
  obtain ⟨hans, hfacts⟩ := hinv
  cases hhost : s.host with
  | idle => simp [step, access, hhost] at h
  | writing req rest =>
    simp only [HostFacts, hhost] at hfacts
    obtain ⟨⟨hk, hp, hs⟩, hholds, hne⟩ := hfacts
    cases rest with
    | nil =>
      simp only [step, access, hhost, Option.some.injEq] at h
      subst h
      refine ⟨hans, Serving.published hk ?_ rfl hholds⟩
      simp [hp]
    | cons w rest =>
      simp only [step, access, hhost, Option.some.injEq] at h
      subst h
      refine ⟨hans, ⟨hk, hp, ?_⟩, hholds, fun w' hw' => hne w' (List.mem_cons_of_mem w hw')⟩
      rw [writeReg_status (hne w List.mem_cons_self), hs]
  | polling req i =>
    simp only [HostFacts, hhost] at hfacts
    simp only [PollAnswered, hhost] at hok
    simp only [step, access, hhost] at h
    by_cases hst : s.io.status &&& 0x2 ≠ 0
    · rw [if_pos hst, Option.some.injEq] at h
      subst h
      exact ⟨hans, hfacts.done_of_response hst, rfl⟩
    · rw [if_neg hst, if_pos (hok.resolve_right hst), Option.some.injEq] at h
      subst h
      exact ⟨hans, hfacts.with_host _⟩
  | reading req rest vals =>
    simp only [HostFacts, hhost] at hfacts
    obtain ⟨hd, hvals⟩ := hfacts
    cases rest with
    | nil =>
      simp only [step, access, hhost, Option.some.injEq] at h
      obtain ⟨hk, hp, hs, outevent, ⟨c, hc, hcall, hcarries, hout⟩, hrsp⟩ := hd
      rw [List.map_nil, List.append_nil] at hvals
      subst h
      refine ⟨fun r hr => ?_, hk, hp, by rw [hs]; decide⟩
      rcases List.mem_append.mp hr with hr | hr
      · exact hans r hr
      · rw [List.mem_singleton] at hr
        subst hr
        exact ⟨c, hc, hcall, hcarries, by rw [hvals, assemble_responseReads, hrsp, hout]⟩
    | cons r rest =>
      simp only [step, access, hhost, Option.some.injEq] at h
      subst h
      exact ⟨hans, hd, by simpa using hvals⟩

/-- The kernel can poll a request only while the host waits for its answer. -/
theorem inv_poll (hinv : Inv s) (h : step body s .poll = some t) : Inv t := by
  cases hkernel : s.kernel with
  | waiting =>
    by_cases hbit : s.io.status &&& 0x1 = 0
    · simp only [step, hkernel, pollSignal, if_pos hbit] at h
      rw [if_neg (by decide), Option.some.injEq] at h
      rwa [← h]
    · simp only [step, hkernel, pollSignal, if_neg hbit, if_true, Option.some.injEq] at h
      obtain ⟨hans, hfacts⟩ := hinv
      have hquiet : ∀ hq : Quiet s, False := fun hq => hbit hq.2.2
      subst h
      refine ⟨hans, ?_⟩
      cases hhost : s.host with
      | idle => simp only [HostFacts, hhost] at hfacts; exact (hquiet hfacts).elim
      | writing req rest => simp only [HostFacts, hhost] at hfacts; exact (hquiet hfacts.1).elim
      | reading req rest vals =>
        simp only [HostFacts, hhost] at hfacts; exact (hquiet hfacts.1.quiet).elim
      | polling req i =>
        simp only [HostFacts, hhost] at hfacts ⊢
        cases hfacts with
        | published hk hp hs hr => exact .polled rfl (by simp [hp]) rfl (by simp [hp]) hr
        | polled hk _ _ _ _ => rw [hk] at hkernel; cases hkernel
        | computed hk _ _ _ => rw [hk] at hkernel; cases hkernel
        | answered hd => exact (hquiet hd.quiet).elim
  | polled => simp [step, hkernel] at h
  | answered outevent => simp [step, hkernel] at h

/-- Off the waiting state the kernel serves the request the host polls for. -/
theorem serving_of_busy (hfacts : HostFacts s) (hbusy : s.kernel ≠ .waiting) :
    ∃ req i, s.host = .polling req i ∧ Serving s req := by
  cases hhost : s.host with
  | idle => simp only [HostFacts, hhost] at hfacts; exact absurd hfacts.1 hbusy
  | writing req rest => simp only [HostFacts, hhost] at hfacts; exact absurd hfacts.1.1 hbusy
  | reading req rest vals => simp only [HostFacts, hhost] at hfacts; exact absurd hfacts.1.1 hbusy
  | polling req i => simp only [HostFacts, hhost] at hfacts; exact ⟨req, i, rfl, hfacts⟩

theorem inv_signal (hinv : Inv s) (h : step body s .signal = some t) : Inv t := by
  obtain ⟨hans, hfacts⟩ := hinv
  cases hkernel : s.kernel with
  | waiting => simp [step, hkernel] at h
  | answered outevent => simp [step, hkernel] at h
  | polled =>
    obtain ⟨req, i, hhost, hserving⟩ := serving_of_busy hfacts (by simp [hkernel])
    simp only [step, hkernel, Option.some.injEq] at h
    subst h
    refine ⟨fun r hr => ?_, ?_⟩
    · obtain ⟨c, hc, hrest⟩ := hans r hr
      exact ⟨c, List.mem_append_left _ hc, hrest⟩
    · simp only [HostFacts, hhost]
      cases hserving with
      | published hk _ _ _ => rw [hk] at hkernel; cases hkernel
      | computed hk _ _ _ => rw [hk] at hkernel; cases hkernel
      | answered hd => rw [hd.1] at hkernel; cases hkernel
      | polled hk hp hs hc he =>
        exact .computed rfl hp hs ⟨_, List.mem_append_right _ List.mem_cons_self, hc, he, rfl⟩

theorem inv_respond (hinv : Inv s) (h : step body s .respond = some t) : Inv t := by
  obtain ⟨hans, hfacts⟩ := hinv
  cases hkernel : s.kernel with
  | waiting => simp [step, hkernel] at h
  | polled => simp [step, hkernel] at h
  | answered outevent =>
    obtain ⟨req, i, hhost, hserving⟩ := serving_of_busy hfacts (by simp [hkernel])
    simp only [step, hkernel, Option.some.injEq] at h
    subst h
    refine ⟨hans, ?_⟩
    simp only [HostFacts, hhost]
    cases hserving with
    | published hk _ _ _ => rw [hk] at hkernel; cases hkernel
    | polled hk _ _ _ _ => rw [hk] at hkernel; cases hkernel
    | answered hd => rw [hd.1] at hkernel; cases hkernel
    | computed hk hp hs hc =>
      rw [hk] at hkernel
      cases hkernel
      exact .answered ⟨rfl, hp, rfl, outevent, hc, rfl⟩

/-- A change of the element's state is none of the handshake's. -/
theorem inv_handler {element : σ} (hinv : Inv s) (h : step body s (.handler element) = some t) :
    Inv t := by
  obtain ⟨hans, hfacts⟩ := hinv
  cases hkernel : s.kernel with
  | polled => simp [step, hkernel] at h
  | answered outevent => simp [step, hkernel] at h
  | waiting =>
    simp only [step, hkernel, Option.some.injEq] at h
    subst h
    refine ⟨hans, ?_⟩
    cases hhost : s.host with
    | idle =>
      simp only [HostFacts, hhost] at hfacts
      exact ⟨rfl, hfacts.2⟩
    | writing req rest =>
      simp only [HostFacts, hhost] at hfacts
      exact ⟨⟨rfl, hfacts.1.2⟩, hfacts.2⟩
    | reading req rest vals =>
      simp only [HostFacts, hhost] at hfacts
      exact ⟨⟨rfl, hfacts.1.2⟩, hfacts.2⟩
    | polling req i =>
      simp only [HostFacts, hhost] at hfacts ⊢
      cases hfacts with
      | published hk hp hs hr => exact .published rfl hp hs hr
      | polled hk _ _ _ _ => rw [hk] at hkernel; cases hkernel
      | computed hk _ _ _ => rw [hk] at hkernel; cases hkernel
      | answered hd => exact .answered ⟨rfl, hd.2⟩

theorem inv_step {a : Action σ} (hinv : Inv s) (hok : PollAnswered s a)
    (h : step body s a = some t) : Inv t := by
  cases a with
  | call req => exact inv_call hinv h
  | access => exact inv_access hinv hok h
  | poll => exact inv_poll hinv h
  | signal => exact inv_signal hinv h
  | respond => exact inv_respond hinv h
  | handler element => exact inv_handler hinv h

end

/-! ## What the host does by itself -/

section
variable {ok : State σ → Action σ → Prop} {req : SignalRequest}

/-- The host makes its writes and publishes. Induction on the writes left. -/
theorem reaches_published
    (hok : ∀ (s : State σ) req rest, ok { s with host := .writing req rest } .access)
    (s : State σ) (rest : List (WriteReg × UInt32)) :
    Reaches (step body) ok { s with host := .writing req rest }
      { s with
        io := { writeAll s.io rest with status := 0x1 }
        host := .polling req 0
        pending := s.pending ++ [(s.calls, req)] } := by
  induction rest generalizing s with
  | nil => exact .one .access (hok s req []) rfl
  | cons w rest ih =>
    exact (Reaches.one .access (hok s req (w :: rest)) rfl).trans
      (ih { s with io := writeReg s.io w.1 w.2 })

/-- The host reads the response and returns. Induction on the reads left. -/
theorem reaches_returned
    (hok : ∀ (s : State σ) req rest vals, ok { s with host := .reading req rest vals } .access)
    (s : State σ) (rest : List ReadReg) (vals : List UInt32) :
    Reaches (step body) ok { s with host := .reading req rest vals }
      { s with
        host := .idle
        returned :=
          s.returned ++ [(s.calls, req, assemble (vals ++ rest.map (readReg s.io)))] } := by
  induction rest generalizing vals with
  | nil =>
    rw [List.map_nil, List.append_nil]
    exact .one .access (hok s req [] vals) rfl
  | cons r rest ih =>
    have hstep := ih (vals ++ [readReg s.io r])
    rw [List.append_assoc, List.singleton_append] at hstep
    exact (Reaches.one .access (hok s req (r :: rest) vals) rfl).trans hstep

/-- With the response bit clear the poll loop runs to its bound and the host goes on to read.
Induction on the polls left. -/
theorem reaches_gave_up (s : State σ) (hbit : s.io.status &&& 0x2 = 0) (n i : Nat)
    (hn : i + n + 1 = POLLS) :
    Reaches (step body) (fun _ _ => True) { s with host := .polling req i }
      { s with host := .reading req responseReads [] } := by
  induction n generalizing i with
  | zero =>
    refine .one .access trivial ?_
    simp only [step, access]
    rw [if_neg (by simpa using hbit), if_neg (by omega)]
  | succ n ih =>
    have hstep : step body { s with host := .polling req i } .access
        = some { s with host := .polling req (i + 1) } := by
      simp only [step, access]
      rw [if_neg (by simpa using hbit), if_pos (by omega)]
    exact (Reaches.one .access trivial hstep).trans (ih (i + 1) (by omega))

end

/-- **The call is correct as long as no poll loop gives up.** For every signal body, in every
run of calls, register accesses and kernel steps on which no poll loop ends without the
response bit, in every state reached, each response returned is the one the body computed for
the request of that call, and no published request is erased before it is polled. -/
theorem answered_and_kept (element : σ) (s : State σ)
    (hrun : Reaches (step body) PollAnswered { element := element } s) : Answered s ∧ Kept s := by
  have hstatus : (0 : UInt32) &&& 0x1 = 0 := by decide
  have hinit : Inv ({ element := element } : State σ) :=
    ⟨fun r hr => absurd hr List.not_mem_nil, rfl, rfl, hstatus⟩
  have hinv : Inv s := hrun.inv hinit fun _ _ _ hx hok hs => inv_step hx hok hs
  exact ⟨hinv.1, hinv.kept⟩

/-- A call that the kernel answers before the host gives up. -/
theorem answered_and_kept_one_call :
    ∃ s : State Unit, s.returned.map Prod.fst = [1] ∧ Answered s ∧ Kept s := by
  let body : Unit → ClSignal → Unit × ClSignal := fun u event => (u, { event with cmd := 7 })
  have hcall : Reaches (step body) PollAnswered { element := () }
      { element := (), calls := 1, host := .writing {} (requestWrites {}) } :=
    .one (.call {}) trivial rfl
  have hpublished := hcall.trans
    (reaches_published body (fun _ _ _ => trivial)
      { element := (), calls := 1 } (requestWrites {}))
  have hpolled := hpublished.tail .poll trivial rfl
  have hsignal := hpolled.tail .signal trivial rfl
  have hrespond := hsignal.tail .respond trivial rfl
  have hseen := hrespond.tail .access (.inl (by decide)) rfl
  have hrun := hseen.trans (reaches_returned body (fun _ _ _ _ => trivial) _ responseReads [])
  exact ⟨_, rfl, answered_and_kept body () _ hrun⟩

/-- A call that the kernel never polls: after the bound of the poll loop it returns `true` with
whatever the response registers hold. -/
theorem unanswered_call_returns :
    ¬ ∀ (σ : Type) (body : σ → ClSignal → σ × ClSignal) (element : σ) (s : State σ),
      Reaches (step body) (fun _ _ => True) { element := element } s → Answered s ∧ Kept s := by
  intro h
  let body : Unit → ClSignal → Unit × ClSignal := fun u event => (u, event)
  have hcall : Reaches (step body) (fun _ _ => True) { element := () }
      { element := (), calls := 1, host := .writing {} (requestWrites {}) } :=
    .one (.call {}) trivial rfl
  have hpublished := hcall.trans
    (reaches_published body (fun _ _ _ => trivial)
      { element := (), calls := 1 } (requestWrites {}))
  have hgave := hpublished.trans
    (reaches_gave_up body
      { element := (), calls := 1, io := { writeAll {} (requestWrites {}) with status := 0x1 },
        pending := [(1, {})] }
      (by decide) 9999 0 rfl)
  have hrun := hgave.trans (reaches_returned body (fun _ _ _ _ => trivial) _ responseReads [])
  -- the call has returned and the body has never been run
  obtain ⟨c, hc, -⟩ := (h Unit body () _ hrun).1 _ List.mem_cons_self
  exact absurd hc List.not_mem_nil

end SignalRpc

end OpenClickNP
