import OpenClickNP.Backend.CallChain

/-!
# Work that gets done

A function that always asks for its input ports finds, once nothing more comes in on them, all there
is in each call but perhaps the first: an iteration that has started before may have looked too
early. Where each such call takes one off the work that is left, a bounded number of kernel
operations does all of it (`Works.progress`), whatever the environment does in between.
-/

namespace OpenClickNP

open Run

section
variable {σ α : Type} {K : KernelFn σ α} {s t : KernelState σ α}

def KernelAction.isKernel {α : Type} : KernelAction α → Bool
  | .kernel => true
  | _ => false

/-- A flit of the port is latched, or there is none. -/
def LookedAt (s : KernelState σ α) (p : Nat) : Prop :=
  testPort s.locals.inputPort p = true ∨ (s.ins p).q = []

/-- No flit waits on a port that this turn of the loop has looked at in vain. -/
def Caught (K : KernelFn σ α) (s : KernelState σ α) : Prop :=
  match s.pc with
  | .readIn rest => ∀ p ∈ K.inPorts, p ∉ rest → LookedAt s p
  | .body => ∀ p ∈ K.inPorts, LookedAt s p
  | _ => True

/-- The kernel operations before the next body. -/
def stepsToBody (K : KernelFn σ α) : LoopPc → Nat
  | .body => 0
  | .readIn rest => rest.length + 1
  | .head => K.inPorts.length + 2
  | .writeOut rest => rest.length + K.inPorts.length + 3

/-! ## One kernel operation -/

theorem readPort_of_ne {p q : Nat} (hpq : p ≠ q) :
    testPort (readPort s q).locals.inputPort p = testPort s.locals.inputPort p ∧
      (readPort s q).ins p = s.ins p := by
  unfold readPort
  split
  · split
    · simp [testPort_or, testPort_PORT_BIT, hpq]
    · exact ⟨rfl, rfl⟩
  · exact ⟨rfl, rfl⟩

/-- After its turn to be read a port that is asked for has been looked at for good. -/
theorem lookedAt_readPort {p : Nat} (hp : p < 32) (hask : testPort s.locals.ret p = true) :
    LookedAt (readPort s p) p := by
  unfold LookedAt readPort
  cases hbit : testPort s.locals.inputPort p with
  | true => simp [hbit]
  | false =>
    rw [hask]
    simp only [Bool.not_false, Bool.and_self, if_true]
    split
    · simp [testPort_or, testPort_PORT_BIT, hp]
    · rename_i stream hread
      exact Or.inr (SwStream.readNb_eq_none hread)

/-- Every kernel operation but the body brings the next body nearer. -/
theorem stepsToBody_kernelStep (hsig : K.hasSignal = false) (hpc : s.pc ≠ .body) :
    stepsToBody K (kernelStep K s).pc + 1 = stepsToBody K s.pc := by
  unfold kernelStep
  split
  · rename_i hhead
    have hrecv : (recvStep K s).pc = .readIn K.inPorts := by simp [recvStep, hsig]
    rw [hhead, hrecv]
    rfl
  · rename_i hread
    rw [hread]
    rfl
  · rename_i q rest hread
    rw [hread]
    rfl
  · rename_i hbody
    exact absurd hbody hpc
  · rename_i hwrite
    rw [hwrite]
    simp only [stepsToBody, List.length_nil]
    omega
  · rename_i q rest hwrite
    rw [hwrite]
    simp only [stepsToBody, List.length_cons]
    omega

theorem caught_kernelStep (hlt : ∀ p ∈ K.inPorts, p < 32) (hsig : K.hasSignal = false)
    (hask : ∀ p ∈ K.inPorts, testPort s.locals.ret p = true) (hpc : s.pc ≠ .body)
    (h : Caught K s) : Caught K (kernelStep K s) := by
  unfold kernelStep
  split
  · -- every input port is still to be looked at
    have hrecv : recvStep K s = { s with pc := .readIn K.inPorts } := by simp [recvStep, hsig]
    rw [hrecv]
    exact fun p hp hno => absurd hp hno
  · rename_i hread
    simp only [Caught, hread] at h
    exact fun p hp => h p hp List.not_mem_nil
  · rename_i q rest hread
    simp only [Caught, hread] at h
    intro p hp hno
    by_cases hpq : p = q
    · subst hpq
      exact lookedAt_readPort (hlt p hp) (hask p hp)
    · obtain ⟨hbit, hins⟩ := readPort_of_ne (s := s) hpq
      show testPort (readPort s q).locals.inputPort p = true ∨ ((readPort s q).ins p).q = []
      rw [hbit, hins]
      exact h p hp (by simp [hpq, hno])
  · rename_i hbody
    exact absurd hbody hpc
  · trivial
  · trivial

/-- Where nothing comes in, the environment leaves the ports as the turn has found them. -/
theorem caught_env {a : KernelAction α} (ha : a ≠ .kernel) (hs : kstep K s a = some t)
    (hins : ∀ p ∈ K.inPorts, t.ins p = s.ins p) (h : Caught K s) : Caught K t := by
  obtain ⟨hlocals, hpc, -, -, -⟩ := env_step ha hs
  have hsame : ∀ p ∈ K.inPorts, LookedAt s p → LookedAt t p := by
    intro p hp hlooked
    unfold LookedAt at hlooked ⊢
    rwa [hlocals, hins p hp]
  unfold Caught at h ⊢
  rw [hpc]
  cases hs : s.pc with
  | readIn rest =>
    rw [hs] at h
    exact fun p hp hno => hsame p hp (h p hp hno)
  | body =>
    rw [hs] at h
    exact fun p hp => hsame p hp (h p hp)
  | head => trivial
  | writeOut rest => trivial

/-- The mask that all calls return stays. -/
theorem ret_step {m : PortMask} (hK : K.hasSignal = false) (hret : ∀ v, (K.handler v).ret = some m)
    (h : s.locals.ret = m) (hsig : s.locals.hasSignal = false) {a : KernelAction α}
    (hs : kstep K s a = some t) : t.locals.ret = m := by
  rcases records_step hs with ⟨-, -, rfl⟩ | ⟨hpc, -⟩
  · have hbody : (bodyStep K s).locals.ret = (bodyResult K s.locals).ret.getD s.locals.ret := by
      unfold bodyStep
      simp [hsig, runRecorded, runBody]
    rw [hbody, bodyResult_of_noSignal hsig, hret]
    rfl
  · by_cases ha : a = .kernel
    · subst ha
      cases hs
      rw [(sameBody_kernelStep hK (hpc rfl)).ret]
      exact h
    · rw [(env_step ha hs).1]
      exact h

/-! ## The rule -/

/-- `I n` holds in states in which at most `n` calls are needed that find all there is, and nothing
more comes in; `Done` is where they lead. -/
structure Works (K : KernelFn σ α) (ok : KernelState σ α → KernelAction α → Prop)
    (I : Nat → KernelState σ α → Prop) (Done : KernelState σ α → Prop) : Prop where
  lt : ∀ p ∈ K.inPorts, p < 32
  hasSignal : K.hasSignal = false
  noSignal : ∀ {n s}, I n s → s.locals.hasSignal = false
  asked : ∀ {n s}, I n s → ∀ p ∈ K.inPorts, testPort s.locals.ret p = true
  step : ∀ {n s a t}, I n s → ok s a → kstep K s a = some t → I n t
  rest : ∀ {n s a t}, I n s → ok s a → a ≠ .kernel → kstep K s a = some t →
    ∀ p ∈ K.inPorts, t.ins p = s.ins p
  call : ∀ {n s}, I (n + 1) s → s.pc = .body → (∀ p ∈ K.inPorts, LookedAt s p) →
    I n (bodyStep K s)
  finish : ∀ {s}, I 0 s → s.pc = .body → Done s
  stable : ∀ {n s a t}, I n s → ok s a → kstep K s a = some t → Done s → Done t

/-- At most `m` kernel operations are needed. An iteration that has started before the last flit
came in may be one too many. -/
def Outstanding (K : KernelFn σ α) (I : Nat → KernelState σ α → Prop)
    (Done : KernelState σ α → Prop) (m : Nat) (s : KernelState σ α) : Prop :=
  ∃ n, I n s ∧ (Done s ∨ iterationSteps K * (n + 1) + stepsToBody K s.pc ≤ m ∨
    Caught K s ∧ iterationSteps K * n + stepsToBody K s.pc ≤ m)

variable {ok : KernelState σ α → KernelAction α → Prop} {I : Nat → KernelState σ α → Prop}
  {Done : KernelState σ α → Prop}

theorem stepsToBody_bodyStep (h : s.locals.hasSignal = false) :
    stepsToBody K (bodyStep K s).pc + 1 = iterationSteps K ∧ Caught K (bodyStep K s) := by
  have hpc : (bodyStep K s).pc = .writeOut K.outPorts := by
    unfold bodyStep
    simp [h]
  unfold Caught
  rw [hpc]
  refine ⟨?_, trivial⟩
  show K.outPorts.length + K.inPorts.length + 3 + 1 = K.inPorts.length + K.outPorts.length + 4
  omega

/-- The next body is always less than an iteration away. -/
theorem stepsToBody_lt_step (hK : K.hasSignal = false) (hsig : s.locals.hasSignal = false)
    (h : stepsToBody K s.pc < iterationSteps K) {a : KernelAction α}
    (hs : kstep K s a = some t) : stepsToBody K t.pc < iterationSteps K := by
  by_cases ha : a = .kernel
  · subst ha
    cases hs
    by_cases hpc : s.pc = .body
    · have hbody : kernelStep K s = bodyStep K s := Option.some.inj (kstep_of_body hpc)
      have hnear := (stepsToBody_bodyStep (K := K) hsig).1
      rw [hbody]
      omega
    · have hnear := stepsToBody_kernelStep hK hpc
      omega
  · rw [(env_step ha hs).2.1]
    exact h

/-- A body is the end, or the operations that are needed get fewer by one. -/
theorem Works.body_outstanding (hK : Works K ok I Done) {m n : Nat} (hI : I n s)
    (hok : ok s .kernel) (hpc : s.pc = .body)
    (hleft : iterationSteps K * (n + 1) + stepsToBody K s.pc ≤ m ∨
      Caught K s ∧ iterationSteps K * n + stepsToBody K s.pc ≤ m) :
    Outstanding K I Done (m - 1) (bodyStep K s) := by
  have hs : kstep K s .kernel = some (bodyStep K s) := kstep_of_body hpc
  obtain ⟨hnear, hcaught⟩ := stepsToBody_bodyStep (K := K) (hK.noSignal hI)
  rw [hpc] at hleft
  simp only [stepsToBody, Nat.add_zero, Nat.mul_succ] at hleft
  cases n with
  | zero => exact ⟨0, hK.step hI hok hs, Or.inl (hK.stable hI hok hs (hK.finish hI hpc))⟩
  | succ n =>
    rcases hleft with hstale | ⟨hnow, hm⟩
    · -- the call may have looked too early, but the next one will not
      exact ⟨n + 1, hK.step hI hok hs, Or.inr (Or.inr ⟨hcaught, by omega⟩)⟩
    · unfold Caught at hnow
      rw [hpc] at hnow
      rw [Nat.mul_succ] at hm
      exact ⟨n, hK.call hI hpc hnow, Or.inr (Or.inr ⟨hcaught, by omega⟩)⟩

/-- **Each kernel operation brings the end nearer**, and nothing takes it away. -/
theorem Works.step_outstanding (hK : Works K ok I Done) {m : Nat} {a : KernelAction α}
    (h : Outstanding K I Done m s) (hok : ok s a) (hs : kstep K s a = some t) :
    Outstanding K I Done (m - if a.isKernel then 1 else 0) t := by
  obtain ⟨n, hI, hleft⟩ := h
  have hI' := hK.step hI hok hs
  rcases hleft with hdone | hleft
  · exact ⟨n, hI', Or.inl (hK.stable hI hok hs hdone)⟩
  by_cases ha : a = .kernel
  · subst ha
    simp only [KernelAction.isKernel, if_true]
    by_cases hpc : s.pc = .body
    · rw [kstep_of_body hpc] at hs
      rw [← Option.some.inj hs]
      exact hK.body_outstanding hI hok hpc hleft
    · have hnear := stepsToBody_kernelStep hK.hasSignal hpc
      have ht : t = kernelStep K s := (Option.some.inj hs).symm
      rw [ht] at hI' ⊢
      refine ⟨n, hI', Or.inr ?_⟩
      rcases hleft with hstale | ⟨hnow, hm⟩
      · exact Or.inl (by omega)
      · exact Or.inr ⟨caught_kernelStep hK.lt hK.hasSignal (hK.asked hI) hpc hnow, by omega⟩
  · have hcount : a.isKernel = false := by
      cases a with
      | kernel => exact absurd rfl ha
      | _ => rfl
    refine ⟨n, hI', Or.inr ?_⟩
    rw [(env_step ha hs).2.1, hcount]
    rcases hleft with hstale | ⟨hnow, hm⟩
    · exact Or.inl hstale
    · exact Or.inr ⟨caught_env ha hs (hK.rest hI hok ha hs) hnow, hm⟩

/-- **The progress rule.** From a state in which at most `n` calls are needed, every run with enough
kernel operations leads to the end. -/
theorem Works.progress (hK : Works K ok I Done) {n : Nat} (h : I n s)
    (hnear : stepsToBody K s.pc ≤ iterationSteps K) {as : List (KernelAction α)}
    (has : Meets (kstep K) ok s as)
    (hcount : iterationSteps K * (n + 2) ≤ as.countP KernelAction.isKernel) :
    Done (exec (kstep K) s as) := by
  have hstart : Outstanding K I Done (as.countP KernelAction.isKernel) s := by
    refine ⟨n, h, Or.inr (Or.inl ?_)⟩
    rw [show n + 2 = (n + 1) + 1 from rfl, Nat.mul_succ] at hcount
    omega
  have hend := Meets.progress KernelAction.isKernel (fun s a => by cases a <;> rfl)
    (fun m s a t h hok hs => hK.step_outstanding h hok hs) has hstart
  rw [Nat.sub_self] at hend
  obtain ⟨n, hI, hdone | hstale | ⟨-, hm⟩⟩ := hend
  · exact hdone
  · have hpos : 0 < iterationSteps K := Nat.succ_pos _
    rw [Nat.mul_succ] at hstale
    omega
  · obtain ⟨hwork, hhere⟩ := Nat.add_eq_zero_iff.mp (Nat.le_zero.mp hm)
    have hn : n = 0 := by
      rcases Nat.mul_eq_zero.mp hwork with hzero | hzero
      · cases hzero
      · exact hzero
    subst hn
    apply hK.finish hI
    cases hpc : (exec (kstep K) s as).pc with
    | body => rfl
    | _ =>
      rw [hpc] at hhere
      exact absurd hhere (Nat.succ_ne_zero _)

end

end OpenClickNP
