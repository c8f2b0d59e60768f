import OpenClickNP.Backend.CallChain
import OpenClickNP.Lib.RoundRobin

/-!
# Elements that merge their input ports

An element with several input ports and one output port serves, in each call, one of the ports
that have a flit ready, or none. What it passes on is then the flits it has taken, merged
(`Serving.merges`). It serves fairly when nobody waits while another is served twice
(`ServesFairly`); an element whose pointer moves as in round-robin arbitration does
(`servesFairly_of_rotates`).
-/

namespace OpenClickNP

open Run

section
variable {σ α : Type}

/-! ## What the elements promise -/

/-- Port `p` has a flit ready at the `i`-th call. -/
def ReadyAt (vs : List (View σ α)) (i p : Nat) : Prop :=
  ∃ v, vs[i]? = some v ∧ testPort v.inputPort p = true

/-- The call takes the flit of port `p`. -/
def ServesPort (K : KernelFn σ α) (v : View σ α) (p : Nat) : Prop := takenIn p v (K.handler v) ≠ []

def ServedAt (K : KernelFn σ α) (vs : List (View σ α)) (i p : Nat) : Prop :=
  ∃ v, vs[i]? = some v ∧ ServesPort K v p

/-- Between two services of a port, every other port that stays ready is served. -/
def ServesFairly (K : KernelFn σ α) (vs : List (View σ α)) : Prop :=
  ∀ (i j a b : Nat), i < j → b ∈ K.inPorts → b ≠ a → ServedAt K vs i a → ServedAt K vs j a →
    (∀ k, i < k → k ≤ j → ReadyAt vs k b) → ∃ k, i < k ∧ k < j ∧ ServedAt K vs k b

/-- A call that finds a port ready passes on one flit. -/
def KeepsBusy (K : KernelFn σ α) (vs : List (View σ α)) : Prop :=
  ∀ v ∈ vs, (∃ p ∈ K.inPorts, testPort v.inputPort p = true) →
    (setsOf 1 (K.handler v).ops).length = 1

/-- What has been passed on is what has been taken, each flit once: there is an order in which the
flits of all ports have been taken, and in which they have been passed on. -/
def Merged (s : KernelState σ α) : Prop :=
  ∃ log : List (Nat × α), s.sent 1 = log.map Prod.snd ∧
    ∀ p, s.taken p = (log.filter fun x => x.1 == p).map Prod.snd

/-- In a run from `s`, nothing is lost, doubled or made up, and the flits of each port keep their
order; and where the writes find room, the stream behind port 1 gets them all. -/
structure Merges (K : KernelFn σ α) (s : KernelState σ α) (as : List (KernelAction α)) : Prop where
  merged : Merged (exec (kstep K) s as)
  inOrder : ∀ p, (exec (kstep K) s as).taken p <+: (exec (kstep K) s as).arrived p
  written : Meets (kstep K) (FindsRoom 1) s as → Lossless 1 (exec (kstep K) s as)

/-! ## Calls that serve one port -/

/-- `choice` says which port a call serves: it takes the flit of that port and passes it on. -/
structure Serving (K : KernelFn σ α) (choice : View σ α → Option Nat) : Prop where
  noSignal : K.hasSignal = false
  taken : ∀ v p, takenIn p v (K.handler v) = if choice v = some p then [v.inputData p] else []
  sets : ∀ v, setsOf 1 (K.handler v).ops = ((choice v).map v.inputData).toList
  plain : Plain K 1

variable {K : KernelFn σ α} {choice : View σ α → Option Nat}

theorem Serving.serves_iff (h : Serving K choice) (v : View σ α) (p : Nat) :
    ServesPort K v p ↔ choice v = some p := by
  unfold ServesPort
  rw [h.taken]
  split
  · rename_i hp
    exact iff_of_true (List.cons_ne_nil _ _) hp
  · rename_i hp
    exact iff_of_false (fun hne => hne rfl) hp

/-- The ports served and the flits taken, call by call. -/
def serviceLog (choice : View σ α → Option Nat) (vs : List (View σ α)) : List (Nat × α) :=
  vs.filterMap fun v => (choice v).map fun p => (p, v.inputData p)

theorem map_snd_serviceLog (choice : View σ α → Option Nat) (vs : List (View σ α)) :
    (serviceLog choice vs).map Prod.snd
      = vs.flatMap fun v => ((choice v).map v.inputData).toList := by
  induction vs with
  | nil => rfl
  | cons v vs ih =>
    unfold serviceLog at ih ⊢
    rw [List.flatMap_cons, ← ih]
    cases hv : choice v with
    | none => simp [hv]
    | some p => simp [hv]

theorem filter_serviceLog (choice : View σ α → Option Nat) (vs : List (View σ α)) (p : Nat) :
    ((serviceLog choice vs).filter fun x => x.1 == p).map Prod.snd
      = vs.flatMap fun v => if choice v = some p then [v.inputData p] else [] := by
  induction vs with
  | nil => rfl
  | cons v vs ih =>
    unfold serviceLog at ih ⊢
    rw [List.flatMap_cons, ← ih]
    cases hv : choice v with
    | none => simp [hv]
    | some q =>
      by_cases hqp : q = p
      · subst hqp
        simp [hv]
      · simp [hv, hqp]

/-- **Such an element merges its ports in every run.** -/
theorem Serving.merges [Inhabited α] (h : Serving K choice) (state : σ) (inCap outCap : Nat → Int)
    (as : List (KernelAction α)) : Merges K (kinit state inCap outCap) as := by
  refine ⟨⟨serviceLog choice (handlerViews K (kinit state inCap outCap) as), ?_, fun p => ?_⟩,
    fun p => ?_, lossless_of_findsRoom h.plain state inCap outCap as⟩
  · rw [sent_exec h.noSignal rfl, map_snd_serviceLog]
    exact List.flatMap_congr fun v _ => h.sets v
  · rw [taken_exec h.noSignal rfl, filter_serviceLog]
    exact List.flatMap_congr fun v _ => h.taken v p
  · exact taken_begins_arrived (inv_exec (fun _ _ _ => inputs_step) as
      (inputs_kinit state inCap outCap)) p

/-! ## Round-robin pointers -/

/-- The ports `1`, …, `n` that have a flit ready. -/
def asks (n : Nat) (v : View σ α) : Fin n → Bool := fun i => testPort v.inputPort (i.val + 1)

/-- The calls move a pointer as round-robin arbitration among the ports `1`, …, `n` does, in the
state blocks that satisfy `inv`, which they keep. -/
structure Rotates (K : KernelFn σ α) (n : Nat) (inv : σ → Prop) (pointer : σ → Fin n) : Prop where
  inPorts : K.inPorts = List.range' 1 n
  kept : ∀ v, inv v.state → inv (K.handler v).state
  port : ∀ v p, ServesPort K v p → ∃ i : Fin n, p = i.val + 1
  step : ∀ v, inv v.state → RoundRobin.Step (pointer v.state) (asks n v)
    (fun i => ServesPort K v (i.val + 1)) (pointer (K.handler v).state)

/-- **Such an element serves fairly.** -/
theorem servesFairly_of_rotates {n : Nat} {inv : σ → Prop} {pointer : σ → Fin n}
    (h : Rotates K n inv pointer) {st : σ} {vs : List (View σ α)} (hchain : Chained K st vs)
    (hst : inv st) : ServesFairly K vs := by
  have hinv := hchain.inv h.kept hst
  rintro i j a b hij hb hne ⟨v, hv, ha⟩ ⟨w, hw, ha'⟩ hready
  obtain ⟨ia, rfl⟩ := h.port v a ha
  obtain ⟨ib, rfl⟩ : ∃ ib : Fin n, b = ib.val + 1 := by
    rw [h.inPorts, List.mem_range'_1] at hb
    exact ⟨⟨b - 1, by omega⟩, by show b = b - 1 + 1; omega⟩
  have hlen : j < vs.length := (List.getElem?_eq_some_iff.mp hw).1
  -- the pointer, the ports that ask and the ports served, at each call
  let r : Nat → Fin n := fun k => ((vs[k]?).map fun v => pointer v.state).getD (pointer st)
  let asked : Nat → Fin n → Bool := fun k => ((vs[k]?).map (asks n)).getD fun _ => false
  let served : Nat → Fin n → Prop := fun k p => ServedAt K vs k (p.val + 1)
  have hserved : ∀ {k : Nat} {u : View σ α}, vs[k]? = some u → ∀ p : Fin n,
      served k p ↔ ServesPort K u (p.val + 1) := by
    intro k u hu p
    constructor
    · rintro ⟨u', hu', hp⟩
      rw [hu, Option.some_inj] at hu'
      exact hu' ▸ hp
    · exact fun hp => ⟨u, hu, hp⟩
  have hstep : ∀ k, i ≤ k → k < j → RoundRobin.Step (r k) (asked k) (served k) (r (k + 1)) := by
    intro k _ hkj
    have hu : vs[k]? = some vs[k] := List.getElem?_eq_getElem (by omega)
    have hnext : vs[k + 1]? = some vs[k + 1] := List.getElem?_eq_getElem (by omega)
    have hstate := hchain.succ hu hnext
    have hcall := h.step vs[k] (hinv _ (List.getElem_mem _))
    have hr : r k = pointer vs[k].state := by simp only [r, hu, Option.map_some, Option.getD_some]
    have hr' : r (k + 1) = pointer (K.handler vs[k]).state := by
      simp only [r, hnext, Option.map_some, Option.getD_some, hstate]
    have hasked : asked k = asks n vs[k] := by
      simp only [asked, hu, Option.map_some, Option.getD_some]
    rw [hr, hr', hasked]
    exact ⟨fun g hg => hcall.isNext g ((hserved hu g).mp hg),
      fun g hg => hcall.moved g ((hserved hu g).mp hg),
      fun hnone => hcall.kept fun g hg => hnone g ((hserved hu g).mpr hg)⟩
  have hnext : RoundRobin.IsNext (r j) (asked j) ia := by
    have hcall := (h.step w (hinv _ (List.mem_of_getElem? hw))).isNext ia ha'
    simpa only [r, asked, hw, Option.map_some, Option.getD_some] using hcall
  have hasks : ∀ k, i < k → k ≤ j → asked k ib = true := by
    intro k hik hkj
    obtain ⟨u, hu, hbit⟩ := hready k hik hkj
    simp only [asked, hu, Option.map_some, Option.getD_some]
    exact hbit
  exact RoundRobin.served_between hstep hij ⟨v, hv, ha⟩ hnext
    (fun heq => hne (congrArg (fun i : Fin n => i.val + 1) heq)) hasks

end

end OpenClickNP
