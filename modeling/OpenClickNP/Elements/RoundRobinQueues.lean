import OpenClickNP.Backend.PortService

/-!
# `FlitScheduler.clnp`, `TripleQueue.clnp`, `FlitMux2RR.clnp`

Three elements that merge their input ports. The first two look for a flit from the port behind
the one that was served last; the third alternates between two ports, and keeps its turn when it
has to serve the port whose turn it is not. All three are round-robin arbiters
(`Rotates`): each has a reading of its register as the port that was served last.
-/

namespace OpenClickNP

open Run

/-! ## A scan from a register -/

/-- The first port with a flit ready, of `n` ports from the one that `rr` names. -/
def scan (n : Nat) (inputPort : PortMask) (rr : Nat) : Option Nat :=
  (List.range n).findSome? fun off =>
    let p := (rr + off) % n + 1
    if testPort inputPort p then some p else none

/-- The `.state` block of `FlitScheduler` and of `TripleQueue`. -/
structure RrState where
  rr : UInt8

/-- The `.init` block. -/
def rrInit : RrState := { rr := 0 }

/-- The `.handler` block, for `n` ports. -/
def scanHandler (n : Nat) (v : View RrState Flit) : BodyResult RrState Flit :=
  match scan n v.inputPort v.state.rr.toNat with
  | some p =>
    { state := { rr := UInt8.ofNat (p % n) }
      ops := [.setOutputPort 1 (v.inputData p), .clearInputReady (PORT_BIT p)]
      ret := some PORT_ALL }
  | none => { state := v.state, ops := [], ret := some PORT_ALL }

/-- `FlitScheduler`. -/
def flitScheduler : KernelFn RrState Flit where
  inPorts := [1, 2, 3, 4]
  outPorts := [1]
  nodup_outPorts := nodup_one
  handler := scanHandler 4

/-- `TripleQueue`. -/
def tripleQueue : KernelFn RrState Flit where
  inPorts := [1, 2, 3]
  outPorts := [1]
  nodup_outPorts := nodup_one
  handler := scanHandler 3

section
variable {n : Nat} {m : PortMask} {rr p : Nat}

/-- The port found has a flit, and is met before the others that have one. -/
theorem scan_eq_some (h : scan n m rr = some p) :
    testPort m p = true ∧ ∃ off < n, p = (rr + off) % n + 1 ∧
      ∀ off' < off, testPort m ((rr + off') % n + 1) = false := by
  obtain ⟨before, off, after, hsplit, hoff, hbefore⟩ := List.findSome?_eq_some_iff.mp h
  have hlen : off = before.length := by
    have hget : (List.range n)[before.length]? = some off := by rw [hsplit]; simp
    obtain ⟨hlt, hget⟩ := List.getElem?_eq_some_iff.mp hget
    simpa using hget.symm
  have hlt : off < n := by
    rw [← List.mem_range, hsplit]
    simp
  simp only [] at hoff
  split at hoff
  · rename_i hbit
    cases hoff
    refine ⟨hbit, off, hlt, rfl, fun off' hoff' => ?_⟩
    have hmem : off' ∈ before := by
      have hget : (List.range n)[off']? = some off' := by
        rw [List.getElem?_eq_some_iff]
        exact ⟨by simp; omega, by simp⟩
      rw [hsplit, List.getElem?_append_left (by omega)] at hget
      exact List.mem_of_getElem? hget
    have hnone := hbefore off' hmem
    simp only [] at hnone
    split at hnone
    · cases hnone
    · rename_i hbit'
      exact Bool.eq_false_of_not_eq_true hbit'
  · cases hoff

/-- Nothing is found only where no port has a flit. -/
theorem scan_eq_none (h : scan n m rr = none) (off : Nat) (hoff : off < n) :
    testPort m ((rr + off) % n + 1) = false := by
  have hnone := List.findSome?_eq_none_iff.mp h off (List.mem_range.mpr hoff)
  simp only [] at hnone
  split at hnone
  · cases hnone
  · rename_i hbit
    exact Bool.eq_false_of_not_eq_true hbit

theorem scanHandler_of_some {v : View RrState Flit}
    (h : scan n v.inputPort v.state.rr.toNat = some p) : scanHandler n v =
      { state := { rr := UInt8.ofNat (p % n) }
        ops := [.setOutputPort 1 (v.inputData p), .clearInputReady (PORT_BIT p)]
        ret := some PORT_ALL } := by
  unfold scanHandler
  rw [h]

theorem scanHandler_of_none {v : View RrState Flit}
    (h : scan n v.inputPort v.state.rr.toNat = none) :
    scanHandler n v = { state := v.state, ops := [], ret := some PORT_ALL } := by
  unfold scanHandler
  rw [h]

end

/-- The port that a call of a scanning element serves. -/
def scanned (n : Nat) (v : View RrState Flit) : Option Nat := scan n v.inputPort v.state.rr.toNat

section
variable {K : KernelFn RrState Flit} {n : Nat}

/-- A call takes the flit of the port it serves, and passes it on. -/
theorem serving_of_scan (hhandler : K.handler = scanHandler n) (hsig : K.hasSignal = false)
    (hout : K.outPorts = [1]) (hsignal : ∀ v, setsOf 1 (K.signal v).ops = []) :
    Serving K (scanned n) where
  noSignal := hsig
  taken v p := by
    rw [hhandler]
    unfold scanned
    cases hscan : scan n v.inputPort v.state.rr.toNat with
    | none => simp [scanHandler_of_none hscan, takenIn]
    | some q =>
      obtain ⟨hbit, -⟩ := scan_eq_some hscan
      have hlt := lt_of_testPort hbit
      rw [scanHandler_of_some hscan]
      by_cases hqp : q = p
      · subst hqp
        simp [takenIn, PortOp.clears, testPort_PORT_BIT, hbit, hlt]
      · simp [takenIn, PortOp.clears, testPort_PORT_BIT, hqp, Ne.symm hqp]
  sets v := by
    rw [hhandler]
    unfold scanned
    cases hscan : scan n v.inputPort v.state.rr.toNat with
    | none => simp [scanHandler_of_none hscan, setsOf]
    | some q => simp [scanHandler_of_some hscan, setsOf]
  plain :=
    { mem := by rw [hout]; exact List.mem_singleton_self 1
      lt := by decide
      plain := by
        intro v op hop
        rw [hhandler] at hop
        unfold scanHandler at hop
        split at hop
        · simp only [List.mem_cons, List.not_mem_nil, or_false] at hop
          rcases hop with rfl | rfl <;> rfl
        · cases hop
      length_le := by
        intro v
        rw [hhandler]
        unfold scanHandler
        split <;> simp [setsOf]
      signal := hsignal }

/-- The port that was served last, counted from 0: the one before the one that `rr` names. -/
def lastScanned (hn : 0 < n) (st : RrState) : Fin n :=
  ⟨(st.rr.toNat + (n - 1)) % n, Nat.mod_lt _ hn⟩

/-- The scan meets the ports in the order of the rotation behind the last one served. -/
theorem partyAt_lastScanned (hn : 0 < n) (st : RrState) (off : Nat) :
    (RoundRobin.partyAt (lastScanned hn st) off).val = (st.rr.toNat + off) % n := by
  show ((st.rr.toNat + (n - 1)) % n + 1 + off) % n = (st.rr.toNat + off) % n
  have hsum : st.rr.toNat + (n - 1) + 1 + off = st.rr.toNat + off + n := by omega
  rw [Nat.add_assoc, Nat.mod_add_mod, ← Nat.add_assoc, hsum, Nat.add_mod_right]

/-- The pointer names the port that has just been served. -/
theorem lastScanned_moved (hn : 0 < n) (hn' : n < 256) (g : Fin n) :
    lastScanned hn { rr := UInt8.ofNat ((g.val + 1) % n) } = g := by
  apply Fin.ext
  have hlt : (g.val + 1) % n < n := Nat.mod_lt _ hn
  have hsmall : (UInt8.ofNat ((g.val + 1) % n)).toNat = (g.val + 1) % n := by
    rw [UInt8.toNat_ofNat']
    exact Nat.mod_eq_of_lt (by omega)
  show ((UInt8.ofNat ((g.val + 1) % n)).toNat + (n - 1)) % n = g.val
  have hsum : g.val + 1 + (n - 1) = g.val + n := by omega
  rw [hsmall, Nat.mod_add_mod, hsum, Nat.add_mod_right, Nat.mod_eq_of_lt g.isLt]

/-- **A scanning element is a round-robin arbiter.** -/
theorem rotates_of_scan (hn : 0 < n) (hn' : n < 256) (hS : Serving K (scanned n))
    (hhandler : K.handler = scanHandler n) (hin : K.inPorts = List.range' 1 n) :
    Rotates K n (fun _ => True) (lastScanned hn) where
  inPorts := hin
  kept _ _ := trivial
  port v p hp := by
    obtain ⟨-, off, -, rfl, -⟩ := scan_eq_some ((hS.serves_iff v p).mp hp)
    exact ⟨⟨_, Nat.mod_lt _ hn⟩, rfl⟩
  step v _ := by
    constructor
    · intro g hg
      obtain ⟨hbit, off, hlt, hport, hbefore⟩ := scan_eq_some ((hS.serves_iff v _).mp hg)
      have hg' : g = RoundRobin.partyAt (lastScanned hn v.state) off := by
        apply Fin.ext
        rw [partyAt_lastScanned]
        omega
      refine ⟨hbit, fun i hi => ?_⟩
      rw [hg', RoundRobin.rank_partyAt _ hlt]
      -- a port that is met earlier has no flit
      by_contra hearlier
      have hfree := hbefore _ (Nat.not_le.mp hearlier)
      rw [← partyAt_lastScanned hn, RoundRobin.partyAt_rank] at hfree
      rw [asks, hfree] at hi
      cases hi
    · intro g hg
      have hcall := scanHandler_of_some ((hS.serves_iff v _).mp hg)
      rw [hhandler, hcall]
      exact lastScanned_moved hn hn' g
    · intro hnone
      have hcall : scan n v.inputPort v.state.rr.toNat = none := by
        cases hscan : scan n v.inputPort v.state.rr.toNat with
        | none => rfl
        | some p =>
          have hp : ServesPort K v p := (hS.serves_iff v p).mpr hscan
          obtain ⟨-, off, -, rfl, -⟩ := scan_eq_some hscan
          exact absurd hp (hnone ⟨_, Nat.mod_lt _ hn⟩)
      rw [hhandler, scanHandler_of_none hcall]

/-- A scan that finds nothing has met every port. -/
theorem keepsBusy_of_scan (hS : Serving K (scanned n)) (hin : K.inPorts = List.range' 1 n)
    (vs : List (View RrState Flit)) : KeepsBusy K vs := by
  rintro v - ⟨p, hp, hbit⟩
  rw [hin, List.mem_range'_1] at hp
  rw [hS.sets]
  cases hscan : scanned n v with
  | some q => rfl
  | none =>
    -- the place at which the scan meets `p`
    have hn : 0 < n := by omega
    let i : Fin n := ⟨p - 1, by omega⟩
    have hplace := partyAt_lastScanned hn v.state (RoundRobin.rank (lastScanned hn v.state) i)
    rw [RoundRobin.partyAt_rank] at hplace
    have hfree := scan_eq_none hscan _ (RoundRobin.rank_lt (lastScanned hn v.state) i)
    rw [← hplace] at hfree
    have hi : i.val + 1 = p := by show p - 1 + 1 = p; omega
    rw [hi, hbit] at hfree
    cases hfree

end

theorem serving_flitScheduler : Serving flitScheduler (scanned 4) :=
  serving_of_scan rfl rfl rfl fun _ => rfl

theorem serving_tripleQueue : Serving tripleQueue (scanned 3) :=
  serving_of_scan rfl rfl rfl fun _ => rfl

/-! ## Two ports in turn -/

/-- The `.state` block of `FlitMux2RR`. -/
structure TurnState where
  turn : UInt8

/-- The `.init` block. -/
def turnInit : TurnState := { turn := 0 }

/-- The port that a call serves. -/
def turned (v : View TurnState Flit) : Option Nat :=
  if v.state.turn = 0 ∧ testPort v.inputPort 1 = true then some 1
  else if v.state.turn = 1 ∧ testPort v.inputPort 2 = true then some 2
  else if testPort v.inputPort 1 then some 1
  else if testPort v.inputPort 2 then some 2
  else none

/-- `set_output_port(1, read_input_port(PORT_p))`. -/
def passOn (v : View TurnState Flit) (p : Nat) : List (PortOp Flit) :=
  [.clearInputReady (PORT_BIT p), .setOutputPort 1 (v.inputData p)]

/-- The `.handler` block. -/
def flitMux2RRHandler (v : View TurnState Flit) : BodyResult TurnState Flit :=
  let one := testPort v.inputPort 1
  let two := testPort v.inputPort 2
  if v.state.turn = 0 ∧ one = true then
    { state := { turn := 1 }, ops := passOn v 1, ret := some PORT_ALL }
  else if v.state.turn = 1 ∧ two = true then
    { state := { turn := 0 }, ops := passOn v 2, ret := some PORT_ALL }
  else if one then { state := v.state, ops := passOn v 1, ret := some PORT_ALL }
  else if two then { state := v.state, ops := passOn v 2, ret := some PORT_ALL }
  else { state := v.state, ops := [], ret := some PORT_ALL }

/-- `FlitMux2RR`. -/
def flitMux2RR : KernelFn TurnState Flit where
  inPorts := [1, 2]
  outPorts := [1]
  nodup_outPorts := nodup_one
  handler := flitMux2RRHandler

/-- The turns that there are. -/
def IsTurn (st : TurnState) : Prop := st.turn = 0 ∨ st.turn = 1

/-- The port that was served last, counted from 0. -/
def lastTurned (st : TurnState) : Fin 2 := if st.turn = 0 then 1 else 0

theorem ops_flitMux2RR (v : View TurnState Flit) :
    (flitMux2RRHandler v).ops = ((turned v).map (passOn v)).getD [] := by
  unfold flitMux2RRHandler turned
  simp only []
  split
  · rfl
  · split
    · rfl
    · split
      · rfl
      · split <;> rfl

/-- The port served has a flit. -/
theorem turned_eq_some {v : View TurnState Flit} {p : Nat} (h : turned v = some p) :
    (p = 1 ∨ p = 2) ∧ testPort v.inputPort p = true := by
  unfold turned at h
  split at h
  · rename_i hcond
    cases h
    exact ⟨Or.inl rfl, hcond.2⟩
  · split at h
    · rename_i hcond
      cases h
      exact ⟨Or.inr rfl, hcond.2⟩
    · split at h
      · rename_i hcond
        cases h
        exact ⟨Or.inl rfl, hcond⟩
      · split at h
        · rename_i hcond
          cases h
          exact ⟨Or.inr rfl, hcond⟩
        · cases h

theorem serving_flitMux2RR : Serving flitMux2RR turned where
  noSignal := rfl
  taken v p := by
    unfold takenIn
    rw [show (flitMux2RR.handler v).ops = _ from ops_flitMux2RR v]
    cases hturned : turned v with
    | none => simp
    | some q =>
      obtain ⟨-, hbit⟩ := turned_eq_some hturned
      have hlt := lt_of_testPort hbit
      by_cases hqp : q = p
      · subst hqp
        simp [passOn, PortOp.clears, testPort_PORT_BIT, hbit, hlt]
      · simp [passOn, PortOp.clears, testPort_PORT_BIT, hqp, Ne.symm hqp]
  sets v := by
    rw [show (flitMux2RR.handler v).ops = _ from ops_flitMux2RR v]
    cases turned v <;> rfl
  plain :=
    { mem := List.mem_singleton_self 1
      lt := by decide
      plain := by
        intro v op hop
        rw [show (flitMux2RR.handler v).ops = _ from ops_flitMux2RR v] at hop
        cases hturned : turned v with
        | none =>
          rw [hturned] at hop
          cases hop
        | some q =>
          rw [hturned] at hop
          simp only [Option.map_some, Option.getD_some, passOn, List.mem_cons, List.not_mem_nil,
            or_false] at hop
          rcases hop with rfl | rfl <;> rfl
      length_le := by
        intro v
        rw [show (flitMux2RR.handler v).ops = _ from ops_flitMux2RR v]
        cases turned v
        · exact Nat.zero_le 1
        · exact Nat.le_refl 1
      signal := fun _ => rfl }

/-- **A call serves the port whose turn it is**, or else the other one. The cases are the two turns,
and which of the two ports have a flit. -/
theorem step_flitMux2RR (v : View TurnState Flit) (h : IsTurn v.state) :
    RoundRobin.Step (lastTurned v.state) (asks 2 v) (fun i => turned v = some (i.val + 1))
      (lastTurned (flitMux2RRHandler v).state) := by
  rcases h with hturn | hturn <;> cases h1 : testPort v.inputPort 1 <;>
    cases h2 : testPort v.inputPort 2 <;> constructor <;>
      simp [turned, flitMux2RRHandler, lastTurned, RoundRobin.IsNext, RoundRobin.rank, asks,
        Fin.forall_fin_two, hturn, h1, h2]

theorem isTurn_next (v : View TurnState Flit) (h : IsTurn v.state) :
    IsTurn (flitMux2RRHandler v).state := by
  unfold flitMux2RRHandler
  simp only []
  split
  · exact Or.inr rfl
  · split
    · exact Or.inl rfl
    · split
      · exact h
      · split <;> exact h

/-- **`FlitMux2RR` is a round-robin arbiter.** -/
theorem rotates_flitMux2RR : Rotates flitMux2RR 2 IsTurn lastTurned where
  inPorts := rfl
  kept := isTurn_next
  port v p hp := by
    obtain ⟨hport, -⟩ := turned_eq_some ((serving_flitMux2RR.serves_iff v p).mp hp)
    rcases hport with rfl | rfl
    · exact ⟨0, rfl⟩
    · exact ⟨1, rfl⟩
  step v h := by
    have hstep := step_flitMux2RR v h
    exact ⟨fun g hg => hstep.isNext g ((serving_flitMux2RR.serves_iff v _).mp hg),
      fun g hg => hstep.moved g ((serving_flitMux2RR.serves_iff v _).mp hg),
      fun hnone => hstep.kept fun g hg => hnone g ((serving_flitMux2RR.serves_iff v _).mpr hg)⟩

theorem keepsBusy_flitMux2RR (vs : List (View TurnState Flit)) : KeepsBusy flitMux2RR vs := by
  rintro v - ⟨p, hp, hbit⟩
  rw [serving_flitMux2RR.sets]
  cases hturned : turned v with
  | some q => rfl
  | none =>
    -- the last two tests are of the two ports alone
    unfold turned at hturned
    have hports : p = 1 ∨ p = 2 := by simpa [flitMux2RR] using hp
    rcases hports with rfl | rfl <;> grind

/-! ## The three elements -/

/-- What each of them does in every run: it merges its ports, it passes a flit on in each call that
finds one, and it serves fairly. -/
structure Arbitrates {σ : Type} (K : KernelFn σ Flit) (state : σ) : Prop where
  merges : ∀ inCap outCap as, Merges K (kinit state inCap outCap) as
  keepsBusy : ∀ (inCap outCap : Nat → Int) (as : List (KernelAction Flit)),
    KeepsBusy K (handlerViews K (kinit state inCap outCap) as)
  servesFairly : ∀ (inCap outCap : Nat → Int) (as : List (KernelAction Flit)),
    ServesFairly K (handlerViews K (kinit state inCap outCap) as)

theorem arbitrates_of_scan {K : KernelFn RrState Flit} {n : Nat} (hn : 0 < n) (hn' : n < 256)
    (hS : Serving K (scanned n)) (hhandler : K.handler = scanHandler n)
    (hin : K.inPorts = List.range' 1 n) : Arbitrates K rrInit where
  merges := hS.merges rrInit
  keepsBusy _ _ _ := keepsBusy_of_scan hS hin _
  servesFairly _ _ as :=
    servesFairly_of_rotates (rotates_of_scan hn hn' hS hhandler hin)
      (chained_handlerViews hS.noSignal rfl as) trivial

/-- **The three round-robin elements.** For all stream capacities and every run, whatever comes in
on which port at what time. -/
theorem roundRobinElements_arbitrate :
    Arbitrates flitScheduler rrInit ∧ Arbitrates tripleQueue rrInit ∧
      Arbitrates flitMux2RR turnInit := by
  refine ⟨?_, ?_, ?_⟩
  · exact arbitrates_of_scan (by decide) (by decide) serving_flitScheduler rfl rfl
  · exact arbitrates_of_scan (by decide) (by decide) serving_tripleQueue rfl rfl
  · exact
      { merges := serving_flitMux2RR.merges turnInit
        keepsBusy := fun _ _ _ => keepsBusy_flitMux2RR _
        servesFairly := fun _ _ as => servesFairly_of_rotates rotates_flitMux2RR
          (chained_handlerViews serving_flitMux2RR.noSignal rfl as) (Or.inl rfl) }

end OpenClickNP
