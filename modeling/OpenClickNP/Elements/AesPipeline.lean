import Mathlib.Data.Fin.Basic
import OpenClickNP.Backend.Network
import OpenClickNP.Lib.Deal

/-!
# `AES_Dispatch`, four lanes and `AES_Merge`

The dispatcher deals the flits to four lanes one after the other; the merger starts its scan at
the lane whose turn it is and takes the first lane that has a flit ready. Nothing ties a flit
to its place in the input, so the merger restores the order exactly as long as it finds the
lane whose turn it is (`aesPipeline_keeps_order`).

The lanes are any kernels that map flits one-to-one in order, `AES_ECB` among them.
-/

namespace OpenClickNP

open Run Deal

/-! ## The elements -/

/-- The `.handler` block of `AES_Dispatch`; the state is `rr`. -/
def aesDispatchHandler (v : View UInt8 Flit) : BodyResult UInt8 Flit where
  state :=
    if testPort v.inputPort 1 then UInt8.ofNat ((v.state.toNat + 1) % 4) else v.state
  ops :=
    if testPort v.inputPort 1 then
      [.clearInputReady (PORT_BIT 1), .setOutputPort (v.state.toNat + 1) (v.inputData 1)]
    else []
  ret := some (PORT_BIT 1)

def aesDispatch : KernelFn UInt8 Flit where
  inPorts := [1]
  outPorts := [1, 2, 3, 4]
  nodup_outPorts := by decide
  handler := aesDispatchHandler

/-- The port that the scan of `AES_Merge` looks at for an `off`. -/
def mergePort (rr : UInt8) (off : Nat) : Nat := (rr.toNat + off) % 4 + 1

/-- The `.handler` block of `AES_Merge`; the state is `rr`. -/
def aesMergeHandler (v : View UInt8 Flit) : BodyResult UInt8 Flit :=
  match (List.range 4).find? fun off => testPort v.inputPort (mergePort v.state off) with
  | some off =>
    let p := mergePort v.state off
    { state := UInt8.ofNat (p % 4)
      ops := [.setOutputPort 1 (v.inputData p), .clearInputReady (PORT_BIT p)]
      ret := some PORT_ALL }
  | none => { state := v.state, ops := [], ret := some PORT_ALL }

def aesMerge : KernelFn UInt8 Flit where
  inPorts := [1, 2, 3, 4]
  outPorts := [1]
  nodup_outPorts := nodup_one
  handler := aesMergeHandler

/-- What `AES_ECB` makes of a flit: the two blocks of the payload encrypted, the rest cleared but
for `sop` and `eop`. -/
def ecbFlit (encryptBlock : Vector UInt8 16 → Vector UInt8 16) (f : Flit) : Flit :=
  let lo := encryptBlock (Vector.ofFn fun i => f.raw[i.val])
  let hi := encryptBlock (Vector.ofFn fun i => f.raw[i.val + 16])
  let o : Flit := { raw := Vector.ofFn fun i =>
    if h : i.val < 16 then lo[i.val] else if h : i.val < 32 then hi[i.val - 16] else 0 }
  (o.setSop f.sop).setEop f.eop

/-- The `.handler` block of `AES_ECB`. -/
def aesEcbHandler {Key : Type} (encryptBlock : Key → Vector UInt8 16 → Vector UInt8 16)
    (v : View Key Flit) : BodyResult Key Flit where
  state := v.state
  ops :=
    if testPort v.inputPort 1 then
      [.clearInputReady (PORT_BIT 1),
        .setOutputPort 1 (ecbFlit (encryptBlock v.state) (v.inputData 1))]
    else []
  ret := some (PORT_BIT 1)

/-- `AES_ECB`, for the block cipher under its round keys; a signal sets the key. -/
def aesEcb {Key : Type} (encryptBlock : Key → Vector UInt8 16 → Vector UInt8 16)
    (setKey : ClSignal → Key → Key) : KernelFn Key Flit where
  inPorts := [1]
  outPorts := [1]
  nodup_outPorts := nodup_one
  hasSignal := true
  handler := aesEcbHandler encryptBlock
  signal := fun v =>
    { state := setKey v.event v.state, ops := [], ret := none, outevent := v.event }

/-! ## Lanes -/

/-- A kernel that maps flits one-to-one in order: what it has written to its output stream is at
any time a first part of what it has taken, mapped. -/
def MapsInOrder {σ : Type} (K : KernelFn σ Flit) (state : σ) (g : Flit → Flit) : Prop :=
  ∀ (inCap outCap : Nat → Int) (t : KernelState σ Flit),
    Reaches (kstep K) Smooth (kinit state inCap outCap) t → emitted 1 t <+: (t.taken 1).map g

section
variable {Key : Type} {encryptBlock : Key → Vector UInt8 16 → Vector UInt8 16}
  {setKey : ClSignal → Key → Key}

theorem plain_aesEcb : Plain (aesEcb encryptBlock setKey) 1 :=
  plain_of_ready (List.mem_singleton_self 1) (by decide) (fun _ => rfl)
    (fun _ => List.forall_mem_singleton.mpr rfl) (fun _ => Nat.le_refl 1) fun _ => rfl

/-- Without signals the key stays, and every flit taken is sent encrypted at once. -/
theorem aesEcb_mapsInOrder (key : Key) :
    MapsInOrder (aesEcb encryptBlock setKey) key (ecbFlit (encryptBlock key)) := by
  intro inCap outCap t hrun
  refine (emitted_begins_sent plain_aesEcb (fun _ _ hok => hok.1 1) hrun).trans ?_
  have hinv : t.locals.state = key ∧ t.sent 1 = (t.taken 1).map (ecbFlit (encryptBlock key)) ∧
      t.locals.hasSignal = false ∧ t.requests = [] := by
    refine hrun.inv (P := fun t => t.locals.state = key ∧
      t.sent 1 = (t.taken 1).map (ecbFlit (encryptBlock key)) ∧
      t.locals.hasSignal = false ∧ t.requests = []) ⟨rfl, rfl, rfl, rfl⟩ ?_
    rintro s a u ⟨hkey, hsent, hsig, hreq⟩ hok hs
    have hops : ∀ v : View Key Flit, v.state = key →
        ((aesEcb encryptBlock setKey).handler v).ops = if testPort v.inputPort 1 then
          [.clearInputReady (PORT_BIT 1),
            .setOutputPort 1 (ecbFlit (encryptBlock key) (v.inputData 1))]
          else [] := by
      intro v hv
      rw [← hv]
      rfl
    obtain ⟨hkey, hsent⟩ := mapped_step (fun _ => rfl) hops hsig hs ⟨hkey, hsent⟩
    exact ⟨hkey, hsent, noSignal_step hsig hreq hok.2 hs⟩
  rw [hinv.2.1]

end

/-! ## The dispatcher -/

/-- The flits taken are dealt to the four output ports. -/
structure Dispatching (s : KernelState UInt8 Flit) : Prop where
  hasSignal : s.locals.hasSignal = false
  rr : s.locals.state.toNat = (s.taken 1).length % 4
  shares : ∀ j < 4, s.sent (j + 1) = deal 4 j (s.taken 1)

theorem dispatching_step {s t : KernelState UInt8 Flit} {a : KernelAction Flit}
    (h : Dispatching s) (hs : kstep aesDispatch s a = some t) : Dispatching t := by
  have hsig := hasSignal_step rfl h.hasSignal hs
  have hshares := inv_call_step (P := fun rr taken sent =>
      rr.toNat = (taken 1).length % 4 ∧ ∀ j < 4, sent (j + 1) = deal 4 j (taken 1))
    (fun v taken sent hv => ?_) h.hasSignal hs ⟨h.rr, h.shares⟩
  · exact ⟨hsig, hshares.1, hshares.2⟩
  · obtain ⟨hrr, hshares⟩ := hv
    have hsets : ∀ q, setsOf q (aesDispatchHandler v).ops
        = if testPort v.inputPort 1 then
            setsOf q [.setOutputPort (v.state.toNat + 1) (v.inputData 1)]
          else [] := fun q => setsOf_of_ready (p := 1) q rfl
    have htaken : takenIn 1 v (aesDispatchHandler v)
        = if testPort v.inputPort 1 then [v.inputData 1] else [] :=
      takenIn_of_ready (by decide) rfl
    have hstate : (aesDispatchHandler v).state
        = if testPort v.inputPort 1 then UInt8.ofNat ((v.state.toNat + 1) % 4)
          else v.state := rfl
    constructor
    · show (aesDispatchHandler v).state.toNat
        = (taken 1 ++ takenIn 1 v (aesDispatchHandler v)).length % 4
      rw [htaken, hstate]
      split
      · rw [hrr, List.length_append, List.length_singleton, UInt8.toNat_ofNat',
          Nat.mod_eq_of_lt (by omega)]
        omega
      · rw [List.append_nil, hrr]
    · intro j hj
      show sent (j + 1) ++ setsOf (j + 1) (aesDispatchHandler v).ops
        = deal 4 j (taken 1 ++ takenIn 1 v (aesDispatchHandler v))
      rw [htaken, hsets, hshares j hj]
      split
      · rw [deal_concat hj, hrr]
        by_cases hturn : (taken 1).length % 4 = j
        · simp [setsOf, hturn]
        · simp [setsOf, hturn]
      · rw [List.append_nil, List.append_nil]

theorem plain_aesDispatch {j : Nat} (hj : j < 4) : Plain aesDispatch (j + 1) := by
  have hmem : j + 1 ∈ [1, 2, 3, 4] := by
    simp
    omega
  exact plain_of_ready hmem (by omega) (fun _ => rfl)
    (fun _ => List.forall_mem_singleton.mpr rfl) (fun _ => List.length_filterMap_le _ _)
    fun _ => rfl

/-! ## The merger -/

/-- What the scan of the merger finds: no lane ready, or a lane that is ready, and then the lane
whose turn it is if that one is ready. -/
theorem scan_cases (v : View UInt8 Flit) :
    ((∀ j < 4, testPort v.inputPort (j + 1) = false) ∧
        (aesMergeHandler v).ops = [] ∧ (aesMergeHandler v).state = v.state) ∨
      ∃ j < 4, testPort v.inputPort (j + 1) = true ∧
        (testPort v.inputPort (v.state.toNat % 4 + 1) = true → j = v.state.toNat % 4) ∧
        (aesMergeHandler v).ops
          = [.setOutputPort 1 (v.inputData (j + 1)), .clearInputReady (PORT_BIT (j + 1))] ∧
        (aesMergeHandler v).state = UInt8.ofNat ((j + 1) % 4) := by
  unfold aesMergeHandler
  cases hscan : (List.range 4).find? fun off => testPort v.inputPort (mergePort v.state off) with
  | none =>
    refine Or.inl ⟨fun j hj => ?_, rfl, rfl⟩
    -- every lane is looked at for some `off`
    have hoff : (j + 4 - v.state.toNat % 4) % 4 ∈ List.range 4 :=
      List.mem_range.mpr (Nat.mod_lt _ (by decide))
    have hfree := List.find?_eq_none.mp hscan _ hoff
    have hport : mergePort v.state ((j + 4 - v.state.toNat % 4) % 4) = j + 1 := by
      unfold mergePort
      omega
    rw [hport] at hfree
    simpa using hfree
  | some off =>
    refine Or.inr ⟨(v.state.toNat + off) % 4, Nat.mod_lt _ (by decide), ?_, fun hturn => ?_, rfl,
      rfl⟩
    · have hfound := List.find?_some hscan
      exact hfound
    · have hfirst : (List.range 4).find?
          (fun off => testPort v.inputPort (mergePort v.state off)) = some 0 := by
        show List.find? _ (0 :: _) = some 0
        rw [List.find?_cons_of_pos]
        exact hturn
      rw [hfirst] at hscan
      cases hscan
      rfl

/-- The share of lane `j` in a sequence of flits each with the lane it came from. -/
def fromLane (j : Nat) (turns : List (Nat × Flit)) : List Flit :=
  (turns.filter (·.1 == j)).map Prod.snd

/-- The flits sent are those taken from the lanes, each lane's in order. -/
structure Merging (turns : List (Nat × Flit)) (s : KernelState UInt8 Flit) : Prop where
  hasSignal : s.locals.hasSignal = false
  sent : s.sent 1 = turns.map Prod.snd
  lanes : ∀ j < 4, s.taken (j + 1) = fromLane j turns

/-- The merger does not pass over the lane whose turn it is. -/
def InTurn (s : KernelState UInt8 Flit) : KernelAction Flit → Prop
  | .kernel =>
    match s.pc with
    | .body => (∃ j < 4, testPort s.locals.inputPort (j + 1) = true) →
        testPort s.locals.inputPort (s.locals.state.toNat % 4 + 1) = true
    | _ => True
  | _ => True

instance decidableInTurn (s : KernelState UInt8 Flit) : ∀ a, Decidable (InTurn s a)
  | .kernel =>
    show Decidable (match s.pc with
      | .body => (∃ j < 4, testPort s.locals.inputPort (j + 1) = true) →
          testPort s.locals.inputPort (s.locals.state.toNat % 4 + 1) = true
      | _ => True) from
      match s.pc with
      | .body => inferInstance
      | .head => isTrue trivial
      | .readIn _ => isTrue trivial
      | .writeOut _ => isTrue trivial
  | .produce _ _ => isTrue trivial
  | .consume _ => isTrue trivial
  | .post _ => isTrue trivial

/-- The flits sent are dealt from the lanes one after the other. -/
structure MergingInTurn (s : KernelState UInt8 Flit) : Prop where
  hasSignal : s.locals.hasSignal = false
  rr : s.locals.state.toNat = (s.sent 1).length % 4
  lanes : ∀ j < 4, s.taken (j + 1) = deal 4 j (s.sent 1)

section
variable {s t : KernelState UInt8 Flit} {a : KernelAction Flit}

/-- What a call of the merger that finds lane `j` takes from lane `i`. -/
theorem takenIn_merge {v : View UInt8 Flit} {i j : Nat} (hj : j < 4)
    (hbit : testPort v.inputPort (j + 1) = true) (hops : (aesMergeHandler v).ops
      = [.setOutputPort 1 (v.inputData (j + 1)), .clearInputReady (PORT_BIT (j + 1))]) :
    takenIn (i + 1) v (aesMergeHandler v) = if i = j then [v.inputData (j + 1)] else [] := by
  unfold takenIn
  rw [hops]
  by_cases hij : i = j
  · subst hij
    simp [hbit, PortOp.clears, testPort_PORT_BIT]
    omega
  · simp [hij, PortOp.clears, testPort_PORT_BIT]

theorem merging_step {turns : List (Nat × Flit)} (h : Merging turns s)
    (hs : kstep aesMerge s a = some t) : ∃ turns', Merging turns' t := by
  have hsig := hasSignal_step rfl h.hasSignal hs
  have hmerged := inv_call_step (P := fun _ taken sent => ∃ turns' : List (Nat × Flit),
      sent 1 = turns'.map Prod.snd ∧ ∀ i < 4, taken (i + 1) = fromLane i turns')
    (fun v taken sent hv => ?_) h.hasSignal hs ⟨turns, h.sent, h.lanes⟩
  · obtain ⟨turns', hsent, hlanes⟩ := hmerged
    exact ⟨turns', hsig, hsent, hlanes⟩
  · obtain ⟨turns, hsent, hlanes⟩ := hv
    rcases scan_cases v with ⟨-, hops, -⟩ | ⟨j, hj, hbit, -, hops, -⟩
    · refine ⟨turns, ?_, fun i hi => ?_⟩
      · show sent 1 ++ setsOf 1 (aesMergeHandler v).ops = _
        rw [hops, hsent]
        exact List.append_nil _
      · show taken (i + 1) ++ takenIn (i + 1) v (aesMergeHandler v) = _
        rw [hlanes i hi]
        simp [takenIn, hops]
    · refine ⟨turns ++ [(j, v.inputData (j + 1))], ?_, fun i hi => ?_⟩
      · show sent 1 ++ setsOf 1 (aesMergeHandler v).ops = _
        rw [hops, hsent, List.map_append]
        rfl
      · show taken (i + 1) ++ takenIn (i + 1) v (aesMergeHandler v) = _
        rw [takenIn_merge hj hbit hops, hlanes i hi]
        unfold fromLane
        rw [List.filter_append, List.map_append]
        by_cases hij : i = j
        · simp [hij]
        · simp [hij, Ne.symm hij]

theorem mergingInTurn_step (h : MergingInTurn s) (hok : InTurn s a)
    (hs : kstep aesMerge s a = some t) : MergingInTurn t := by
  have hsig := hasSignal_step rfl h.hasSignal hs
  rcases records_step hs with ⟨rfl, hpc, rfl⟩ | ⟨-, hrec⟩
  · have hbody : bodyResult aesMerge s.locals = aesMergeHandler (viewOf s.locals) :=
      bodyResult_of_noSignal h.hasSignal
    unfold InTurn at hok
    rw [hpc] at hok
    rcases scan_cases (viewOf s.locals) with ⟨-, hops, hstate⟩ | ⟨j, hj, hbit, hturn, hops, hstate⟩
    · refine ⟨hsig, ?_, fun i hi => ?_⟩
      · rw [state_bodyStep, sent_bodyStep, hbody, hops, hstate]
        simpa [setsOf, viewOf] using h.rr
      · rw [taken_bodyStep, sent_bodyStep, hbody, h.lanes i hi]
        simp [takenIn, hops, setsOf]
    · have hj' : j = (s.sent 1).length % 4 := by
        have := hturn (hok ⟨j, hj, hbit⟩)
        rw [this]
        show s.locals.state.toNat % 4 = _
        rw [h.rr, Nat.mod_mod]
      refine ⟨hsig, ?_, fun i hi => ?_⟩
      · rw [state_bodyStep, sent_bodyStep, hbody, hops, hstate, UInt8.toNat_ofNat',
          Nat.mod_eq_of_lt (by omega)]
        simp [setsOf]
        omega
      · rw [taken_bodyStep, sent_bodyStep, hbody, takenIn_merge hj hbit hops, hops, h.lanes i hi]
        show _ = deal 4 i (s.sent 1 ++ [s.locals.inputData (j + 1)])
        rw [deal_concat hi, ← hj']
        by_cases hij : i = j
        · simp [hij, viewOf]
        · simp [hij, Ne.symm hij]
  · exact ⟨hsig, by rw [hrec.state, hrec.sent, h.rr],
      fun i hi => by rw [hrec.taken, hrec.sent, h.lanes i hi]⟩

end

theorem plain_aesMerge : Plain aesMerge 1 where
  mem := List.mem_singleton_self 1
  lt := by decide
  plain := by
    intro v
    show ∀ op ∈ (aesMergeHandler v).ops, op.isPlain = true
    rcases scan_cases v with ⟨-, hops, -⟩ | ⟨j, -, -, -, hops, -⟩ <;> simp [hops, PortOp.isPlain]
  length_le := by
    intro v
    show (setsOf 1 (aesMergeHandler v).ops).length ≤ 1
    rcases scan_cases v with ⟨-, hops, -⟩ | ⟨j, -, -, -, hops, -⟩ <;> simp [hops, setsOf]
  signal := fun _ => rfl

end OpenClickNP
