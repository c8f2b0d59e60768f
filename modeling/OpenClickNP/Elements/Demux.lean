import OpenClickNP.Backend.CallChain

/-!
# `Demux.clnp`

The element hands its flits out to its output ports in turn. The turn goes from 1 to 8 whatever
the number of ports of the instance is: with fewer ports it writes behind the end of
`_output_data`, with more the last ports get nothing. So the flits go where they should exactly
with eight ports, or as long as no turn has gone wrong (`demux_deals_iff`).
-/

namespace OpenClickNP

open Run

/-! ## The element -/

/-- The `.state` block. -/
structure DemuxState where
  rr : UInt8
  distributed : UInt64

/-- The `.init` block. -/
def demuxInit : DemuxState where
  rr := 1
  distributed := 0

/-- The `.handler` block. -/
def demuxHandler (v : View DemuxState Flit) : BodyResult DemuxState Flit :=
  let st := v.state
  if testPort v.inputPort 1 then
    { state := { rr := st.rr % 8 + 1, distributed := st.distributed + 1 }
      ops := [.clearInputReady (PORT_BIT 1), .setOutputPort st.rr.toNat (v.inputData 1)]
      ret := some (PORT_BIT 1) }
  else { state := st, ops := [], ret := some (PORT_BIT 1) }

/-- An instance with `n` output ports. -/
def demuxElement (n : Nat) : KernelFn DemuxState Flit where
  inPorts := [1]
  outPorts := List.range' 1 n
  nodup_outPorts := List.nodup_range'
  handler := demuxHandler

/-! ## Dealing -/

/-- The flits `fs`, the first of them the `i`-th that comes in, each with the port whose turn it
is among `n`. -/
def dealt (n i : Nat) (fs : List Flit) : List (Nat × Flit) :=
  (fs.zipIdx i).map fun x => (x.2 % n + 1, x.1)

theorem dealt_cons (n i : Nat) (f : Flit) (fs : List Flit) :
    dealt n i (f :: fs) = (i % n + 1, f) :: dealt n (i + 1) fs := rfl

/-- The turn of the `i`-th flit. -/
def HasTurn (i : Nat) (st : DemuxState) : Prop := st.rr.toNat = i % 8 + 1

theorem hasTurn_next {i : Nat} {st : DemuxState} (h : HasTurn i st) :
    (st.rr % 8 + 1).toNat = (i + 1) % 8 + 1 := by
  have hrr : st.rr.toNat = i % 8 + 1 := h
  rw [UInt8.toNat_add, UInt8.toNat_mod, hrr]
  show ((i % 8 + 1) % 8 + 1) % 256 = (i + 1) % 8 + 1
  omega

/-- **The calls deal the flits to eight ports.** Induction on the calls; the turn is carried. -/
theorem writes_of_chained (n : Nat) {vs : List (View DemuxState Flit)} {st : DemuxState} {i : Nat}
    (h : Chained (demuxElement n) st vs) (hturn : HasTurn i st) :
    vs.flatMap (fun v => writesOf (demuxHandler v).ops)
      = dealt 8 i (vs.flatMap fun v => takenIn 1 v (demuxHandler v)) := by
  induction vs generalizing st i with
  | nil => rfl
  | cons v vs ih =>
    obtain ⟨rfl, hrest⟩ := h
    have hstep : (demuxElement n).handler v = demuxHandler v := rfl
    rw [hstep] at hrest
    rw [List.flatMap_cons, List.flatMap_cons]
    cases hready : testPort v.inputPort 1 with
    | false =>
      have hidle : demuxHandler v = { state := v.state, ops := [], ret := some (PORT_BIT 1) } :=
        if_neg (by simp [hready])
      rw [hidle] at hrest ⊢
      have htaken : takenIn 1 v
          ({ state := v.state, ops := [], ret := some (PORT_BIT 1) } :
            BodyResult DemuxState Flit) = [] := by simp [takenIn]
      rw [htaken]
      exact ih hrest hturn
    | true =>
      have hcall : demuxHandler v =
          { state := { rr := v.state.rr % 8 + 1, distributed := v.state.distributed + 1 }
            ops := [.clearInputReady (PORT_BIT 1),
              .setOutputPort v.state.rr.toNat (v.inputData 1)]
            ret := some (PORT_BIT 1) } := if_pos hready
      have htaken : takenIn 1 v (demuxHandler v) = [v.inputData 1] := by
        rw [takenIn, hcall, hready]
        simp [PortOp.clears, testPort_PORT_BIT]
      have hnext : HasTurn (i + 1) (demuxHandler v).state := by
        rw [hcall]
        exact hasTurn_next hturn
      have hrr : v.state.rr.toNat = i % 8 + 1 := hturn
      rw [htaken, ih hrest hnext, hcall, List.singleton_append, dealt_cons, ← hrr]
      rfl

/-- **What a run writes.** -/
theorem written_demux (n : Nat) (inCap outCap : Nat → Int) (as : List (KernelAction Flit)) :
    written (demuxElement n) (kinit demuxInit inCap outCap) as
      = dealt 8 0 ((exec (kstep (demuxElement n)) (kinit demuxInit inCap outCap) as).taken 1) := by
  have hchain := chained_handlerViews (K := demuxElement n) (s := kinit demuxInit inCap outCap)
    rfl rfl as
  rw [taken_exec (K := demuxElement n) rfl rfl]
  exact writes_of_chained n hchain rfl

/-! ## The number of ports -/

theorem getElem?_dealt (n : Nat) (fs : List Flit) (j : Nat) :
    (dealt n 0 fs)[j]? = (fs[j]?).map fun f => (j % n + 1, f) := by
  rw [dealt, List.getElem?_map, List.getElem?_zipIdx, Option.map_map]
  cases fs[j]? with
  | none => rfl
  | some f => simp

theorem exists_dealt (n : Nat) {fs : List Flit} {j : Nat} (hj : j < fs.length) :
    ∃ f, (dealt 8 0 fs)[j]? = some (j % 8 + 1, f) ∧
      (dealt n 0 fs)[j]? = some (j % n + 1, f) := by
  refine ⟨fs[j], ?_, ?_⟩
  · rw [getElem?_dealt, List.getElem?_eq_getElem hj]
    rfl
  · rw [getElem?_dealt, List.getElem?_eq_getElem hj]
    rfl

/-- With another number of ports than eight, one more flit than there are turns up to the smaller
number is dealt wrong. -/
theorem length_le_of_dealt {n : Nat} {fs : List Flit} (hsame : dealt 8 0 fs = dealt n 0 fs)
    (hbound : ∀ w ∈ dealt 8 0 fs, w.1 ≤ n) (hn : n ≠ 8) : fs.length ≤ min n 8 := by
  by_contra hlen
  obtain ⟨f, h8, hn'⟩ := exists_dealt n (Nat.not_le.mp hlen)
  rcases Nat.lt_or_gt_of_ne hn with hlt | hgt
  · -- with fewer than eight ports the turn goes beyond the last
    have hle := hbound _ (List.mem_of_getElem? h8)
    have hmin : min n 8 = n := by omega
    rw [hmin] at hle
    have hmod : n % 8 = n := Nat.mod_eq_of_lt hlt
    omega
  · -- with more than eight it comes back to 1 while port 9 waits
    have hmin : min n 8 = 8 := by omega
    rw [hsame, hn', hmin] at h8
    have hmod : 8 % n = 8 := Nat.mod_eq_of_lt hgt
    have heq := congrArg Prod.fst (Option.some.inj h8)
    simp only [hmod] at heq
    omega

/-- What is dealt to eight ports is dealt to `n`, if each flit's turn is the same. -/
theorem dealt_of_turns {n : Nat} {fs : List Flit}
    (hmod : ∀ j < fs.length, j % 8 = j % n ∧ j % 8 + 1 ≤ n) :
    dealt 8 0 fs = dealt n 0 fs ∧ ∀ w ∈ dealt 8 0 fs, w.1 ≤ n := by
  have hnone : ∀ {j m : Nat}, fs.length ≤ j → (dealt m 0 fs)[j]? = none := by
    intro j m hj
    rw [getElem?_dealt, List.getElem?_eq_none hj]
    rfl
  constructor
  · apply List.ext_getElem?
    intro j
    by_cases hj : j < fs.length
    · obtain ⟨f, h8, hn⟩ := exists_dealt n hj
      rw [h8, hn, (hmod j hj).1]
    · rw [hnone (Nat.not_lt.mp hj), hnone (Nat.not_lt.mp hj)]
  · intro w hw
    obtain ⟨j, hj⟩ := List.mem_iff_getElem?.mp hw
    by_cases hlt : j < fs.length
    · obtain ⟨f, h8, -⟩ := exists_dealt n hlt
      rw [h8] at hj
      cases hj
      exact (hmod j hlt).2
    · rw [hnone (Nat.not_lt.mp hlt)] at hj
      cases hj

/-- Dealing to eight ports is dealing to `n` ports, and never beyond the last of them, exactly with
eight ports or with so few flits that no turn has come back to 1 too early or too late. -/
theorem dealt_eight_iff (n : Nat) (fs : List Flit) :
    (dealt 8 0 fs = dealt n 0 fs ∧ ∀ w ∈ dealt 8 0 fs, w.1 ≤ n) ↔
      n = 8 ∨ fs.length ≤ min n 8 := by
  constructor
  · rintro ⟨hsame, hbound⟩
    by_cases hn : n = 8
    · exact Or.inl hn
    · exact Or.inr (length_le_of_dealt hsame hbound hn)
  · intro hcond
    apply dealt_of_turns
    intro j hj
    rcases hcond with rfl | hlen
    · exact ⟨rfl, Nat.mod_lt j (by omega)⟩
    · have h8 : j % 8 = j := Nat.mod_eq_of_lt (by omega)
      have hn : j % n = j := Nat.mod_eq_of_lt (by omega)
      omega

/-- **When `Demux` deals to its own ports.** For every number of output ports, all stream
capacities and every run: each flit read is written to the port whose turn it is among the ports
of the instance, and no write goes to an index above them, if and only if there are eight ports,
or no more flits have been read than there are ports, and at most eight. -/
theorem demux_deals_iff (n : Nat) (inCap outCap : Nat → Int) (as : List (KernelAction Flit)) :
    let s := kinit demuxInit inCap outCap
    let fs := (exec (kstep (demuxElement n)) s as).taken 1
    (written (demuxElement n) s as = dealt n 0 fs ∧
        ∀ w ∈ written (demuxElement n) s as, w.1 ≤ n) ↔
      n = 8 ∨ fs.length ≤ min n 8 := by
  intro s fs
  rw [written_demux n inCap outCap as]
  exact dealt_eight_iff n fs

/-- The third flit of an instance with two ports is written to index 3. -/
theorem demux_writes_beyond :
    ¬ ∀ (n : Nat) (inCap outCap : Nat → Int) (as : List (KernelAction Flit)), 1 ≤ n →
      let s := kinit demuxInit inCap outCap
      let fs := (exec (kstep (demuxElement n)) s as).taken 1
      written (demuxElement n) s as = dealt n 0 fs ∧
        ∀ w ∈ written (demuxElement n) s as, w.1 ≤ n := by
  intro h
  -- three flits, and as many turns of the loop of seven operations
  obtain ⟨-, hbound⟩ := h 2 (fun _ => 3) (fun _ => 3)
    (List.replicate 3 (.produce 1 {}) ++ List.replicate 21 .kernel) (by decide)
  exact absurd hbound (by decide)

end OpenClickNP
