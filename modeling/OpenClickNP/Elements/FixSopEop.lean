import OpenClickNP.Backend.Transduction
import OpenClickNP.Lib.Frames

/-!
# `FixSopEop.clnp`

The element marks the first flit of each packet with sop. It holds one flit back, and passes it
on when the next one comes in; there it also takes the eop off the flit it has held when the next
one carries an eop. A packet of one flit behind another packet has the eop that way, so the two
are merged; without such a packet the boundaries stay where they are
(`fixSopEop_repairs_iff`).
-/

namespace OpenClickNP

open Run Frames

/-! ## The element -/

/-- The `.state` block. -/
structure FixSopEopState where
  firstAfterEop : Bool
  prev : Flit
  prevValid : Bool
deriving DecidableEq

/-- The `.init` block, after the value-initialisation of the state. -/
def fixSopEopInit : FixSopEopState where
  firstAfterEop := true
  prev := {}
  prevValid := false

/-- `if (_state.first_after_eop) f.set_sop(true)`. -/
def FixSopEopState.mark (st : FixSopEopState) (f : Flit) : Flit :=
  if st.firstAfterEop then f.setSop true else f

/-- The state after a flit. -/
def FixSopEopState.hold (st : FixSopEopState) (f : Flit) : FixSopEopState where
  firstAfterEop := (st.mark f).eop
  prev := st.mark f
  prevValid := true

/-- `if (f.eop()) _state.prev.set_eop(false)`, and what is left is passed on. -/
def strip (prev f : Flit) : Flit := if f.eop then prev.setEop false else prev

/-- The `.handler` block. -/
def fixSopEopHandler (v : View FixSopEopState Flit) : BodyResult FixSopEopState Flit :=
  let st := v.state
  let f := v.inputData 1
  if testPort v.inputPort 1 then
    { state := st.hold f
      ops := .clearInputReady (PORT_BIT 1) ::
        if st.prevValid then [.setOutputPort 1 (strip st.prev f)] else []
      ret := some (PORT_BIT 1) }
  else { state := st, ops := [], ret := some (PORT_BIT 1) }

def fixSopEop : KernelFn FixSopEopState Flit where
  inPorts := [1]
  outPorts := [1]
  nodup_outPorts := nodup_one
  handler := fixSopEopHandler

def fixSopEopMachine : Transducer FixSopEopState (Option Flit) Flit where
  next st
    | some f => st.hold f
    | none => st
  out st
    | some f => if st.prevValid then [strip st.prev f] else []
    | none => []

theorem transduces_fixSopEop : Transduces fixSopEop id (fun _ => True) fixSopEopMachine where
  inPorts := rfl
  outPorts := rfl
  returns v := by
    show (fixSopEopHandler v).ret = _
    unfold fixSopEopHandler
    simp only []
    split <;> rfl
  state v := by
    show (fixSopEopHandler v).state = _
    unfold fixSopEopHandler offered
    simp only []
    split <;> rfl
  taken v := by
    show takenIn 1 v (fixSopEopHandler v) = _
    unfold takenIn fixSopEopHandler offered
    cases testPort v.inputPort 1 with
    | false => rfl
    | true => simp [PortOp.clears, testPort_PORT_BIT]
  sets v := by
    show setsOf 1 (fixSopEopHandler v).ops = _
    unfold fixSopEopHandler offered
    simp only []
    split
    · show setsOf 1 (_ :: if v.state.prevValid then _ else _)
        = if v.state.prevValid then _ else _
      split <;> rfl
    · rfl
  signalState _ _ := rfl
  signalOps _ := rfl
  signalRet _ := rfl

theorem lazy_fixSopEop : Lazy fixSopEopMachine := fun _ => ⟨rfl, rfl⟩

/-! ## What it puts out -/

/-- The flits as the element holds them; `first` says whether the first one begins a packet. -/
def marked : (first : Bool) → List Flit → List Flit
  | _, [] => []
  | first, f :: fs => (if first then f.setSop true else f) :: marked f.eop fs

/-- Each flit but the last, as the one behind it leaves it. -/
def stripped (fs : List Flit) : List Flit := List.zipWith strip fs fs.tail

@[simp] theorem length_marked (first : Bool) (fs : List Flit) :
    (marked first fs).length = fs.length := by
  induction fs generalizing first with
  | nil => rfl
  | cons f fs ih => rw [marked, List.length_cons, List.length_cons, ih]

@[simp] theorem eop_setSop (f : Flit) (b : Bool) : (f.setSop b).eop = f.eop := by
  apply Flit.flag_setFlag_of_disjoint
  decide

@[simp] theorem sop_setEop (f : Flit) (b : Bool) : (f.setEop b).sop = f.sop := by
  apply Flit.flag_setFlag_of_disjoint
  decide

theorem eop_mark (st : FixSopEopState) (f : Flit) : (st.mark f).eop = f.eop := by
  unfold FixSopEopState.mark
  split
  · exact eop_setSop f true
  · rfl

/-- While a flit is held, the output is what is stripped. Induction on the flits that come in. -/
theorem output_fixSopEop_of_valid (st : FixSopEopState) (h : st.prevValid = true)
    (fs : List Flit) : fixSopEopMachine.output st (fs.map some)
      = stripped (st.prev :: marked st.firstAfterEop fs) := by
  induction fs generalizing st with
  | nil => rfl
  | cons f fs ih =>
    have hrest := ih (st.hold f) rfl
    have hstrip : strip st.prev (st.mark f) = strip st.prev f := by
      unfold strip
      rw [eop_mark]
    show (if st.prevValid then [strip st.prev f] else [])
      ++ fixSopEopMachine.output (st.hold f) (fs.map some) = _
    rw [if_pos h, hrest]
    show strip st.prev f :: stripped (st.mark f :: marked (st.mark f).eop fs)
      = strip st.prev (st.mark f) :: stripped (st.mark f :: marked f.eop fs)
    rw [hstrip, eop_mark]

/-- **What the element makes of a sequence of flits.** -/
theorem output_fixSopEop (fs : List Flit) :
    fixSopEopMachine.output fixSopEopInit (fs.map some) = stripped (marked true fs) := by
  cases fs with
  | nil => rfl
  | cons f fs =>
    have hrest := output_fixSopEop_of_valid (fixSopEopInit.hold f) rfl fs
    show [] ++ fixSopEopMachine.output (fixSopEopInit.hold f) (fs.map some) = _
    rw [List.nil_append, hrest]
    show stripped (f.setSop true :: marked (f.setSop true).eop fs) = _
    rw [eop_setSop]
    rfl

/-! ## Flit by flit -/

/-- The flit at `j` begins a packet: none comes before it, or one with eop. -/
def beginsPacket (first : Bool) (fs : List Flit) : Nat → Bool
  | 0 => first
  | j + 1 => (fs[j]?).any Flit.eop

theorem getElem?_marked (first : Bool) (fs : List Flit) (j : Nat) :
    (marked first fs)[j]?
      = (fs[j]?).map fun f => if beginsPacket first fs j then f.setSop true else f := by
  induction fs generalizing first j with
  | nil => rfl
  | cons f fs ih =>
    cases j with
    | zero => rfl
    | succ j =>
      have hbegins : beginsPacket first (f :: fs) (j + 1) = beginsPacket f.eop fs j := by
        cases j <;> rfl
      rw [marked, List.getElem?_cons_succ, List.getElem?_cons_succ, ih, hbegins]

theorem length_stripped (fs : List Flit) : (stripped fs).length = fs.length - 1 := by
  rw [stripped, List.length_zipWith, List.length_tail, Nat.min_eq_right (Nat.sub_le _ 1)]

theorem getElem?_stripped (fs : List Flit) (j : Nat) :
    (stripped fs)[j]? = (fs[j]?).bind fun f => (fs[j + 1]?).map (strip f) := by
  rw [stripped, List.getElem?_zipWith, List.getElem?_tail]
  cases fs[j]? with
  | none => rfl
  | some f => cases fs[j + 1]? <;> rfl

/-- The flit at `j` of the output, with the two flits of the input it is made of. -/
theorem getElem?_output {fs : List Flit} {j : Nat} {g : Flit}
    (hg : (stripped (marked true fs))[j]? = some g) :
    ∃ f f', fs[j]? = some f ∧ fs[j + 1]? = some f' ∧
      g = strip (if beginsPacket true fs j then f.setSop true else f) f' := by
  rw [getElem?_stripped, getElem?_marked, getElem?_marked] at hg
  cases hf : fs[j]? with
  | none =>
    rw [hf] at hg
    cases hg
  | some f =>
    cases hf' : fs[j + 1]? with
    | none =>
      rw [hf, hf'] at hg
      cases hg
    | some f' =>
      rw [hf, hf'] at hg
      refine ⟨f, f', rfl, rfl, ?_⟩
      have heop : (if beginsPacket true fs (j + 1) then f'.setSop true else f').eop = f'.eop := by
        split
        · exact eop_setSop f' true
        · rfl
      have hstrip := (Option.some.inj hg).symm
      unfold strip at hstrip ⊢
      rwa [heop] at hstrip

theorem mem_strip (f f' : Flit) {i : Nat} (hi : i ≠ 32) : (strip f f').mem i = f.mem i := by
  unfold strip
  split
  · exact Flit.mem_setFlag_of_ne f _ _ hi
  · rfl

theorem sop_strip (f f' : Flit) : (strip f f').sop = f.sop := by
  unfold strip
  split
  · exact sop_setEop f false
  · rfl

theorem eop_strip (f f' : Flit) : (strip f f').eop = (f.eop && !f'.eop) := by
  unfold strip
  cases f'.eop with
  | true =>
    rw [Bool.not_true, Bool.and_false]
    exact Flit.flag_setFlag_self f (by decide) false
  | false => simp

/-! ## Packets -/

/-- What the element is for: all flits but the last come out; each has its bytes outside the flags
and its eop, and sop is added where a packet begins; and the packets keep their lengths. -/
structure Repaired (fs gs : List Flit) : Prop where
  length : gs.length = fs.length - 1
  bytes : ∀ (j : Nat) (f g : Flit), fs[j]? = some f → gs[j]? = some g →
    ∀ i, i ≠ 32 → g.mem i = f.mem i
  eop : ∀ (j : Nat) (f g : Flit), fs[j]? = some f → gs[j]? = some g → g.eop = f.eop
  sop : ∀ (j : Nat) (f g : Flit), fs[j]? = some f → gs[j]? = some g →
    g.sop = (f.sop || beginsPacket true fs j)
  packets : (cut Flit.eop gs).map List.length = (cut Flit.eop fs.dropLast).map List.length

theorem eops_eq_of_eop {fs gs : List Flit} (hlen : gs.length = fs.length - 1)
    (heop : ∀ (j : Nat) (f g : Flit), fs[j]? = some f → gs[j]? = some g → g.eop = f.eop) :
    gs.map Flit.eop = fs.dropLast.map Flit.eop := by
  refine List.ext_getElem (by simp [hlen]) fun j hj hj' => ?_
  rw [List.length_map] at hj hj'
  rw [List.length_dropLast] at hj'
  have hlt : j < fs.length := by omega
  rw [List.getElem_map, List.getElem_map, List.getElem_dropLast]
  exact heop j _ _ (List.getElem?_eq_getElem hlt) (List.getElem?_eq_getElem hj)

section
variable {fs : List Flit} {j : Nat} {f g : Flit}

/-- The flit at `j` of the output, where that of the input is known. -/
theorem output_of_input (hf : fs[j]? = some f) (hg : (stripped (marked true fs))[j]? = some g) :
    ∃ f', fs[j + 1]? = some f' ∧
      g = strip (if beginsPacket true fs j then f.setSop true else f) f' := by
  obtain ⟨f₁, f', hf₁, hf', hstrip⟩ := getElem?_output hg
  rw [hf, Option.some_inj] at hf₁
  subst hf₁
  exact ⟨f', hf', hstrip⟩

theorem mem_output (hf : fs[j]? = some f) (hg : (stripped (marked true fs))[j]? = some g)
    {i : Nat} (hi : i ≠ 32) : g.mem i = f.mem i := by
  obtain ⟨f', -, rfl⟩ := output_of_input hf hg
  rw [mem_strip _ _ hi]
  split
  · exact Flit.mem_setFlag_of_ne f _ _ hi
  · rfl

theorem sop_output (hf : fs[j]? = some f) (hg : (stripped (marked true fs))[j]? = some g) :
    g.sop = (f.sop || beginsPacket true fs j) := by
  obtain ⟨f', -, rfl⟩ := output_of_input hf hg
  rw [sop_strip]
  split
  · rename_i hbegins
    rw [hbegins, Bool.or_true]
    exact Flit.flag_setFlag_self f (by decide) true
  · rename_i hbegins
    rw [Bool.eq_false_of_not_eq_true hbegins, Bool.or_false]

/-- An eop is lost to one on the flit behind. -/
theorem eop_output (hf : fs[j]? = some f) (hg : (stripped (marked true fs))[j]? = some g) :
    ∃ f', fs[j + 1]? = some f' ∧ g.eop = (f.eop && !f'.eop) := by
  obtain ⟨f', hf', rfl⟩ := output_of_input hf hg
  have hmark : (if beginsPacket true fs j then f.setSop true else f).eop = f.eop := by
    split
    · exact eop_setSop f true
    · rfl
  refine ⟨f', hf', ?_⟩
  rw [eop_strip, hmark]

end

/-- **The element repairs a sequence exactly when no flit with eop follows one with eop.** -/
theorem repaired_iff (fs : List Flit) : Repaired fs (stripped (marked true fs)) ↔
    fs.IsChain fun f f' => f.eop = true → f'.eop = false := by
  have hlen : (stripped (marked true fs)).length = fs.length - 1 := by
    rw [length_stripped, length_marked]
  rw [List.isChain_iff_getElem]
  constructor
  · intro h j hj heop
    have hlt : j < fs.length := by omega
    have hg : j < (stripped (marked true fs)).length := by omega
    obtain ⟨f', hf', hlost⟩ := eop_output (List.getElem?_eq_getElem hlt)
      (List.getElem?_eq_getElem hg)
    have hkept := h.eop j _ _ (List.getElem?_eq_getElem hlt) (List.getElem?_eq_getElem hg)
    rw [List.getElem?_eq_getElem hj, Option.some_inj] at hf'
    -- the flit has kept its eop, so the one behind it has none
    rw [hkept, heop, Bool.true_and, ← hf'] at hlost
    simpa using hlost.symm
  · intro h
    have heop : ∀ (j : Nat) (f g : Flit), fs[j]? = some f →
        (stripped (marked true fs))[j]? = some g → g.eop = f.eop := by
      intro j f g hf hg
      obtain ⟨f', hf', hlost⟩ := eop_output hf hg
      obtain ⟨hlt, hget⟩ := List.getElem?_eq_some_iff.mp hf
      obtain ⟨hlt', hget'⟩ := List.getElem?_eq_some_iff.mp hf'
      have hchain := h j hlt'
      rw [hget, hget'] at hchain
      rw [hlost]
      cases hf : f.eop with
      | false => rfl
      | true =>
        rw [hchain hf]
        rfl
    exact
      { length := hlen
        bytes := fun j f g hf hg i hi => mem_output hf hg hi
        eop := heop
        sop := fun j f g hf hg => sop_output hf hg
        packets := map_length_cut (eops_eq_of_eop hlen heop) }

/-! ## Runs -/

/-- **What `FixSopEop` repairs.** For all stream capacities and every sequence of flits: there is
a run that takes them, and in every run that does what is passed on is the repaired sequence, if
and only if no flit with eop comes directly behind a flit with eop. -/
theorem fixSopEop_repairs_iff (inCap outCap : Nat → Int) (fs : List Flit) :
    ((∃ gs, Maps fixSopEop (fun _ => True) (kinit fixSopEopInit inCap outCap) fs gs) ∧
      ∀ gs, Maps fixSopEop (fun _ => True) (kinit fixSopEopInit inCap outCap) fs gs →
        Repaired fs gs) ↔
      fs.IsChain fun f f' => f.eop = true → f'.eop = false := by
  have hmaps : ∀ gs, Maps fixSopEop (fun _ => True) (kinit fixSopEopInit inCap outCap) fs gs ↔
      gs = stripped (marked true fs) := by
    intro gs
    rw [← output_fixSopEop]
    exact transduces_fixSopEop.maps_iff lazy_fixSopEop
      (waiting_kinit fixSopEopInit inCap outCap) fs gs
  rw [← repaired_iff]
  constructor
  · rintro ⟨-, h⟩
    exact h _ ((hmaps _).mpr rfl)
  · intro h
    refine ⟨⟨_, (hmaps _).mpr rfl⟩, fun gs hgs => ?_⟩
    rw [(hmaps gs).mp hgs]
    exact h

/-- Two packets of one flit: the first has lost its eop when it comes out. -/
theorem fixSopEop_merges : ¬ ∀ (inCap outCap : Nat → Int) (fs : List Flit),
    (∃ gs, Maps fixSopEop (fun _ => True) (kinit fixSopEopInit inCap outCap) fs gs) ∧
      ∀ gs, Maps fixSopEop (fun _ => True) (kinit fixSopEopInit inCap outCap) fs gs →
        Repaired fs gs := by
  intro h
  obtain ⟨⟨gs, hgs⟩, hrepaired⟩ := h (fun _ => 2) (fun _ => 2)
    [({} : Flit).setEop true, ({} : Flit).setEop true]
  have hout := (transduces_fixSopEop.maps_iff lazy_fixSopEop
    (waiting_kinit fixSopEopInit (fun _ => 2) (fun _ => 2)) _ gs).mp hgs
  have heop := (hrepaired gs hgs).eop 0 (({} : Flit).setEop true)
    ((({} : Flit).setEop true).setSop true |>.setEop false) rfl (by rw [hout]; rfl)
  exact absurd heop (by decide)

end OpenClickNP
