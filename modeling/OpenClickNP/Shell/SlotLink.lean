import OpenClickNP.Shell.SlotMux

/-!
# `slot_mux` connected to `slot_demux`

The two modules are coupled in both directions within a cycle: the demultiplexer's ready bit
depends on the flit shown, the multiplexer's on that ready bit. The flit shown does not depend on
it, so the wires settle (`tready_settled`).

Where the flits that enter a slot carry its id, a flit enters in the cycle in which it leaves, on
the same slot (`enters_eq_leaves`).
-/

namespace OpenClickNP

open RoundRobin (IsNext rank)

/-- The inputs of the pair in a cycle. -/
structure SlotLinkIn (n : Nat) where
  rstn : Bool
  sAxisTdata : Fin n → Flit
  sAxisTvalid : Fin n → Bool
  mAxisTready : Fin n → Bool

namespace SlotLink

variable {n : Nat}

/-! ## The wires -/

/-- What the multiplexer sees when `tready` is on the wire between the two. -/
def muxIn (i : SlotLinkIn n) (tready : Bool) : SlotMuxIn n where
  rstn := i.rstn
  sAxisTdata := i.sAxisTdata
  sAxisTvalid := i.sAxisTvalid
  mAxisTready := tready

/-- What the demultiplexer then shows. -/
def demux (rr : Fin n) (i : SlotLinkIn n) (tready : Bool) : SlotDemux n :=
  slotDemux n (slotMux rr (muxIn i tready)).mAxisTdata (slotMux rr (muxIn i tready)).mAxisTvalid
    i.mAxisTready

/-- The value on which the wire settles. -/
def tready (rr : Fin n) (i : SlotLinkIn n) : Bool := (demux rr i false).sAxisTready

theorem tready_settled (rr : Fin n) (i : SlotLinkIn n) :
    (demux rr i (tready rr i)).sAxisTready = tready rr i := rfl

/-- A transfer on input `s` of the multiplexer. -/
def enters (rr : Fin n) (i : SlotLinkIn n) (s : Fin n) : Bool :=
  i.sAxisTvalid s && (slotMux rr (muxIn i (tready rr i))).sAxisTready s

/-- A transfer on output `s` of the demultiplexer. -/
def leaves (rr : Fin n) (i : SlotLinkIn n) (s : Fin n) : Bool :=
  (demux rr i (tready rr i)).mAxisTvalid s && i.mAxisTready s

/-- The register `rr` after the clock edge. -/
def next (rr : Fin n) (i : SlotLinkIn n) : Fin n := nextRr rr (muxIn i (tready rr i))

/-! ## One cycle -/

/-- A slot offers only flits that carry its id. -/
def Labelled (i : SlotLinkIn n) : Prop :=
  ∀ s, i.sAxisTvalid s = true → (i.sAxisTdata s).slotId.toNat = s.val

section

variable {rr : Fin n} {i : SlotLinkIn n} {s g : Fin n}

theorem slotSel_iff {id : UInt16} : slotSel n id s = true ↔ id.toNat = s.val := by
  rw [slotSel, Bool.and_eq_true, decide_eq_true_iff, decide_eq_true_iff]
  constructor
  · exact fun h => h.2
  · exact fun h => ⟨h ▸ s.isLt, h⟩

/-- A flit for an output is taken when that output is ready. -/
theorem sAxisTready_slotDemux {f : Flit} (hf : f.slotId.toNat = g.val) (tvalid : Bool)
    (ready : Fin n → Bool) : (slotDemux n f tvalid ready).sAxisTready = ready g := by
  rw [slotDemux, Bool.eq_iff_iff, List.any_eq_true]
  constructor
  · rintro ⟨s, -, hs⟩
    obtain ⟨hsel, hready⟩ := Bool.and_eq_true_iff.mp hs
    -- no other output is selected
    have hsg : s = g := Fin.ext ((slotSel_iff.mp hsel).symm.trans hf)
    rwa [← hsg]
  · intro h
    exact ⟨g, List.mem_finRange g, Bool.and_eq_true_iff.mpr ⟨slotSel_iff.mpr hf, h⟩⟩

/-- A flit for an output is offered there and nowhere else. -/
theorem mAxisTvalid_slotDemux {f : Flit} (hf : f.slotId.toNat = g.val) (ready : Fin n → Bool) :
    (slotDemux n f true ready).mAxisTvalid s = true ↔ s = g := by
  have hvalid : (slotDemux n f true ready).mAxisTvalid s = slotSel n f.slotId s := rfl
  rw [hvalid, slotSel_iff, hf, eq_comm, Fin.ext_iff]

/-- The demultiplexer sees the flit of the slot whose turn it is. -/
theorem demux_of_isNext (hg : IsNext rr i.sAxisTvalid g) (b : Bool) :
    demux rr i b = slotDemux n (i.sAxisTdata g) true i.mAxisTready := by
  have hvalid : (slotMux rr (muxIn i b)).mAxisTvalid = true := mAxisTvalid_slotMux.mpr ⟨g, hg.1⟩
  have hdata : (slotMux rr (muxIn i b)).mAxisTdata = i.sAxisTdata g := mAxisTdata_slotMux hg
  rw [demux, hvalid, hdata]

/-- A slot's flit enters when it is the slot's turn and its output is ready. -/
theorem enters_iff (hlabel : Labelled i) :
    enters rr i s = true ↔ IsNext rr i.sAxisTvalid s ∧ i.mAxisTready s = true := by
  rw [enters, Bool.and_eq_true, sAxisTready_slotMux]
  constructor
  · rintro ⟨-, hs, hready⟩
    have htready : tready rr i = true := hready
    rw [tready, demux_of_isNext hs, sAxisTready_slotDemux (hlabel s hs.1)] at htready
    exact ⟨hs, htready⟩
  · rintro ⟨hs, hready⟩
    refine ⟨hs.1, hs, ?_⟩
    show tready rr i = true
    rw [tready, demux_of_isNext hs, sAxisTready_slotDemux (hlabel s hs.1), hready]

theorem leaves_iff (hlabel : Labelled i) :
    leaves rr i s = true ↔ IsNext rr i.sAxisTvalid s ∧ i.mAxisTready s = true := by
  rw [leaves, Bool.and_eq_true]
  refine and_congr_left fun _ => ?_
  by_cases hvalid : ∃ s', i.sAxisTvalid s' = true
  · obtain ⟨g, hg⟩ := RoundRobin.exists_isNext rr hvalid
    rw [demux_of_isNext hg, mAxisTvalid_slotDemux (hlabel g hg.1)]
    constructor
    · rintro rfl
      exact hg
    · exact fun hs => hs.unique hg
  · -- no slot is valid: nothing is offered
    have hidle : (slotMux rr (muxIn i (tready rr i))).mAxisTvalid = false :=
      Bool.eq_false_iff.mpr fun h => hvalid (mAxisTvalid_slotMux.mp h)
    refine iff_of_false ?_ fun hs => hvalid ⟨s, hs.1⟩
    rw [demux, hidle]
    exact Bool.false_ne_true

/-- **The handshakes coincide.** -/
theorem enters_eq_leaves (hlabel : Labelled i) : enters rr i s = leaves rr i s := by
  rw [Bool.eq_iff_iff, enters_iff hlabel, leaves_iff hlabel]

/-- What leaves is the flit that enters, and no other output offers it. -/
theorem demux_of_enters (hlabel : Labelled i) (h : enters rr i s = true) :
    (demux rr i (tready rr i)).mAxisTdata s = i.sAxisTdata s ∧
      ∀ g, g ≠ s → (demux rr i (tready rr i)).mAxisTvalid g = false := by
  obtain ⟨hs, -⟩ := (enters_iff hlabel).mp h
  rw [demux_of_isNext hs]
  refine ⟨rfl, fun g hne => Bool.eq_false_iff.mpr fun hg => hne ?_⟩
  exact (mAxisTvalid_slotDemux (hlabel s hs.1) _).mp hg

/-- Outside reset a cycle is one step of a round-robin arbiter. -/
theorem step_next (hlabel : Labelled i) (hrstn : i.rstn = true) :
    RoundRobin.Step rr i.sAxisTvalid (fun s => enters rr i s = true) (next rr i) := by
  constructor
  · exact fun g hg => ((enters_iff hlabel).mp hg).1
  · -- the pointer goes to the slot that had the transfer
    intro g hg
    rw [enters, Bool.and_eq_true, sAxisTready_slotMux] at hg
    exact nextRr_of_taken hrstn hg.2.1 hg.2.2
  · -- a cycle without a transfer leaves it
    intro hnone
    refine nextRr_of_not_taken hrstn (Bool.eq_false_iff.mpr fun htaken => ?_)
    obtain ⟨hvalid, hready⟩ := Bool.and_eq_true_iff.mp htaken
    obtain ⟨g, hg⟩ := RoundRobin.exists_isNext rr (mAxisTvalid_slotMux.mp hvalid)
    refine hnone g ?_
    rw [enters, Bool.and_eq_true, sAxisTready_slotMux]
    exact ⟨hg.1, hg, hready⟩

end

/-! ## Runs -/

/-- The register `rr` over the cycles, from a value of a slot. -/
def rrAt (rr₀ : Fin n) (ins : ℕ → SlotLinkIn n) : ℕ → Fin n
  | 0 => rr₀
  | t + 1 => next (rrAt rr₀ ins t) (ins t)

/-- A transfer on input `s` in cycle `t`. -/
def entersAt (rr₀ : Fin n) (ins : ℕ → SlotLinkIn n) (s : Fin n) (t : ℕ) : Bool :=
  enters (rrAt rr₀ ins t) (ins t) s

/-- The flits transferred on input `s` of the multiplexer before cycle `t`, in order. -/
def entered (rr₀ : Fin n) (ins : ℕ → SlotLinkIn n) (s : Fin n) (t : ℕ) : List Flit :=
  ((List.range t).filter fun u => entersAt rr₀ ins s u).map fun u => (ins u).sAxisTdata s

/-- The flits transferred on output `s` of the demultiplexer before cycle `t`, in order. -/
def delivered (rr₀ : Fin n) (ins : ℕ → SlotLinkIn n) (s : Fin n) (t : ℕ) : List Flit :=
  ((List.range t).filter fun u => leaves (rrAt rr₀ ins u) (ins u) s).map fun u =>
    (demux (rrAt rr₀ ins u) (ins u) (tready (rrAt rr₀ ins u) (ins u))).mAxisTdata s

variable {rr₀ : Fin n} {ins : ℕ → SlotLinkIn n}

theorem delivered_eq_entered (hlabel : ∀ t, Labelled (ins t)) (s : Fin n) (t : ℕ) :
    delivered rr₀ ins s t = entered rr₀ ins s t := by
  -- the cycles are the same, and in each of them the flit is
  have hsame : (fun u => leaves (rrAt rr₀ ins u) (ins u) s) = fun u => entersAt rr₀ ins s u :=
    funext fun u => (enters_eq_leaves (hlabel u)).symm
  unfold delivered entered
  rw [hsame]
  refine List.map_congr_left fun u hu => ?_
  exact (demux_of_enters (hlabel u) (List.mem_filter.mp hu).2).1

/-- **The link is lossless, in order and fair.** For every number of slots, every pointer to begin
with, every sequence of inputs in which what enters a slot carries its id, and every pattern of
valid and ready bits: the flits delivered on an output are the flits entered on the input of that
number; with a flit for one output nothing is offered on any other; and, resets aside, between two
transfers of one slot every slot that is valid all the time has a transfer. -/
theorem link_delivers (n : Nat) (rr₀ : Fin n) (ins : ℕ → SlotLinkIn n)
    (hlabel : ∀ t, Labelled (ins t)) :
    (∀ s t, delivered rr₀ ins s t = entered rr₀ ins s t) ∧
      (∀ s t, entersAt rr₀ ins s t = true → ∀ g, g ≠ s →
        (demux (rrAt rr₀ ins t) (ins t) (tready (rrAt rr₀ ins t) (ins t))).mAxisTvalid g
          = false) ∧
      ∀ a b t₁ t₂, t₁ < t₂ → entersAt rr₀ ins a t₁ = true → entersAt rr₀ ins a t₂ = true →
        (∀ t, t₁ ≤ t → t < t₂ → (ins t).rstn = true) →
        b ≠ a → (∀ t, t₁ < t → t ≤ t₂ → (ins t).sAxisTvalid b = true) →
        ∃ t, t₁ < t ∧ t < t₂ ∧ entersAt rr₀ ins b t = true := by
  refine ⟨fun s t => delivered_eq_entered hlabel s t, ?_, ?_⟩
  · intro s t hs
    exact (demux_of_enters (hlabel t) hs).2
  · intro a b t₁ t₂ hlt h₁ h₂ hrstn hne hvalid
    have hstep : ∀ t, t₁ ≤ t → t < t₂ → RoundRobin.Step (rrAt rr₀ ins t) (ins t).sAxisTvalid
        (fun s => entersAt rr₀ ins s t = true) (rrAt rr₀ ins (t + 1)) :=
      fun t ht htlt => step_next (hlabel t) (hrstn t ht htlt)
    have hnext : RoundRobin.IsNext (rrAt rr₀ ins t₂) (ins t₂).sAxisTvalid a :=
      ((enters_iff (hlabel t₂)).mp h₂).1
    exact RoundRobin.served_between hstep hlt h₁ hnext hne hvalid

/-- Two slots that always offer flits of their ids to outputs that are always ready. -/
def busy (_ : ℕ) : SlotLinkIn 2 where
  rstn := true
  sAxisTdata := fun s => Flit.setSlotId {} (UInt16.ofNat s)
  sAxisTvalid := fun _ => true
  mAxisTready := fun _ => true

/-- They take turns. -/
theorem link_delivers_busy : delivered 0 busy 1 3 = entered 0 busy 1 3 ∧
    entered 0 busy 1 3 = [Flit.setSlotId {} 1, Flit.setSlotId {} 1] ∧
    ∃ t, 0 < t ∧ t < 2 ∧ entersAt 0 busy 0 t = true := by
  have hlabel : ∀ t, Labelled (busy t) := by
    intro t s _
    have hid : ∀ s : Fin 2, (UInt16.ofNat s.val).toNat = s.val := by decide
    rw [busy, Flit.slotId_setSlotId, hid]
  obtain ⟨hlossless, -, hfair⟩ := link_delivers 2 0 busy hlabel
  exact ⟨hlossless 1 3, by decide, hfair 1 0 0 2 (by decide) (by decide) (by decide)
    (fun _ _ _ => rfl) (by decide) fun _ _ _ => rfl⟩

end SlotLink

end OpenClickNP
