import OpenClickNP.Elements.AesPipeline

/-!
# The pipeline of `AES_Pipeline_4x`

The dispatcher, the four lanes and the merger as threads of one network. Each of them sees its
own part of a run, so what it is known to do alone (`Dispatching`, `MapsInOrder`, `Merging`)
holds in the network, and the streams between them join the parts.
-/

namespace OpenClickNP

open Run Deal

/-- `disp`, `enc1` to `enc4` and `merge` of the topology. -/
inductive Stage where
  | dispatch
  | lane (j : Fin 4)
  | merge
deriving DecidableEq

namespace Stage

/-- The connections of the topology between the stages. -/
def next : Stage → Nat → Option (Stage × Nat)
  | .dispatch, 1 => some (.lane 0, 1)
  | .dispatch, 2 => some (.lane 1, 1)
  | .dispatch, 3 => some (.lane 2, 1)
  | .dispatch, 4 => some (.lane 3, 1)
  | .lane j, 1 => some (.merge, j.val + 1)
  | _, _ => none

/-- The stream from `nic_in`. -/
def input : (Stage × Nat) ⊕ (Stage × Nat) := .inl (.dispatch, 1)

/-- The stream to `lastmux`. -/
def output : (Stage × Nat) ⊕ (Stage × Nat) := .inr (.merge, 1)

def State (τ : Fin 4 → Type) : Stage → Type
  | .dispatch => UInt8
  | .lane j => τ j
  | .merge => UInt8

variable {τ : Fin 4 → Type}

def fn (lanes : ∀ j, KernelFn (τ j) Flit) : ∀ i, KernelFn (State τ i) Flit
  | .dispatch => aesDispatch
  | .lane j => lanes j
  | .merge => aesMerge

/-- The states after the `.init` blocks. -/
def init (states : ∀ j, τ j) : ∀ i, State τ i
  | .dispatch => (0 : UInt8)
  | .lane j => states j
  | .merge => (0 : UInt8)

theorem next_eq_some {i : Stage} {p : Nat} {r : Stage × Nat} (h : next i p = some r) :
    (∃ j : Fin 4, i = .dispatch ∧ p = j.val + 1 ∧ r = (.lane j, 1)) ∨
      ∃ j : Fin 4, i = .lane j ∧ p = 1 ∧ r = (.merge, j.val + 1) := by
  unfold next at h
  split at h
  · exact Or.inl ⟨0, rfl, rfl, (Option.some.inj h).symm⟩
  · exact Or.inl ⟨1, rfl, rfl, (Option.some.inj h).symm⟩
  · exact Or.inl ⟨2, rfl, rfl, (Option.some.inj h).symm⟩
  · exact Or.inl ⟨3, rfl, rfl, (Option.some.inj h).symm⟩
  · exact Or.inr ⟨_, rfl, rfl, (Option.some.inj h).symm⟩
  · cases h

theorem next_dispatch : ∀ j : Fin 4, next .dispatch (j.val + 1) = some (.lane j, 1)
  | 0 => rfl
  | 1 => rfl
  | 2 => rfl
  | 3 => rfl

theorem next_inj (i : Stage) (p : Nat) (j : Stage) (q : Nat) (r : Stage × Nat)
    (hp : next i p = some r) (hq : next j q = some r) : i = j ∧ p = q := by
  rcases next_eq_some hp with ⟨k, rfl, rfl, rfl⟩ | ⟨k, rfl, rfl, rfl⟩
  · rcases next_eq_some hq with ⟨k', rfl, rfl, hr⟩ | ⟨k', -, -, hr⟩
    · cases hr
      exact ⟨rfl, rfl⟩
    · cases hr
  · rcases next_eq_some hq with ⟨k', -, -, hr⟩ | ⟨k', rfl, rfl, hr⟩
    · cases hr
    · have hk : k = k' := Fin.ext (Nat.succ.inj (Prod.mk.inj hr).2)
      exact ⟨by rw [hk], rfl⟩

theorem next_ne_self (i : Stage) (p q : Nat) : next i p ≠ some (i, q) := by
  unfold next
  split <;> simp

theorem ends : Ends (pointToPoint next) input output :=
  ends_pointToPoint (ownStreams_pointToPoint next_inj next_ne_self) fun k r h => by
    rcases next_eq_some h with ⟨j, -, -, hr⟩ | ⟨j, -, -, hr⟩ <;> cases hr

end Stage

abbrev AesNet (τ : Fin 4 → Type) :=
  NetState Stage ((Stage × Nat) ⊕ (Stage × Nat)) Stage (Stage.State τ) Flit

abbrev AesAction := NetAction Stage ((Stage × Nat) ⊕ (Stage × Nat)) Stage Flit

section
variable {τ : Fin 4 → Type} (lanes : ∀ j, KernelFn (τ j) Flit) (states : ∀ j, τ j)

def aesStep : AesNet τ → AesAction → Option (AesNet τ) :=
  nstep (pointToPoint Stage.next) (Stage.fn lanes)

def aesStart (cap : (Stage × Nat) ⊕ (Stage × Nat) → Int) : AesNet τ :=
  ninit (Stage.init states) cap

/-- Nothing is posted, and every write finds room. -/
abbrev AesFlowing : AesNet τ → AesAction → Prop :=
  Flowing (pointToPoint Stage.next) Stage.input Stage.output

/-- The merger does not pass over the lane whose turn it is. -/
def MergesInTurn (s : AesNet τ) : AesAction → Prop
  | .thread .merge => InTurn (kernelOf (pointToPoint Stage.next) s .merge) .kernel
  | _ => True

instance (s : AesNet τ) : ∀ a, Decidable (MergesInTurn s a)
  | .thread .merge =>
    decidableInTurn (kernelOf (pointToPoint Stage.next) s .merge) .kernel
  | .thread .dispatch => isTrue trivial
  | .thread (.lane _) => isTrue trivial
  | .inject _ _ => isTrue trivial
  | .observe _ => isTrue trivial
  | .post _ _ => isTrue trivial

/-- The input, each flit as its lane maps it. -/
def laneMapped (g : Fin 4 → Flit → Flit) (fs : List Flit) : List Flit :=
  fs.mapIdx fun i f => g (Fin.ofNat 4 i) f

end

section
variable {τ : Fin 4 → Type} {lanes : ∀ j, KernelFn (τ j) Flit} {states : ∀ j, τ j}
variable {cap : (Stage × Nat) ⊕ (Stage × Nat) → Int} {t : AesNet τ}
variable {ok : AesNet τ → AesAction → Prop}

/-- What the dispatcher has written to lane `j` is the lane's share of what has come in. -/
theorem dispatched_share (hok : ∀ s a, ok s a → AesFlowing s a)
    (hrun : Reaches (aesStep lanes) ok (aesStart states cap) t) (j : Fin 4) :
    t.written (.inl (.lane j, 1)) <+: deal 4 j.val (t.written Stage.input) := by
  have hstage := stage_run Stage.ends hok hrun .dispatch
  have hdealt : Dispatching (kernelOf (pointToPoint Stage.next) t .dispatch) :=
    hstage.inv (P := Dispatching) ⟨rfl, rfl, fun i _ => by cases i <;> rfl⟩
      fun s a u hs _ hstep => dispatching_step hs hstep
  have hwritten := emitted_begins_sent (plain_aesDispatch j.isLt) (fun _ _ h => h.1 _) hstage
  rw [hdealt.shares j.val j.isLt] at hwritten
  have htaken : (kernelOf (pointToPoint Stage.next) t .dispatch).taken 1
      <+: t.written Stage.input :=
    taken_begins_arrived_of_reaches hstage 1
  have hstream : (pointToPoint Stage.next).outOf .dispatch (j.val + 1) = .inl (.lane j, 1) := by
    simp only [pointToPoint, Stage.next_dispatch]
  rw [show t.written (.inl (.lane j, 1))
    = emitted (j.val + 1) (kernelOf (pointToPoint Stage.next) t .dispatch) by
      rw [← hstream]; rfl]
  exact hwritten.trans (deal_begins (by decide) j.val htaken)

/-- What lane `j` has written to the merger is its share, mapped. -/
theorem mapped_share {g : Fin 4 → Flit → Flit}
    (hlanes : ∀ j, MapsInOrder (lanes j) (states j) (g j)) (hok : ∀ s a, ok s a → AesFlowing s a)
    (hrun : Reaches (aesStep lanes) ok (aesStart states cap) t) (j : Fin 4) :
    t.written (.inl (.merge, j.val + 1)) <+: (deal 4 j.val (t.written Stage.input)).map (g j) := by
  have hstage := stage_run Stage.ends hok hrun (.lane j)
  have htaken : (kernelOf (pointToPoint Stage.next) t (.lane j)).taken 1
      <+: t.written (.inl (.lane j, 1)) := taken_begins_arrived_of_reaches hstage 1
  have hwritten : t.written (.inl (.merge, j.val + 1))
      <+: ((kernelOf (pointToPoint Stage.next) t (.lane j)).taken 1).map (g j) :=
    hlanes j _ _ _ hstage
  exact hwritten.trans ((htaken.trans (dispatched_share hok hrun j)).map (g j))

/-- What the merger has taken from lane `j` is a first part of the lane's share, mapped. -/
theorem merged_share {g : Fin 4 → Flit → Flit}
    (hlanes : ∀ j, MapsInOrder (lanes j) (states j) (g j)) (hok : ∀ s a, ok s a → AesFlowing s a)
    (hrun : Reaches (aesStep lanes) ok (aesStart states cap) t) (j : Fin 4) :
    (kernelOf (pointToPoint Stage.next) t .merge).taken (j.val + 1)
      <+: (deal 4 j.val (t.written Stage.input)).map (g j) :=
  (taken_begins_arrived_of_reaches (stage_run Stage.ends hok hrun .merge) (j.val + 1)).trans
    (mapped_share hlanes hok hrun j)

/-- What the merger has written is a first part of what it has sent. -/
theorem output_begins_sent (hok : ∀ s a, ok s a → AesFlowing s a)
    (hrun : Reaches (aesStep lanes) ok (aesStart states cap) t) :
    t.written Stage.output <+: (kernelOf (pointToPoint Stage.next) t .merge).sent 1 :=
  emitted_begins_sent plain_aesMerge (fun _ _ h => h.1 1) (stage_run Stage.ends hok hrun .merge)

theorem deal_laneMapped (g : Fin 4 → Flit → Flit) (fs : List Flit) (j : Fin 4) :
    deal 4 j.val (laneMapped g fs) = (deal 4 j.val fs).map (g j) := by
  apply List.ext_getElem?
  intro k
  rw [getElem?_deal (by decide), List.getElem?_map, getElem?_deal (by decide), laneMapped,
    List.getElem?_mapIdx]
  have hlane : Fin.ofNat 4 (k * 4 + j.val) = j := by
    apply Fin.ext
    show (k * 4 + j.val) % 4 = j.val
    omega
  rw [hlane]

end

/-- **What the pipeline emits.** For all lanes that map flits one-to-one in order, all stream
capacities and every interleaving of the dispatcher, the lanes and the merger on which writes
find room: what comes out is an interleaving of first parts of the lanes' mapped shares of the
input, each in order; and it is a first part of the mapped input in the original order if the
merger never passes over the lane whose turn it is. -/
theorem aesPipeline_keeps_order {τ : Fin 4 → Type} (lanes : ∀ j, KernelFn (τ j) Flit)
    (states : ∀ j, τ j) (g : Fin 4 → Flit → Flit)
    (hlanes : ∀ j, MapsInOrder (lanes j) (states j) (g j))
    (cap : (Stage × Nat) ⊕ (Stage × Nat) → Int) :
    (∀ t, Reaches (aesStep lanes) AesFlowing (aesStart states cap) t →
      ∃ turns, t.written Stage.output = turns.map Prod.snd ∧ ∀ j : Fin 4,
        fromLane j.val turns <+: (deal 4 j.val (t.written Stage.input)).map (g j)) ∧
    ∀ t, Reaches (aesStep lanes) (fun s a => AesFlowing s a ∧ MergesInTurn s a)
        (aesStart states cap) t →
      t.written Stage.output <+: laneMapped g (t.written Stage.input) := by
  refine ⟨fun t hrun => ?_, fun t hrun => ?_⟩
  · have hok : ∀ (s : AesNet τ) a, AesFlowing s a → AesFlowing s a := fun _ _ h => h
    have hmerging : ∃ turns, Merging turns (kernelOf (pointToPoint Stage.next) t .merge) :=
      (stage_run Stage.ends hok hrun .merge).inv
        (P := fun s => ∃ turns, Merging turns s) ⟨[], rfl, rfl, fun _ _ => rfl⟩
        fun s a u ⟨turns, hs⟩ _ hstep => merging_step hs hstep
    obtain ⟨turns, hmerging⟩ := hmerging
    have hout := output_begins_sent hok hrun
    rw [hmerging.sent] at hout
    refine ⟨turns.take (t.written Stage.output).length, ?_, fun j => ?_⟩
    · rw [List.map_take]
      exact List.prefix_iff_eq_take.mp hout
    · have hpart : fromLane j.val (turns.take (t.written Stage.output).length)
          <+: fromLane j.val turns := ((List.take_prefix _ _).filter _).map _
      have hlane := merged_share hlanes hok hrun j
      rw [hmerging.lanes j.val j.isLt] at hlane
      exact hpart.trans hlane
  · have hok : ∀ (s : AesNet τ) a, AesFlowing s a ∧ MergesInTurn s a → AesFlowing s a :=
      fun _ _ h => h.1
    have hmerging : MergingInTurn (kernelOf (pointToPoint Stage.next) t .merge) := by
      have hstage := stage_run_with (i := .merge) (e := InTurn) Stage.ends hok (fun s h => h.2)
        (fun ks b hb => by cases b <;> trivial) hrun
      exact hstage.inv (P := MergingInTurn) ⟨rfl, rfl, fun i _ => by cases i <;> rfl⟩
        fun s a u hs hok hstep => mergingInTurn_step hs hok.2 hstep
    refine (output_begins_sent hok hrun).trans (begins_of_shares (n := 4) (by decide) ?_)
    intro j hj
    have hlane := merged_share hlanes hok hrun ⟨j, hj⟩
    rw [hmerging.lanes j hj] at hlane
    rw [deal_laneMapped g _ ⟨j, hj⟩]
    exact hlane

/-- `AES_ECB` under a cipher that leaves the blocks as they are. -/
def plainLane : KernelFn Unit Flit := aesEcb (fun _ block => block) fun _ key => key

/-- One flit through the first lane. -/
def oneFlitRun : List AesAction :=
  .inject Stage.input {} :: List.replicate 9 (.thread .dispatch) ++
    List.replicate 6 (.thread (.lane 0)) ++ List.replicate 10 (.thread .merge)

theorem aesPipeline_keeps_one_flit :
    (exec (aesStep fun _ => plainLane) (aesStart (fun _ => ()) fun _ => 4) oneFlitRun).written
        Stage.output
      <+: laneMapped (fun _ => ecbFlit fun block => block)
        ((exec (aesStep fun _ => plainLane) (aesStart (fun _ => ()) fun _ => 4)
          oneFlitRun).written Stage.input) :=
  (aesPipeline_keeps_order (fun _ => plainLane) (fun _ => ()) (fun _ => ecbFlit fun block => block)
    (fun _ => aesEcb_mapsInOrder ()) fun _ => 4).2 _ (Meets.reaches (by decide))

/-- Two flits are dealt to the first two lanes, and the second lane is the faster one. -/
def fasterLaneRun : List AesAction :=
  .inject Stage.input {} :: .inject Stage.input ⟨Vector.replicate 64 255⟩ ::
    List.replicate 18 (.thread .dispatch) ++ List.replicate 6 (.thread (.lane 1)) ++
      List.replicate 10 (.thread .merge)

/-- The flit of the faster lane comes out first. -/
theorem aesPipeline_reorders :
    ¬ ∀ (τ : Fin 4 → Type) (lanes : ∀ j, KernelFn (τ j) Flit) (states : ∀ j, τ j)
      (g : Fin 4 → Flit → Flit), (∀ j, MapsInOrder (lanes j) (states j) (g j)) →
      ∀ (cap : (Stage × Nat) ⊕ (Stage × Nat) → Int) (t : AesNet τ),
        Reaches (aesStep lanes) AesFlowing (aesStart states cap) t →
        t.written Stage.output <+: laneMapped g (t.written Stage.input) := by
  intro h
  have hout := h (fun _ => Unit) (fun _ => plainLane) (fun _ => ())
    (fun _ => ecbFlit fun block => block) (fun _ => aesEcb_mapsInOrder ()) (fun _ => 4) _
    (@Meets.reaches _ _ _ _ _ fasterLaneRun (by decide))
  -- the two flits differ in their `eop` flags
  have heop := hout.map Flit.eop
  exact absurd heop (by decide)

end OpenClickNP
