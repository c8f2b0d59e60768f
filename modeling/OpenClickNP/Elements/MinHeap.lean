import OpenClickNP.Backend.HandlerCalls
import OpenClickNP.Lib.BinaryHeap
import OpenClickNP.Lib.Slots

/-!
# `MinHeap.clnp`

Two parallel arrays hold flits and their priorities, as a binary heap with the smallest priority in
the root. A call takes a flit if there is one and room for it, sifts it up, and then sends the flit
in the root, puts the last one there and sifts that down (`minHeap_sends_least`).
-/

namespace OpenClickNP

open Run BinaryHeap Slots

/-! ## The element -/

/-- The `.state` block. `size` never exceeds `HEAP_SIZE`. -/
structure MinHeapState where
  prio : Fin 64 → UInt64
  data : Fin 64 → Flit
  size : Nat
  size_le : size ≤ 64

/-- The `.init` block, after the value-initialisation of the state. -/
def minHeapInit : MinHeapState where
  prio := fun _ => 0
  data := fun _ => {}
  size := 0
  size_le := Nat.zero_le 64

/-- `t = a[i]; a[i] = a[j]; a[j] = t`. -/
def swapSlots {α : Type} (a : Fin 64 → α) (i j : Fin 64) : Fin 64 → α :=
  Function.update (Function.update a i (a j)) j (a i)

namespace MinHeapState

def swap (st : MinHeapState) (i j : Fin 64) : MinHeapState :=
  { st with prio := swapSlots st.prio i j, data := swapSlots st.data i j }

/-- The loop "Sift up". -/
def siftUp (st : MinHeapState) (i : Fin 64) : MinHeapState :=
  if 0 < i.val then
    let p := parent i
    if st.prio i < st.prio p then (st.swap i p).siftUp p else st
  else st
termination_by i.val
decreasing_by exact parent_lt ‹0 < i.val›

/-- `if (c < _state.size && _state.prio[c] < _state.prio[m]) m = c`. -/
def pick (st : MinHeapState) (m : Fin 64) (c : Nat) : Fin 64 :=
  if h : c < st.size then
    let child : Fin 64 := ⟨c, Nat.lt_of_lt_of_le h st.size_le⟩
    if st.prio child < st.prio m then child else m
  else m

/-- The position `m` of a turn of the loop "Sift down". -/
def smallest (st : MinHeapState) (i : Fin 64) : Fin 64 :=
  st.pick (st.pick i (2 * i.val + 1)) (2 * i.val + 2)

theorem pick_cases (st : MinHeapState) (m : Fin 64) (c : Nat) :
    st.pick m c = m ∨
      (st.pick m c).val = c ∧ c < st.size ∧ st.prio (st.pick m c) < st.prio m := by
  unfold pick
  split
  · rename_i hc
    simp only []
    split
    · rename_i hlt
      exact Or.inr ⟨rfl, hc, hlt⟩
    · exact Or.inl rfl
  · exact Or.inl rfl

/-- The position is that of a smaller child, or the place itself. -/
theorem smallest_cases (st : MinHeapState) (i : Fin 64) :
    st.smallest i = i ∨
      0 < (st.smallest i).val ∧ (st.smallest i).val < st.size ∧ parent (st.smallest i) = i ∧
        st.prio (st.smallest i) < st.prio i := by
  have hchild : ∀ m : Fin 64, m.val = 2 * i.val + 1 ∨ m.val = 2 * i.val + 2 → parent m = i := by
    intro m hm
    apply Fin.ext
    rw [parent_val]
    omega
  unfold smallest
  rcases st.pick_cases i (2 * i.val + 1) with hl | ⟨hl, hlsize, hllt⟩
  · rw [hl]
    rcases st.pick_cases i (2 * i.val + 2) with hr | ⟨hr, hrsize, hrlt⟩
    · exact Or.inl hr
    · exact Or.inr ⟨by omega, by omega, hchild _ (Or.inr hr), hrlt⟩
  · rcases st.pick_cases (st.pick i (2 * i.val + 1)) (2 * i.val + 2) with hr | ⟨hr, hrsize, hrlt⟩
    · rw [hr]
      exact Or.inr ⟨by omega, by omega, hchild _ (Or.inl hl), hllt⟩
    · exact Or.inr ⟨by omega, by omega, hchild _ (Or.inr hr), UInt64.lt_trans hrlt hllt⟩

theorem lt_smallest {st : MinHeapState} {i : Fin 64} (h : st.smallest i ≠ i) :
    i.val < (st.smallest i).val := by
  rcases st.smallest_cases i with hself | ⟨hpos, -, hparent, -⟩
  · exact absurd hself h
  · have hlt := parent_lt hpos
    rwa [hparent] at hlt

/-- The loop "Sift down". -/
def siftDown (st : MinHeapState) (i : Fin 64) : MinHeapState :=
  let m := st.smallest i
  if m = i then st else (st.swap i m).siftDown m
termination_by 64 - i.val
decreasing_by
  have hlt := lt_smallest ‹¬ st.smallest i = i›
  omega

/-- The branch that takes a flit, after `read_input_port`. -/
def insert (st : MinHeapState) (f : Flit) (h : st.size < 64) : MinHeapState :=
  let i : Fin 64 := ⟨st.size, h⟩
  siftUp
    { prio := Function.update st.prio i (f.get 0)
      data := Function.update st.data i f
      size := st.size + 1
      size_le := h } i

theorem pred_size_lt (st : MinHeapState) (h : 0 < st.size) : st.size - 1 < 64 := by
  have hle := st.size_le
  omega

/-- The branch that sends a flit, after `set_output_port`. -/
def removeRoot (st : MinHeapState) (h : 0 < st.size) : MinHeapState :=
  let last : Fin 64 := ⟨st.size - 1, st.pred_size_lt h⟩
  siftDown
    { prio := Function.update st.prio 0 (st.prio last)
      data := Function.update st.data 0 (st.data last)
      size := st.size - 1
      size_le := Nat.le_of_lt (st.pred_size_lt h) } 0

end MinHeapState

/-- `test_input_port(PORT_1) && _state.size < _state.HEAP_SIZE`. -/
def MinHeapState.Takes (v : View MinHeapState Flit) : Prop :=
  testPort v.inputPort 1 = true ∧ v.state.size < 64

instance MinHeapState.decidableTakes (v : View MinHeapState Flit) :
    Decidable (MinHeapState.Takes v) :=
  inferInstanceAs (Decidable (_ ∧ _))

/-- The state behind the first branch. -/
def MinHeapState.filled (v : View MinHeapState Flit) : MinHeapState :=
  if h : MinHeapState.Takes v then v.state.insert (v.inputData 1) h.2 else v.state

/-- The `.handler` block. -/
def minHeapHandler (v : View MinHeapState Flit) : BodyResult MinHeapState Flit :=
  let st := MinHeapState.filled v
  { state := if h : 0 < st.size then st.removeRoot h else st
    ops := (if MinHeapState.Takes v then [.clearInputReady (PORT_BIT 1)] else [])
      ++ if 0 < st.size then [.setOutputPort 1 (st.data 0)] else []
    ret := some (PORT_BIT 1) }

def minHeap : KernelFn MinHeapState Flit where
  inPorts := [1]
  outPorts := [1]
  nodup_outPorts := nodup_one
  handler := minHeapHandler

/-! ## What the element stands for -/

namespace MinHeapState

/-- No priority is smaller than the one above it. -/
def HeapOrdered (st : MinHeapState) : Prop :=
  ∀ i : Fin 64, 0 < i.val → i.val < st.size → st.prio (parent i) ≤ st.prio i

/-- Each flit in use has its own priority. -/
def Paired (st : MinHeapState) : Prop :=
  ∀ i : Fin 64, i.val < st.size → st.prio i = (st.data i).get 0

/-- The flits in use. -/
def stored (st : MinHeapState) : List Flit := contents st.data st.size

/-- The priorities, as numbers. -/
def keys (st : MinHeapState) : Fin 64 → Nat := fun i => (st.prio i).toNat

theorem heapOrdered_iff (st : MinHeapState) : st.HeapOrdered ↔ IsHeap st.keys st.size :=
  forall_congr' fun _ => imp_congr_right fun _ => imp_congr_right fun _ => UInt64.le_iff_toNat_le

/-! ## Sifting -/

/-- `t` holds what `st` holds, in other slots, each flit beside the priority it was beside. -/
structure Sifted (st t : MinHeapState) : Prop where
  size : t.size = st.size
  moved : ∃ σ : Equiv.Perm (Fin 64), Within st.size σ ∧
    t.prio = st.prio ∘ σ ∧ t.data = st.data ∘ σ

variable {st t u : MinHeapState} {i j : Fin 64}

theorem Sifted.refl (st : MinHeapState) : Sifted st st :=
  ⟨rfl, Equiv.refl (Fin 64), within_refl, rfl, rfl⟩

theorem Sifted.trans (h₁ : Sifted st t) (h₂ : Sifted t u) : Sifted st u := by
  obtain ⟨hsize, σ, hσ, hprio, hdata⟩ := h₁
  obtain ⟨hsize', τ, hτ, hprio', hdata'⟩ := h₂
  rw [hsize] at hτ
  refine ⟨hsize'.trans hsize, τ.trans σ, hτ.trans hσ, ?_, ?_⟩
  · rw [hprio', hprio]
    rfl
  · rw [hdata', hdata]
    rfl

theorem swapSlots_eq {α : Type} (a : Fin 64 → α) (i j : Fin 64) :
    swapSlots a i j = a ∘ Equiv.swap i j := by
  rw [Equiv.swap_comm, Equiv.comp_swap_eq_update]
  rfl

theorem keys_swap (st : MinHeapState) (i j : Fin 64) :
    (st.swap i j).keys = st.keys ∘ Equiv.swap i j := by
  funext k
  show (swapSlots st.prio i j k).toNat = _
  rw [swapSlots_eq]
  rfl

theorem sifted_swap (hi : i.val < st.size) (hj : j.val < st.size) : Sifted st (st.swap i j) :=
  ⟨rfl, Equiv.swap i j, within_swap hi hj, swapSlots_eq st.prio i j, swapSlots_eq st.data i j⟩

theorem Sifted.paired (h : Sifted st t) (hst : st.Paired) : t.Paired := by
  obtain ⟨hsize, σ, hσ, hprio, hdata⟩ := h
  intro i hi
  rw [hsize] at hi
  rw [hprio, hdata]
  exact hst (σ i) ((hσ.lt_iff i).mpr hi)

theorem Sifted.stored_perm (h : Sifted st t) : t.stored.Perm st.stored := by
  obtain ⟨hsize, σ, hσ, -, hdata⟩ := h
  rw [stored, hsize, hdata]
  exact hσ.contents_perm st.data

/-- The loop swaps slots in use. -/
theorem sifted_siftUp (st : MinHeapState) (i : Fin 64) (hi : i.val < st.size) :
    Sifted st (st.siftUp i) := by
  fun_induction siftUp st i with
  | case1 st i hpos p hlt ih =>
    have hp : (parent i).val < st.size := Nat.lt_trans (parent_lt hpos) hi
    exact (sifted_swap hi hp).trans (ih hp)
  | case2 st i => exact Sifted.refl st
  | case3 st i => exact Sifted.refl st

/-- **Sifting up restores the order.** Induction on the turns. -/
theorem heapOrdered_siftUp (st : MinHeapState) (i : Fin 64) (hi : i.val < st.size)
    (h : RisesAt st.keys st.size i) : (st.siftUp i).HeapOrdered := by
  fun_induction siftUp st i with
  | case1 st i hpos p hlt ih =>
    have hp : (parent i).val < st.size := Nat.lt_trans (parent_lt hpos) hi
    apply ih hp
    rw [keys_swap]
    exact h.swap hpos hi (UInt64.lt_iff_toNat_lt.mp hlt)
  | case2 st i hpos p hle =>
    exact (heapOrdered_iff st).mpr
      (h.isHeap_of_le (Nat.not_lt.mp fun hlt => hle (UInt64.lt_iff_toNat_lt.mpr hlt)))
  | case3 st i hroot => exact (heapOrdered_iff st).mpr (h.isHeap_of_root hroot)

theorem sifted_siftDown (st : MinHeapState) (i : Fin 64) : Sifted st (st.siftDown i) := by
  fun_induction siftDown st i with
  | case1 st i => exact Sifted.refl st
  | case2 st i m hne ih =>
    rcases st.smallest_cases i with hself | ⟨-, hsize, -, -⟩
    · exact absurd hself hne
    · have hlt := lt_smallest hne
      exact (sifted_swap (Nat.lt_trans hlt hsize) hsize).trans ih

/-- No child is smaller than the one that is picked. -/
theorem smallest_le (st : MinHeapState) (i c : Fin 64) (hpos : 0 < c.val) (hc : c.val < st.size)
    (hparent : parent c = i) : st.keys (st.smallest i) ≤ st.keys c := by
  have hle : ∀ m k, st.keys (st.pick m k) ≤ st.keys m := by
    intro m k
    rcases st.pick_cases m k with h | ⟨-, -, hlt⟩
    · rw [h]
    · exact Nat.le_of_lt (UInt64.lt_iff_toNat_lt.mp hlt)
  have hpicked : ∀ m, st.keys (st.pick m c.val) ≤ st.keys c := by
    intro m
    unfold pick
    rw [dif_pos hc]
    simp only [Fin.eta]
    split
    · exact Nat.le_refl _
    · rename_i hlt
      exact Nat.not_lt.mp fun h => hlt (UInt64.lt_iff_toNat_lt.mpr h)
  have hcases := child_cases hpos
  rw [hparent] at hcases
  unfold smallest
  rcases hcases with h | h
  · rw [← h]
    exact (hle _ _).trans (hpicked i)
  · rw [← h]
    exact hpicked _

/-- **Sifting down restores the order.** Induction on the turns. -/
theorem heapOrdered_siftDown (st : MinHeapState) (i : Fin 64)
    (h : SinksAt st.keys st.size i) : (st.siftDown i).HeapOrdered := by
  fun_induction siftDown st i with
  | case1 st i m hself =>
    refine (heapOrdered_iff st).mpr (h.isHeap_of_le fun c hpos hc hparent => ?_)
    have hle := st.smallest_le i c hpos hc hparent
    rwa [show st.smallest i = i from hself] at hle
  | case2 st i m hne ih =>
    rcases st.smallest_cases i with hself | ⟨hpos, hsize, hparent, hlt⟩
    · exact absurd hself hne
    · apply ih
      rw [keys_swap]
      exact h.swap hpos hsize hparent (UInt64.lt_iff_toNat_lt.mp hlt) (st.smallest_le i)

/-! ## The two branches -/

theorem insert_heapOrdered (h : st.HeapOrdered) (f : Flit) (hroom : st.size < 64) :
    (st.insert f hroom).HeapOrdered := by
  apply heapOrdered_siftUp _ _ (Nat.lt_succ_self st.size)
  refine ((heapOrdered_iff st).mp h).risesAt hroom fun i hi => ?_
  have hne : i ≠ ⟨st.size, hroom⟩ := by
    rintro rfl
    exact Nat.lt_irrefl _ hi
  exact congrArg UInt64.toNat (Function.update_of_ne hne (f.get 0) st.prio)

theorem insert_paired (h : st.Paired) (f : Flit) (hroom : st.size < 64) :
    (st.insert f hroom).Paired := by
  refine (sifted_siftUp _ _ (Nat.lt_succ_self st.size)).paired fun i hi => ?_
  simp only []
  by_cases hlast : i = ⟨st.size, hroom⟩
  · rw [hlast, Function.update_self, Function.update_self]
  · rw [Function.update_of_ne hlast, Function.update_of_ne hlast]
    have hne : i.val ≠ st.size := fun heq => hlast (Fin.ext heq)
    exact h i (Nat.lt_of_le_of_ne (Nat.le_of_lt_succ hi) hne)

theorem insert_perm (st : MinHeapState) (f : Flit) (hroom : st.size < 64) :
    (st.insert f hroom).stored.Perm (st.stored ++ [f]) := by
  have hpush : contents (Function.update st.data ⟨st.size, hroom⟩ f) (st.size + 1)
      = st.stored ++ [f] := contents_push hroom f
  rw [← hpush]
  exact (sifted_siftUp _ _ (Nat.lt_succ_self st.size)).stored_perm

theorem removeRoot_heapOrdered (h : st.HeapOrdered) (hpos : 0 < st.size) :
    (st.removeRoot hpos).HeapOrdered := by
  apply heapOrdered_siftDown
  have hheap := (heapOrdered_iff st).mp h
  have hsize : st.size = st.size - 1 + 1 := by omega
  rw [hsize] at hheap
  refine hheap.sinksAt 0 rfl fun i hi => ?_
  exact congrArg UInt64.toNat (Function.update_of_ne hi _ st.prio)

theorem removeRoot_paired (h : st.Paired) (hpos : 0 < st.size) :
    (st.removeRoot hpos).Paired := by
  refine (sifted_siftDown _ 0).paired fun i hi => ?_
  simp only [] at hi ⊢
  by_cases hroot : i = 0
  · rw [hroot, Function.update_self, Function.update_self]
    exact h _ (by simp only []; omega)
  · rw [Function.update_of_ne hroot, Function.update_of_ne hroot]
    exact h i (by omega)

theorem removeRoot_perm (st : MinHeapState) (hpos : 0 < st.size) :
    (st.data 0 :: (st.removeRoot hpos).stored).Perm st.stored := by
  have hsize : st.size - 1 + 1 = st.size := by omega
  have hfill := contents_fill (a := st.data) (st.pred_size_lt hpos) (i := 0) (Nat.zero_le _)
  rw [hsize] at hfill
  exact ((sifted_siftDown _ 0).stored_perm.cons _).trans hfill

/-- The flit in the root has a smallest priority. -/
theorem root_least (h : st.HeapOrdered) (hpaired : st.Paired) (hpos : 0 < st.size) :
    ∀ g ∈ st.stored, (st.data 0).get 0 ≤ g.get 0 := by
  intro g hg
  obtain ⟨i, hi, rfl⟩ := mem_contents.mp hg
  rw [← hpaired 0 hpos, ← hpaired i hi, UInt64.le_iff_toNat_le]
  exact ((heapOrdered_iff st).mp h).root_le 0 rfl i hi

/-! ## One call -/

section
variable {v : View MinHeapState Flit}

theorem takenIn_minHeap (v : View MinHeapState Flit) :
    takenIn 1 v (minHeap.handler v) = if Takes v then [v.inputData 1] else [] := by
  refine takenIn_of_guarded (by decide) (fun h => h.1) ?_ rfl
  split <;> rfl

theorem setsOf_minHeap (v : View MinHeapState Flit) :
    setsOf 1 (minHeap.handler v).ops
      = if 0 < (filled v).size then [(filled v).data 0] else [] := by
  refine (setsOf_of_guarded 1 1 rfl).trans ?_
  split <;> rfl

theorem filled_heapOrdered (h : v.state.HeapOrdered) : (filled v).HeapOrdered := by
  unfold filled
  split
  · exact insert_heapOrdered h _ _
  · exact h

theorem filled_paired (h : v.state.Paired) : (filled v).Paired := by
  unfold filled
  split
  · exact insert_paired h _ _
  · exact h

theorem filled_perm (v : View MinHeapState Flit) :
    (filled v).stored.Perm (v.state.stored ++ takenIn 1 v (minHeap.handler v)) := by
  rw [takenIn_minHeap]
  unfold filled
  split
  · exact insert_perm _ _ _
  · rw [List.append_nil]

theorem state_minHeap (v : View MinHeapState Flit) : (minHeap.handler v).state
    = if h : 0 < (filled v).size then (filled v).removeRoot h else filled v := rfl

end

end MinHeapState

open MinHeapState

/-- What a call makes of the flits that are stored and of the one that it finds on the port: it
keeps the heap, takes the flit if there is room, and sends one with a smallest lane 0 of all. -/
structure SendsLeast (l : Locals MinHeapState Flit) : Prop where
  ordered : (minHeap.handler (viewOf l)).state.HeapOrdered
  paired : (minHeap.handler (viewOf l)).state.Paired
  size_le : (minHeap.handler (viewOf l)).state.size ≤ 64
  takes : takenIn 1 (viewOf l) (minHeap.handler (viewOf l))
    = if l.state.size < 64 then latched l 1 else []
  leaves : latched (runBody l (minHeap.handler (viewOf l))) 1
    = if l.state.size < 64 then [] else latched l 1
  least : l.state.stored ++ takenIn 1 (viewOf l) (minHeap.handler (viewOf l)) ≠ [] →
    ∃ f ∈ l.state.stored ++ takenIn 1 (viewOf l) (minHeap.handler (viewOf l)),
      setsOf 1 (minHeap.handler (viewOf l)).ops = [f] ∧
      ∀ g ∈ l.state.stored ++ takenIn 1 (viewOf l) (minHeap.handler (viewOf l)),
        f.get 0 ≤ g.get 0
  conserves : ((minHeap.handler (viewOf l)).state.stored
      ++ setsOf 1 (minHeap.handler (viewOf l)).ops).Perm
    (l.state.stored ++ takenIn 1 (viewOf l) (minHeap.handler (viewOf l)))

/-- **A call keeps the heap, and loses nothing.** -/
theorem keeps_of_heap {v : View MinHeapState Flit} (h : v.state.HeapOrdered)
    (hpaired : v.state.Paired) : (minHeap.handler v).state.HeapOrdered ∧
      (minHeap.handler v).state.Paired ∧
      ((minHeap.handler v).state.stored ++ setsOf 1 (minHeap.handler v).ops).Perm
        (v.state.stored ++ takenIn 1 v (minHeap.handler v)) := by
  have hordered := filled_heapOrdered h
  have hpairs := filled_paired hpaired
  have hperm := filled_perm v
  rw [state_minHeap, setsOf_minHeap]
  by_cases hpos : 0 < (filled v).size
  · rw [dif_pos hpos, if_pos hpos]
    refine ⟨removeRoot_heapOrdered hordered hpos, removeRoot_paired hpairs hpos, ?_⟩
    exact ((List.perm_append_singleton _ _).trans (removeRoot_perm _ hpos)).trans hperm
  · rw [dif_neg hpos, if_neg hpos, List.append_nil]
    exact ⟨hordered, hpairs, hperm⟩

/-- **A call sends a flit with a smallest lane 0.** -/
theorem least_of_heap {v : View MinHeapState Flit} (h : v.state.HeapOrdered)
    (hpaired : v.state.Paired) (hne : v.state.stored ++ takenIn 1 v (minHeap.handler v) ≠ []) :
    ∃ f ∈ v.state.stored ++ takenIn 1 v (minHeap.handler v),
      setsOf 1 (minHeap.handler v).ops = [f] ∧
      ∀ g ∈ v.state.stored ++ takenIn 1 v (minHeap.handler v), f.get 0 ≤ g.get 0 := by
  have hperm := filled_perm v
  have hpos : 0 < (filled v).size := by
    rw [← length_contents (filled v).size_le (a := (filled v).data)]
    exact hperm.length_eq ▸ List.length_pos_of_ne_nil hne
  have hroot : (filled v).data 0 ∈ (filled v).stored := mem_contents.mpr ⟨0, hpos, rfl⟩
  refine ⟨(filled v).data 0, hperm.mem_iff.mp hroot, ?_, fun g hg => ?_⟩
  · rw [setsOf_minHeap, if_pos hpos]
  · exact root_least (filled_heapOrdered h) (filled_paired hpaired) hpos g (hperm.mem_iff.mpr hg)

theorem takes_minHeap (l : Locals MinHeapState Flit) :
    takenIn 1 (viewOf l) (minHeap.handler (viewOf l))
      = if l.state.size < 64 then latched l 1 else [] := by
  rw [takenIn_minHeap]
  unfold Takes latched
  show (if testPort l.inputPort 1 = true ∧ l.state.size < 64 then [l.inputData 1] else []) = _
  by_cases hbit : testPort l.inputPort 1 = true <;> by_cases hroom : l.state.size < 64 <;>
    simp [hbit, hroom]

/-- A flit that finds no room stays on the port. -/
theorem leaves_minHeap (l : Locals MinHeapState Flit) :
    latched (runBody l (minHeap.handler (viewOf l))) 1
      = if l.state.size < 64 then [] else latched l 1 := by
  have hsplit := latched_runBody l (minHeap.handler (viewOf l)) 1
  have htaken : takenBy l (runBody l (minHeap.handler (viewOf l))) 1
      = takenIn 1 (viewOf l) (minHeap.handler (viewOf l)) := takenBy_runBody l _ 1
  rw [htaken, takes_minHeap] at hsplit
  by_cases hroom : l.state.size < 64
  · rw [if_pos hroom] at hsplit ⊢
    exact List.self_eq_append_right.mp hsplit
  · rw [if_neg hroom] at hsplit ⊢
    exact hsplit.symm

/-- **One call.** -/
theorem sendsLeast_of_heap {l : Locals MinHeapState Flit} (h : l.state.HeapOrdered)
    (hpaired : l.state.Paired) : SendsLeast l := by
  obtain ⟨hordered, hpairs, hconserves⟩ := keeps_of_heap (v := viewOf l) h hpaired
  exact
    { ordered := hordered
      paired := hpairs
      size_le := (minHeap.handler (viewOf l)).state.size_le
      takes := takes_minHeap l
      leaves := leaves_minHeap l
      least := least_of_heap (v := viewOf l) h hpaired
      conserves := hconserves }

/-! ## Runs -/

/-- What every call keeps: the heap is in order, and the flits stored and sent are those taken. -/
structure HeapRun (st : MinHeapState) (taken sent : List Flit) : Prop where
  ordered : st.HeapOrdered
  paired : st.Paired
  conserved : (st.stored ++ sent).Perm taken

theorem heapRun_minHeapInit : HeapRun minHeapInit [] [] where
  ordered := (heapOrdered_iff minHeapInit).mpr (isHeap_zero minHeapInit.keys)
  paired i hi := absurd hi (Nat.not_lt_zero i.val)
  conserved := List.Perm.nil

theorem heapRun_call (v : View MinHeapState Flit) (taken sent : List Flit)
    (h : HeapRun v.state taken sent) : HeapRun (minHeap.handler v).state
      (taken ++ takenIn 1 v (minHeap.handler v)) (sent ++ setsOf 1 (minHeap.handler v).ops) := by
  obtain ⟨hordered, hpaired, hstep⟩ := keeps_of_heap h.ordered h.paired
  exact ⟨hordered, hpaired, conserves_append h.conserved hstep⟩

/-- **A call of `MinHeap` sends a flit with a smallest lane 0.** In every state of every run the
heap is in order and nothing is lost; and from a heap of any size, whatever is on the port, a call
keeps the heap, sends a flit with a smallest lane 0 of those stored and of the one it takes, and
leaves a flit on the port if the heap is full. The loops are total functions. -/
theorem minHeap_sends_least :
    (∀ (inCap outCap : Nat → Int) (as : List (KernelAction Flit)),
      let s := exec (kstep minHeap) (kinit minHeapInit inCap outCap) as
      s.locals.state.HeapOrdered ∧ s.locals.state.Paired ∧
        (s.locals.state.stored ++ s.sent 1).Perm (s.taken 1) ∧ SendsLeast s.locals) ∧
      ∀ l : Locals MinHeapState Flit, l.state.HeapOrdered → l.state.Paired → SendsLeast l := by
  refine ⟨fun inCap outCap as => ?_, fun l => sendsLeast_of_heap⟩
  have hrun := inv_calls (K := minHeap) (s := kinit minHeapInit inCap outCap) rfl heapRun_call as
    rfl heapRun_minHeapInit
  exact ⟨hrun.ordered, hrun.paired, hrun.conserved, sendsLeast_of_heap hrun.ordered hrun.paired⟩

/-- A full heap, with a flit on the port. -/
def fullHeap : Locals MinHeapState Flit where
  state :=
    { prio := fun _ => 7, data := fun _ => ({} : Flit).set 0 7, size := 64, size_le := le_rfl }
  inputPort := PORT_BIT 1
  inputData := fun _ => ({} : Flit).set 0 3
  outputData := fun _ => {}

theorem minHeap_sends_least_full : SendsLeast fullHeap :=
  minHeap_sends_least.2 fullHeap (fun _ _ _ => UInt64.le_refl 7) fun _ _ =>
    (by decide : (7 : UInt64) = (({} : Flit).set 0 7).get 0)

end OpenClickNP
