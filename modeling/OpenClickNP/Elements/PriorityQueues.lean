import OpenClickNP.Backend.Transduction
import OpenClickNP.Lib.PriorityFifo
import OpenClickNP.Lib.Slots

/-!
# `PriorityQueue.clnp` and `PriorityQueueSystolic.clnp`

Two queues that send a flit with the greatest low word of lane 0 first. `PriorityQueue` looks for
it in slots that are in no order, and fills the gap with the last flit; `PriorityQueueSystolic`
keeps its slots in order, and moves the flits behind a new one and behind the one that it sends.
Both send the same priorities (`priorityQueues_agree`); the second is also first in, first out
among flits of one priority.
-/

namespace OpenClickNP

open Run PriorityFifo Slots

/-! ## The elements -/

/-- The `.state` block of both, for `n` slots. `size` never exceeds `n`. -/
structure PrioState (n : Nat) where
  prio : Fin n → UInt32
  data : Fin n → Flit
  size : Nat
  size_le : size ≤ n

/-- The `.init` block, after the value-initialisation of the state. -/
def prioInit (n : Nat) : PrioState n where
  prio := fun _ => 0
  data := fun _ => {}
  size := 0
  size_le := Nat.zero_le n

/-- What the elements do in their own ways: put a flit in, choose one, and take it out. -/
structure PrioService (n : Nat) where
  insert : ∀ st : PrioState n, Flit → st.size < n → PrioState n
  choose : ∀ st : PrioState n, 0 < st.size → Fin n
  remove : ∀ st : PrioState n, 0 < st.size → PrioState n

section
variable {n : Nat}

/-- `test_input_port(PORT_1) && _state.size < _state.Q`. -/
def PrioState.Takes (v : View (PrioState n) Flit) : Prop :=
  testPort v.inputPort 1 = true ∧ v.state.size < n

instance PrioState.decidableTakes (v : View (PrioState n) Flit) : Decidable (PrioState.Takes v) :=
  inferInstanceAs (Decidable (_ ∧ _))

/-- The state behind the first branch. -/
def PrioService.filled (S : PrioService n) (v : View (PrioState n) Flit) : PrioState n :=
  if h : PrioState.Takes v then S.insert v.state (v.inputData 1) h.2 else v.state

/-- The `.handler` block. -/
def PrioService.handler (S : PrioService n) (v : View (PrioState n) Flit) :
    BodyResult (PrioState n) Flit :=
  let st := S.filled v
  { state := if h : 0 < st.size then S.remove st h else st
    ops := (if PrioState.Takes v then [.clearInputReady (PORT_BIT 1)] else [])
      ++ if h : 0 < st.size then [.setOutputPort 1 (st.data (S.choose st h))] else []
    ret := some (PORT_BIT 1) }

def PrioService.kernelFn (S : PrioService n) : KernelFn (PrioState n) Flit where
  inPorts := [1]
  outPorts := [1]
  nodup_outPorts := nodup_one
  handler := S.handler

namespace PrioState

theorem pred_size_lt (st : PrioState n) (h : 0 < st.size) : st.size - 1 < n := by
  have hle := st.size_le
  omega

/-- `_state.prio[i] = _state.prio[j]; _state.data[i] = _state.data[j]`. -/
def copySlot (st : PrioState n) (i j : Fin n) : PrioState n :=
  { st with
    prio := Function.update st.prio i (st.prio j)
    data := Function.update st.data i (st.data j) }

/-- `_state.prio[i] = key; _state.data[i] = f`. -/
def setSlot (st : PrioState n) (i : Fin n) (key : UInt32) (f : Flit) : PrioState n :=
  { st with prio := Function.update st.prio i key, data := Function.update st.data i f }

/-- Slots from 0 on are in use, `size` of them. -/
def withSize (st : PrioState n) (size : Nat) (h : size ≤ n) : PrioState n :=
  { st with size := size, size_le := h }

end PrioState

end

/-! ### `PriorityQueue` -/

namespace PriorityQueue

/-- `static_cast<uint32_t>(f.get(0) & 0xFFFFFFFFu)`. -/
def keyOf (f : Flit) : UInt32 := (f.get 0 &&& 0xFFFFFFFF).toUInt32

def insert (st : PrioState 256) (f : Flit) (h : st.size < 256) : PrioState 256 :=
  (st.withSize (st.size + 1) h).setSlot ⟨st.size, h⟩ (keyOf f) f

/-- The loop that looks for `best`. -/
def best (st : PrioState 256) (h : 0 < st.size) : Fin 256 :=
  ((positions 256 st.size).drop 1).foldl
    (fun best i => if st.prio i > st.prio best then i else best)
    ⟨0, Nat.lt_of_lt_of_le h st.size_le⟩

def remove (st : PrioState 256) (h : 0 < st.size) : PrioState 256 :=
  (st.copySlot (best st h) ⟨st.size - 1, st.pred_size_lt h⟩).withSize (st.size - 1)
    (Nat.le_of_lt (st.pred_size_lt h))

def service : PrioService 256 where
  insert := insert
  choose := best
  remove := remove

end PriorityQueue

def priorityQueue : KernelFn (PrioState 256) Flit := PriorityQueue.service.kernelFn

/-! ### `PriorityQueueSystolic` -/

namespace PriorityQueueSystolic

/-- `static_cast<uint32_t>(f.get(0))`. -/
def keyOf (f : Flit) : UInt32 := (f.get 0).toUInt32

/-- The slot before `i`. -/
def before (i : Fin 64) : Fin 64 := ⟨i.val - 1, by omega⟩

/-- `while (i > 0 && _state.prio[i-1] < key)`, with the `i` it ends with. -/
def shift (st : PrioState 64) (key : UInt32) (i : Fin 64) : PrioState 64 × Fin 64 :=
  if 0 < i.val ∧ st.prio (before i) < key then shift (st.copySlot i (before i)) key (before i)
  else (st, i)
termination_by i.val
decreasing_by
  show i.val - 1 < i.val
  omega

def insert (st : PrioState 64) (f : Flit) (h : st.size < 64) : PrioState 64 :=
  let key := keyOf f
  let shifted := shift (st.withSize (st.size + 1) h) key ⟨st.size, h⟩
  shifted.1.setSlot shifted.2 key f

/-- The loop that moves the flits to the front. -/
def advance (st : PrioState 64) : PrioState 64 :=
  ((positions 64 st.size).drop 1).foldl (fun st i => st.copySlot (before i) i) st

def remove (st : PrioState 64) (h : 0 < st.size) : PrioState 64 :=
  (advance st).withSize (st.size - 1) (Nat.le_of_lt (st.pred_size_lt h))

def service : PrioService 64 where
  insert := insert
  choose st h := ⟨0, Nat.lt_of_lt_of_le h st.size_le⟩
  remove := remove

end PriorityQueueSystolic

def priorityQueueSystolic : KernelFn (PrioState 64) Flit := PriorityQueueSystolic.service.kernelFn

/-! ## What both stand for -/

/-- The low word of lane 0. -/
def priority (f : Flit) : UInt32 := (f.get 0).toUInt32

/-- The priority as a number. -/
def priorityNat (f : Flit) : Nat := (priority f).toNat

namespace PrioState

variable {n : Nat} {st : PrioState n}

/-- The flits in use. -/
def stored (st : PrioState n) : List Flit := contents st.data st.size

/-- Each flit in use has its own priority. -/
def Keyed (st : PrioState n) : Prop :=
  ∀ i : Fin n, i.val < st.size → st.prio i = priority (st.data i)

/-- The priorities do not increase from slot to slot. -/
def Descending (st : PrioState n) : Prop :=
  ∀ i j : Fin n, i.val ≤ j.val → j.val < st.size → st.prio j ≤ st.prio i

theorem length_stored (st : PrioState n) : st.stored.length = st.size :=
  length_contents st.size_le

end PrioState

open PrioState

/-! ## One call of either -/

section
variable {n : Nat} (S : PrioService n) (v : View (PrioState n) Flit)

theorem takenIn_prio :
    takenIn 1 v (S.kernelFn.handler v) = if Takes v then [v.inputData 1] else [] := by
  refine takenIn_of_guarded (by decide) (fun h => h.1) ?_ rfl
  split <;> rfl

theorem setsOf_prio :
    setsOf 1 (S.kernelFn.handler v).ops
      = if h : 0 < (S.filled v).size then [(S.filled v).data (S.choose _ h)] else [] := by
  refine (setsOf_of_guarded 1 1 rfl).trans ?_
  split <;> rfl

theorem state_prio : (S.kernelFn.handler v).state
    = if h : 0 < (S.filled v).size then S.remove _ h else S.filled v := rfl

end

/-! ## `PriorityQueue` -/

namespace PriorityQueue

theorem keyOf_eq (f : Flit) : keyOf f = priority f := by
  have hmask : (0xFFFFFFFF : UInt64).toUInt32 = -1 := rfl
  rw [keyOf, UInt64.toUInt32_and, hmask, UInt32.and_neg_one]
  rfl

/-- A scan ends with a slot that it starts with or meets, and none of these has a greater
priority. -/
theorem scan_spec (prio : Fin 256 → UInt32) (l : List (Fin 256)) (b : Fin 256) :
    let found := l.foldl (fun best i => if prio i > prio best then i else best) b
    found ∈ b :: l ∧ ∀ i ∈ b :: l, (prio i).toNat ≤ (prio found).toNat := by
  induction l generalizing b with
  | nil => exact ⟨List.mem_singleton_self b, fun i hi => by rw [List.mem_singleton.mp hi]; rfl⟩
  | cons k l ih =>
    simp only [List.foldl_cons]
    obtain ⟨hmem, hle⟩ := ih (if prio k > prio b then k else b)
    have hfirst := hle _ List.mem_cons_self
    have hrest := fun i hi => hle i (List.mem_cons_of_mem _ hi)
    by_cases hlt : prio k > prio b
    · rw [if_pos hlt] at hmem hfirst hrest ⊢
      refine ⟨List.mem_cons_of_mem _ hmem, fun i hi => ?_⟩
      rcases List.mem_cons.mp hi with rfl | hi
      · exact (Nat.le_of_lt (UInt32.lt_iff_toNat_lt.mp hlt)).trans hfirst
      · rcases List.mem_cons.mp hi with rfl | hi
        · exact hfirst
        · exact hrest i hi
    · rw [if_neg hlt] at hmem hfirst hrest ⊢
      refine ⟨?_, fun i hi => ?_⟩
      · rcases List.mem_cons.mp hmem with heq | hmem
        · rw [heq]
          exact List.mem_cons_self
        · exact List.mem_cons_of_mem _ (List.mem_cons_of_mem _ hmem)
      · rcases List.mem_cons.mp hi with rfl | hi
        · exact hfirst
        · rcases List.mem_cons.mp hi with rfl | hi
          · exact (Nat.not_lt.mp fun h => hlt (UInt32.lt_iff_toNat_lt.mpr h)).trans hfirst
          · exact hrest i hi

theorem positions_of_pos {size : Nat} (h : 0 < size) :
    positions 256 size = 0 :: (positions 256 size).drop 1 := by
  have hhead : (positions 256 size)[0]? = some 0 := getElem?_positions (0 : Fin 256) h
  cases hpos : positions 256 size with
  | nil =>
    rw [hpos] at hhead
    cases hhead
  | cons k l =>
    rw [hpos] at hhead
    rw [Option.some.inj hhead]
    rfl

/-- **The scan finds a slot of the greatest priority.** -/
theorem best_spec (st : PrioState 256) (h : 0 < st.size) :
    (best st h).val < st.size ∧
      ∀ i : Fin 256, i.val < st.size → (st.prio i).toNat ≤ (st.prio (best st h)).toNat := by
  obtain ⟨hmem, hle⟩ := scan_spec st.prio ((positions 256 st.size).drop 1) 0
  rw [← positions_of_pos h] at hmem hle
  exact ⟨mem_positions.mp hmem, fun i hi => hle i (mem_positions.mpr hi)⟩

variable {st : PrioState 256}

theorem keyed_insert (h : st.Keyed) (f : Flit) (hroom : st.size < 256) :
    (insert st f hroom).Keyed := by
  intro i hi
  show Function.update st.prio _ (keyOf f) i = priority (Function.update st.data _ f i)
  by_cases hlast : i = ⟨st.size, hroom⟩
  · rw [hlast, Function.update_self, Function.update_self, keyOf_eq]
  · rw [Function.update_of_ne hlast, Function.update_of_ne hlast]
    have hne : i.val ≠ st.size := fun heq => hlast (Fin.ext heq)
    exact h i (Nat.lt_of_le_of_ne (Nat.le_of_lt_succ hi) hne)

theorem stored_insert (st : PrioState 256) (f : Flit) (hroom : st.size < 256) :
    (insert st f hroom).stored = st.stored ++ [f] := contents_push hroom f

theorem keyed_remove (h : st.Keyed) (hpos : 0 < st.size) : (remove st hpos).Keyed := by
  intro i hi
  have hlt : i.val < st.size - 1 := hi
  show Function.update st.prio _ _ i = priority (Function.update st.data _ _ i)
  by_cases hbest : i = best st hpos
  · rw [hbest, Function.update_self, Function.update_self]
    exact h _ (Nat.sub_lt hpos Nat.one_pos)
  · rw [Function.update_of_ne hbest, Function.update_of_ne hbest]
    exact h i (by omega)

theorem stored_remove (st : PrioState 256) (hpos : 0 < st.size) :
    (st.data (best st hpos) :: (remove st hpos).stored).Perm st.stored := by
  have hsize : st.size - 1 + 1 = st.size := by omega
  have hle : (best st hpos).val ≤ st.size - 1 := by
    have hlt := (best_spec st hpos).1
    omega
  have hfill := contents_fill (a := st.data) (st.pred_size_lt hpos) hle
  rw [hsize] at hfill
  exact hfill

/-- **`PriorityQueue` serves by priority.** -/
theorem serves (v : View (PrioState 256) Flit) (h : v.state.Keyed) :
    (priorityQueue.handler v).state.Keyed ∧
      ServesBest priorityNat v.state.stored (takenIn 1 v (priorityQueue.handler v))
        (setsOf 1 (priorityQueue.handler v).ops) (priorityQueue.handler v).state.stored := by
  have hkeyed : (service.filled v).Keyed := by
    unfold PrioService.filled
    split
    · exact keyed_insert h _ _
    · exact h
  have hfilled : (service.filled v).stored
      = v.state.stored ++ takenIn 1 v (priorityQueue.handler v) := by
    rw [priorityQueue, takenIn_prio]
    unfold PrioService.filled
    split
    · exact stored_insert _ _ _
    · rw [List.append_nil]
  rw [priorityQueue, setsOf_prio, state_prio]
  by_cases hpos : 0 < (service.filled v).size
  · rw [dif_pos hpos, dif_pos hpos]
    obtain ⟨hlt, hbest⟩ := best_spec _ hpos
    refine ⟨keyed_remove hkeyed hpos, ⟨fun _ => ⟨_, ?_, rfl, fun y hy => ?_⟩, ?_⟩⟩
    · rw [← priorityQueue, ← hfilled]
      exact mem_contents.mpr ⟨_, hlt, rfl⟩
    · rw [← priorityQueue, ← hfilled] at hy
      obtain ⟨i, hi, rfl⟩ := mem_contents.mp hy
      have hle := hbest i hi
      rwa [hkeyed i hi, hkeyed _ hlt] at hle
    · rw [← priorityQueue, ← hfilled]
      exact (List.perm_append_singleton _ _).trans (stored_remove _ hpos)
  · rw [dif_neg hpos, dif_neg hpos]
    have hnil : v.state.stored ++ takenIn 1 v (priorityQueue.handler v) = [] := by
      rw [← hfilled, ← List.length_eq_zero_iff, length_stored]
      omega
    rw [← priorityQueue]
    refine ⟨hkeyed, ⟨fun hne => absurd hnil hne, ?_⟩⟩
    rw [List.append_nil, hfilled]

end PriorityQueue

/-! ## `PriorityQueueSystolic` -/

namespace PriorityQueueSystolic

variable {st : PrioState 64} {key : UInt32} {i : Fin 64}

/-- What a slot holds. -/
def slot (st : PrioState 64) (k : Fin 64) : UInt32 × Flit := (st.prio k, st.data k)

theorem slot_copySlot (st : PrioState 64) (i j k : Fin 64) :
    slot (st.copySlot i j) k = if k = i then slot st j else slot st k := by
  show (Function.update st.prio i (st.prio j) k, Function.update st.data i (st.data j) k) = _
  by_cases h : k = i
  · rw [if_pos h, h, Function.update_self, Function.update_self]
    rfl
  · rw [if_neg h, Function.update_of_ne h, Function.update_of_ne h]
    rfl

theorem slot_setSlot (st : PrioState 64) (i k : Fin 64) (key : UInt32) (f : Flit) :
    slot (st.setSlot i key f) k = if k = i then (key, f) else slot st k := by
  show (Function.update st.prio i key k, Function.update st.data i f k) = _
  by_cases h : k = i
  · rw [if_pos h, h, Function.update_self, Function.update_self]
  · rw [if_neg h, Function.update_of_ne h, Function.update_of_ne h]
    rfl

/-- The loop goes from `i` down to `r.2`, and moves what it passes one slot back. -/
structure Shifted (st : PrioState 64) (key : UInt32) (i : Fin 64) (r : PrioState 64 × Fin 64) :
    Prop where
  size : r.1.size = st.size
  le : r.2.val ≤ i.val
  kept : ∀ k : Fin 64, k.val < r.2.val ∨ i.val < k.val → slot r.1 k = slot st k
  moved : ∀ k : Fin 64, r.2.val < k.val → k.val ≤ i.val → slot r.1 k = slot st (before k)
  passed : ∀ k : Fin 64, r.2.val ≤ k.val → k.val < i.val → st.prio k < key
  stopped : 0 < r.2.val → ¬ st.prio (before r.2) < key

/-- **The loop.** Induction on the turns. -/
theorem shifted_shift (st : PrioState 64) (key : UInt32) (i : Fin 64) :
    Shifted st key i (shift st key i) := by
  fun_induction shift st key i with
  | case1 st i hturn ih =>
    obtain ⟨hpos, hlt⟩ := hturn
    have hbefore : (before i).val = i.val - 1 := rfl
    have hother : ∀ k : Fin 64, k.val ≠ i.val → slot (st.copySlot i (before i)) k = slot st k := by
      intro k hk
      rw [slot_copySlot, if_neg fun heq => hk (congrArg Fin.val heq)]
    have hprio : ∀ k : Fin 64, k.val ≠ i.val → (st.copySlot i (before i)).prio k = st.prio k :=
      fun k hk => congrArg Prod.fst (hother k hk)
    have hle := ih.le
    refine ⟨ih.size, by omega, fun k hk => ?_, fun k hk hki => ?_, fun k hk hki => ?_, fun h => ?_⟩
    · rw [ih.kept k (by omega), hother k (by omega)]
    · by_cases hlast : k.val = i.val
      · -- the slot that this turn has filled
        rw [ih.kept k (by omega), Fin.ext hlast, slot_copySlot, if_pos rfl]
      · have hval : (before k).val = k.val - 1 := rfl
        rw [ih.moved k hk (by omega), hother (before k) (by omega)]
    · by_cases hlast : k.val = i.val - 1
      · rw [show k = before i from Fin.ext hlast]
        exact hlt
      · have hpassed := ih.passed k hk (by omega)
        rwa [hprio k (by omega)] at hpassed
    · have hval : (before (shift (st.copySlot i (before i)) key (before i)).2).val
          = (shift (st.copySlot i (before i)) key (before i)).2.val - 1 := rfl
      have hstopped := ih.stopped h
      rwa [hprio _ (by omega)] at hstopped
  | case2 st i hstop =>
    refine ⟨rfl, Nat.le_refl _, fun _ _ => rfl, fun k hk hki => ?_, fun k hk hki => ?_,
      fun h hlt => hstop ⟨h, hlt⟩⟩
    · exact absurd (Nat.lt_of_lt_of_le hk hki) (Nat.lt_irrefl _)
    · exact absurd (Nat.lt_of_le_of_lt hk hki) (Nat.lt_irrefl _)

theorem insert_spec (st : PrioState 64) (f : Flit) (hroom : st.size < 64) :
    ∃ r, Shifted (st.withSize (st.size + 1) hroom) (keyOf f) ⟨st.size, hroom⟩ r ∧
      insert st f hroom = r.1.setSlot r.2 (keyOf f) f :=
  ⟨_, shifted_shift _ _ _, rfl⟩

/-- **A flit is put behind all that are not of a lower priority.** -/
theorem stored_insert (hkeyed : st.Keyed) (hdesc : st.Descending) (f : Flit)
    (hroom : st.size < 64) : (insert st f hroom).stored = enqueue priorityNat st.stored f := by
  obtain ⟨r, hshift, hinsert⟩ := insert_spec st f hroom
  rw [hinsert]
  have hle : r.2.val ≤ st.size := hshift.le
  have hsize : r.1.size = st.size + 1 := hshift.size
  have hset := slot_setSlot r.1 r.2
  have hcontents : (r.1.setSlot r.2 (keyOf f) f).stored
      = st.stored.take r.2.val ++ f :: st.stored.drop r.2.val := by
    show contents _ r.1.size = _
    rw [hsize]
    refine contents_insert hroom hle (fun k hk => ?_) ?_ fun j k hjk hk hks => ?_
    · have hslot := hset k (keyOf f) f
      rw [if_neg fun heq => absurd hk (by rw [heq]; exact Nat.lt_irrefl _),
        hshift.kept k (Or.inl hk)] at hslot
      exact congrArg Prod.snd hslot
    · have hslot := hset r.2 (keyOf f) f
      rw [if_pos rfl] at hslot
      exact congrArg Prod.snd hslot
    · have hslot := hset k (keyOf f) f
      rw [if_neg fun heq => absurd hk (by rw [heq]; exact Nat.lt_irrefl _),
        hshift.moved k hk hks] at hslot
      have hbefore : before k = j := Fin.ext (show k.val - 1 = j.val by omega)
      rw [hbefore] at hslot
      exact congrArg Prod.snd hslot
  have hfront : ∀ y ∈ st.stored.take r.2.val, priorityNat f ≤ priorityNat y := by
    intro y hy
    -- the slot before the place has stopped the loop, and those before it are not lower
    rw [PrioState.stored, contents_take hle] at hy
    obtain ⟨k, hk, rfl⟩ := mem_contents.mp hy
    have hval : (before r.2).val = r.2.val - 1 := rfl
    have hstop := hshift.stopped (by omega)
    have hge := hdesc k (before r.2) (by omega) (by omega)
    have hprio : st.prio k = priority (st.data k) := hkeyed k (by omega)
    have hnot : ¬ st.prio (before r.2) < keyOf f := hstop
    rw [UInt32.lt_iff_toNat_lt] at hnot
    rw [UInt32.le_iff_toNat_le, hprio] at hge
    exact (Nat.not_lt.mp hnot).trans hge
  have hback : ∀ y ∈ st.stored.drop r.2.val, priorityNat y < priorityNat f := by
    intro y hy
    obtain ⟨k, hk, hks, rfl⟩ := mem_drop_contents hy
    have hpassed : st.prio k < keyOf f := hshift.passed k hk hks
    rw [hkeyed k hks, UInt32.lt_iff_toNat_lt] at hpassed
    exact hpassed
  rw [hcontents, ← enqueue_append hfront hback, List.take_append_drop]

theorem keyed_insert (hkeyed : st.Keyed) (f : Flit) (hroom : st.size < 64) :
    (insert st f hroom).Keyed := by
  obtain ⟨r, hshift, hinsert⟩ := insert_spec st f hroom
  rw [hinsert]
  have hsize : r.1.size = st.size + 1 := hshift.size
  have hslot : ∀ k : Fin 64, k.val ≤ st.size →
      ∃ x : UInt32 × Flit, slot (r.1.setSlot r.2 (keyOf f) f) k = x ∧ x.1 = priority x.2 := by
    intro k hk
    rw [slot_setSlot]
    by_cases hplace : k = r.2
    · exact ⟨(keyOf f, f), if_pos hplace, rfl⟩
    · rw [if_neg hplace]
      have hne : k.val ≠ r.2.val := fun heq => hplace (Fin.ext heq)
      have hle : r.2.val ≤ st.size := hshift.le
      by_cases hlt : k.val < r.2.val
      · rw [hshift.kept k (Or.inl hlt)]
        exact ⟨_, rfl, hkeyed k (by omega)⟩
      · rw [hshift.moved k (by omega) hk]
        refine ⟨_, rfl, hkeyed (before k) ?_⟩
        show k.val - 1 < st.size
        omega
  intro k hk
  have hle : k.val < r.1.size := hk
  obtain ⟨x, hx, hpair⟩ := hslot k (by omega)
  rw [← hx] at hpair
  exact hpair

/-- The first turns of the loop in `remove`: they have filled the slots before `m - 1`. Induction on
the turns. -/
theorem slot_advance_upto (st : PrioState 64) (m : Nat) (hm : m ≤ 64) :
    let t := ((positions 64 m).drop 1).foldl (fun st i => st.copySlot (before i) i) st
    (∀ j k : Fin 64, k.val = j.val + 1 → k.val < m → slot t j = slot st k) ∧
      ∀ k : Fin 64, m ≤ k.val + 1 → slot t k = slot st k := by
  induction m with
  | zero => exact ⟨fun j k _ hk => absurd hk (Nat.not_lt_zero _), fun _ _ => rfl⟩
  | succ m ih =>
    obtain ⟨hmoved, hkept⟩ := ih (Nat.le_of_succ_le hm)
    rw [positions_succ hm]
    by_cases hpos : 0 < m
    · have hlen : 1 ≤ (positions 64 m).length := by
        rw [length_positions (Nat.le_of_succ_le hm)]
        exact hpos
      rw [List.drop_append_of_le_length hlen, List.foldl_append]
      simp only [List.foldl_cons, List.foldl_nil]
      have hbefore : (before ⟨m, hm⟩).val = m - 1 := rfl
      refine ⟨fun j k hjk hk => ?_, fun k hk => ?_⟩
      · rw [slot_copySlot]
        by_cases hlast : j = before ⟨m, hm⟩
        · have hval : j.val = m - 1 := congrArg Fin.val hlast
          have hkm : k = ⟨m, hm⟩ := Fin.ext (show k.val = m by omega)
          rw [if_pos hlast, hkept _ (show m ≤ m + 1 by omega), hkm]
        · have hne : j.val ≠ m - 1 := fun heq => hlast (Fin.ext heq)
          rw [if_neg hlast, hmoved j k hjk (by omega)]
      · have hne : k ≠ before ⟨m, hm⟩ := fun heq => by
          have hval : k.val = m - 1 := congrArg Fin.val heq
          omega
        rw [slot_copySlot, if_neg hne, hkept k (by omega)]
    · have hzero : m = 0 := Nat.eq_zero_of_not_pos hpos
      subst hzero
      exact ⟨fun j k hjk hk => by omega, fun _ _ => rfl⟩

theorem slot_remove (hpos : 0 < st.size) (j k : Fin 64) (hjk : k.val = j.val + 1)
    (hk : k.val < st.size) : slot (remove st hpos) j = slot st k :=
  (slot_advance_upto st st.size st.size_le).1 j k hjk hk

/-- **The first flit leaves.** -/
theorem stored_remove (hpos : 0 < st.size) : (remove st hpos).stored = st.stored.tail :=
  contents_tail st.size_le fun j k hjk hk => congrArg Prod.snd (slot_remove hpos j k hjk hk)

theorem keyed_remove (h : st.Keyed) (hpos : 0 < st.size) : (remove st hpos).Keyed := by
  intro j hj
  have hlt : j.val < st.size - 1 := hj
  have hle := st.size_le
  have hslot := slot_remove hpos j ⟨j.val + 1, by omega⟩ rfl (show j.val + 1 < st.size by omega)
  have hkey := h ⟨j.val + 1, by omega⟩ (show j.val + 1 < st.size by omega)
  have hprio : (remove st hpos).prio j = st.prio ⟨j.val + 1, by omega⟩ := congrArg Prod.fst hslot
  have hdata : (remove st hpos).data j = st.data ⟨j.val + 1, by omega⟩ := congrArg Prod.snd hslot
  rw [hprio, hdata]
  exact hkey

/-- Descending priorities are flits in order of rank. -/
theorem descending_iff (h : st.Keyed) : st.Descending ↔ Sorted priorityNat st.stored := by
  refine Iff.trans ?_ pairwise_contents.symm
  constructor
  · intro hdesc i j hij hj
    have hle := hdesc i j (Nat.le_of_lt hij) hj
    rw [h i (Nat.lt_trans hij hj), h j hj, UInt32.le_iff_toNat_le] at hle
    exact hle
  · intro hsorted i j hij hj
    rcases Nat.eq_or_lt_of_le hij with heq | hlt
    · rw [Fin.ext heq]
      exact UInt32.le_refl _
    · rw [h i (Nat.lt_trans hlt hj), h j hj, UInt32.le_iff_toNat_le]
      exact hsorted i j hlt hj

/-! ### One call -/

/-- The invariant. -/
structure Ordered (st : PrioState 64) : Prop where
  keyed : st.Keyed
  descending : st.Descending

theorem Ordered.sorted (h : Ordered st) : Sorted priorityNat st.stored :=
  (descending_iff h.keyed).mp h.descending

theorem ordered_of_sorted (hkeyed : st.Keyed) (h : Sorted priorityNat st.stored) : Ordered st :=
  ⟨hkeyed, (descending_iff hkeyed).mpr h⟩

/-- **A call is a step of the list in order of rank.** -/
theorem refines {v : View (PrioState 64) Flit} (h : Ordered v.state) :
    Ordered (priorityQueueSystolic.handler v).state ∧
      setsOf 1 (priorityQueueSystolic.handler v).ops
        = (PriorityFifo.filled priorityNat v.state.stored
            (takenIn 1 v (priorityQueueSystolic.handler v))).take 1 ∧
      (priorityQueueSystolic.handler v).state.stored
        = (PriorityFifo.filled priorityNat v.state.stored
            (takenIn 1 v (priorityQueueSystolic.handler v))).tail := by
  have hfilled : (service.filled v).Keyed ∧ (service.filled v).stored
      = PriorityFifo.filled priorityNat v.state.stored
          (takenIn 1 v (service.kernelFn.handler v)) := by
    rw [takenIn_prio]
    unfold PrioService.filled
    split
    · exact ⟨keyed_insert h.keyed _ _, stored_insert h.keyed h.descending _ _⟩
    · exact ⟨h.keyed, rfl⟩
  obtain ⟨hkeyed, hstored⟩ := hfilled
  have hsorted : Sorted priorityNat (service.filled v).stored := by
    rw [hstored]
    exact sorted_filled h.sorted _
  unfold priorityQueueSystolic
  rw [← hstored, setsOf_prio, state_prio]
  by_cases hpos : 0 < (service.filled v).size
  · rw [dif_pos hpos, dif_pos hpos]
    have htail : (service.remove (service.filled v) hpos).stored = (service.filled v).stored.tail :=
      stored_remove hpos
    refine ⟨ordered_of_sorted (keyed_remove hkeyed hpos) ?_, ?_, htail⟩
    · exact htail ▸ sorted_tail hsorted
    · have hfirst : (service.filled v).stored[0]? = some ((service.filled v).data 0) :=
        getElem?_contents (0 : Fin 64) hpos
      rw [List.take_one, List.head?_eq_getElem?, hfirst]
      rfl
  · rw [dif_neg hpos, dif_neg hpos]
    have hnil : (service.filled v).stored = [] := by
      rw [← List.length_eq_zero_iff, length_stored]
      omega
    rw [hnil]
    exact ⟨ordered_of_sorted hkeyed hsorted, rfl, rfl⟩

/-- **`PriorityQueueSystolic` serves by priority, and each priority in the order of arrival.** -/
theorem serves {v : View (PrioState 64) Flit} (h : Ordered v.state) :
    Ordered (priorityQueueSystolic.handler v).state ∧
      ServesBest priorityNat v.state.stored (takenIn 1 v (priorityQueueSystolic.handler v))
        (setsOf 1 (priorityQueueSystolic.handler v).ops)
        (priorityQueueSystolic.handler v).state.stored ∧
      FirstIn priorityNat v.state.stored (takenIn 1 v (priorityQueueSystolic.handler v))
        (setsOf 1 (priorityQueueSystolic.handler v).ops)
        (priorityQueueSystolic.handler v).state.stored := by
  obtain ⟨hordered, hsets, hstored⟩ := refines h
  rw [hsets, hstored]
  exact ⟨hordered, serves_filled h.sorted _, firstIn_filled h.sorted _⟩

/-! ### Runs -/

/-- What every call keeps: since the start, the flits of each priority have gone out in the order
they came in. -/
structure InOrder (first st : PrioState 64) (taken sent : List Flit) : Prop where
  ordered : Ordered st
  firstIn : FirstIn priorityNat first.stored taken sent st.stored

theorem inOrder_call (first : PrioState 64) (v : View (PrioState 64) Flit)
    (taken sent : List Flit) (h : InOrder first v.state taken sent) :
    InOrder first (priorityQueueSystolic.handler v).state
      (taken ++ takenIn 1 v (priorityQueueSystolic.handler v))
      (sent ++ setsOf 1 (priorityQueueSystolic.handler v).ops) := by
  obtain ⟨hordered, -, hfirst⟩ := serves h.ordered
  exact ⟨hordered, h.firstIn.append hfirst⟩

/-- **A run serves each priority in the order of arrival.** -/
theorem inOrder_exec (h : Ordered st) (inCap outCap : Nat → Int) (as : List (KernelAction Flit)) :
    let s := exec (kstep priorityQueueSystolic) (kinit st inCap outCap) as
    InOrder st s.locals.state (s.taken 1) (s.sent 1) :=
  inv_calls rfl (inOrder_call st) as rfl ⟨h, FirstIn.refl st.stored⟩

theorem ordered_prioInit : Ordered (prioInit 64) where
  keyed i hi := absurd hi (Nat.not_lt_zero i.val)
  descending _ j _ hj := absurd hj (Nat.not_lt_zero j.val)

/-- **From the start, the flits of a priority that have been sent begin those that were taken.** -/
theorem sent_begins_taken (inCap outCap : Nat → Int) (as : List (KernelAction Flit)) (r : Nat) :
    let s := exec (kstep priorityQueueSystolic) (kinit (prioInit 64) inCap outCap) as
    (s.sent 1).filter (priorityNat · = r) <+: (s.taken 1).filter (priorityNat · = r) := by
  intro s
  have hfirst := (inOrder_exec ordered_prioInit inCap outCap as).firstIn r
  have hnone : (prioInit 64).stored = [] := rfl
  rw [hnone, List.nil_append, List.filter_append] at hfirst
  rw [hfirst]
  exact List.prefix_append _ _

end PriorityQueueSystolic

/-! ## Both queues -/

open PriorityQueueSystolic (Ordered)

/-- A call of each queue, where they find the same on the port: both take it, both send a flit with
the greatest priority there is, and neither loses one. The priorities in use stay beside their
flits; those of the second queue stay in order, and it serves each in the order of arrival. -/
structure QueuesAgree (v : View (PrioState 256) Flit) (v' : View (PrioState 64) Flit) : Prop where
  serves : ServesBest priorityNat v.state.stored (offered v).toList
    (setsOf 1 (priorityQueue.handler v).ops) (priorityQueue.handler v).state.stored
  serves' : ServesBest priorityNat v'.state.stored (offered v').toList
    (setsOf 1 (priorityQueueSystolic.handler v').ops)
    (priorityQueueSystolic.handler v').state.stored
  same : (setsOf 1 (priorityQueue.handler v).ops).map priority
    = (setsOf 1 (priorityQueueSystolic.handler v').ops).map priority
  keyed : (priorityQueue.handler v).state.Keyed
  keyed' : (priorityQueueSystolic.handler v').state.Keyed
  descending : (priorityQueueSystolic.handler v').state.Descending
  firstIn : FirstIn priorityNat v'.state.stored (offered v').toList
    (setsOf 1 (priorityQueueSystolic.handler v').ops)
    (priorityQueueSystolic.handler v').state.stored

/-- A queue with room takes what there is. -/
theorem takenIn_of_room {n : Nat} (S : PrioService n) {v : View (PrioState n) Flit}
    (hroom : v.state.size < n) : takenIn 1 v (S.kernelFn.handler v) = (offered v).toList := by
  rw [takenIn_prio]
  unfold Takes offered
  by_cases hbit : testPort v.inputPort 1 = true <;> simp [hbit, hroom]

theorem map_priority_inj {l l' : List Flit} (h : l.map priorityNat = l'.map priorityNat) :
    l.map priority = l'.map priority := by
  have hinj : Function.Injective UInt32.toNat := fun _ _ => UInt32.toNat_inj.mp
  apply hinj.list_map
  rw [List.map_map, List.map_map]
  exact h

/-- **The two priority queues agree.** Where they hold the same flits, at most 63 of them, in
whatever slots, the second in order, then whatever is on the port each sends a flit with the
greatest priority, and so the same priority. In every run of the second queue, from whatever slots
in order, the flits of each priority go out in the order they came in. -/
theorem priorityQueues_agree :
    (∀ (v : View (PrioState 256) Flit) (v' : View (PrioState 64) Flit),
      v.state.Keyed → v'.state.Keyed → v'.state.Descending →
      v.state.stored.Perm v'.state.stored → v'.state.size ≤ 63 → offered v = offered v' →
        QueuesAgree v v') ∧
    ∀ st : PrioState 64, st.Keyed → st.Descending →
      ∀ (inCap outCap : Nat → Int) (as : List (KernelAction Flit)),
        let s := exec (kstep priorityQueueSystolic) (kinit st inCap outCap) as
        s.locals.state.Keyed ∧ s.locals.state.Descending ∧
          FirstIn priorityNat st.stored (s.taken 1) (s.sent 1) s.locals.state.stored := by
  constructor
  · intro v v' hkeyed hkeyed' hdesc hsame hfew hfound
    have hlen : v.state.size = v'.state.size := by
      rw [← length_stored, ← length_stored]
      exact hsame.length_eq
    obtain ⟨hkeep, hserves⟩ := PriorityQueue.serves v hkeyed
    obtain ⟨hkeep', hserves', hfirst⟩ := PriorityQueueSystolic.serves (v := v') ⟨hkeyed', hdesc⟩
    have htaken : takenIn 1 v (priorityQueue.handler v) = (offered v).toList :=
      takenIn_of_room PriorityQueue.service (by omega)
    have htaken' : takenIn 1 v' (priorityQueueSystolic.handler v') = (offered v').toList :=
      takenIn_of_room PriorityQueueSystolic.service (by omega)
    rw [htaken] at hserves
    rw [htaken'] at hserves' hfirst
    refine ⟨hserves, hserves', ?_, hkeep, hkeep'.keyed, hkeep'.descending, hfirst⟩
    rw [hfound] at hserves
    exact map_priority_inj (hserves.map_rank_eq hserves' hsame)
  · intro st hkeyed hdesc inCap outCap as s
    have hrun := PriorityQueueSystolic.inOrder_exec ⟨hkeyed, hdesc⟩ inCap outCap as
    exact ⟨hrun.ordered.keyed, hrun.ordered.descending, hrun.firstIn⟩

/-- A queue that holds two flits of one priority, with one more on the port. -/
def heldTwice {n : Nat} (h : 2 ≤ n) : View (PrioState n) Flit where
  state := { prio := fun _ => 7, data := fun _ => ({} : Flit).set 0 7, size := 2, size_le := h }
  inputPort := PORT_BIT 1
  inputData := fun _ => ({} : Flit).set 0 9
  outputData := fun _ => {}
  outputFailed := 0
  outputSuccess := 0
  lastRport := 0
  event := {}

theorem stored_heldTwice {n : Nat} (h : 2 ≤ n) :
    (heldTwice h).state.stored = List.replicate 2 (({} : Flit).set 0 7) := by
  show (positions n 2).map (fun _ => ({} : Flit).set 0 7) = _
  rw [List.map_const', length_positions h]

theorem priorityQueues_agree_on_two :
    QueuesAgree (heldTwice (n := 256) (by decide)) (heldTwice (n := 64) (by decide)) :=
  priorityQueues_agree.1 _ _
    (fun _ _ => (by decide : (7 : UInt32) = priority (({} : Flit).set 0 7)))
    (fun _ _ => (by decide : (7 : UInt32) = priority (({} : Flit).set 0 7)))
    (fun _ _ _ _ => UInt32.le_refl 7)
    (by rw [stored_heldTwice, stored_heldTwice]) (by decide) rfl

end OpenClickNP
