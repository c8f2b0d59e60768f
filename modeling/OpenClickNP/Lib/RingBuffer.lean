import Mathlib.Data.List.Infix
import Mathlib.Logic.Function.Basic

/-!
# Ring buffers

`n` cells, and two indices: an element is put in at the head and taken out at the tail, and each of
the two moves on by one, from the last cell to the first. What the ring holds (`contents`) are the
cells from the tail up to the head. One cell stays free, since with `n` elements the head would
come to the tail, as it does with none.
-/

namespace RingBuffer

variable {n : Nat} {α : Type*}

/-- The index `k` places on from `i`. -/
def ahead (i : Fin n) (k : Nat) : Fin n := ⟨(i.val + k) % n, Nat.mod_lt _ i.pos⟩

/-- The index behind `i`. -/
def next (i : Fin n) : Fin n := ahead i 1

/-- The number of places from `i` on to `j`. -/
def distance (i j : Fin n) : Nat := if i.val ≤ j.val then j.val - i.val else n + j.val - i.val

theorem ahead_val (i : Fin n) {k : Nat} (hk : k ≤ n) :
    (ahead i k).val = if i.val + k < n then i.val + k else i.val + k - n := by
  show (i.val + k) % n = _
  have hi := i.isLt
  split
  · rename_i hlt
    exact Nat.mod_eq_of_lt hlt
  · rename_i hge
    rw [Nat.mod_eq_sub_mod (by omega), Nat.mod_eq_of_lt (by omega)]

theorem distance_lt (i j : Fin n) : distance i j < n := by
  unfold distance
  split <;> omega

theorem ahead_distance (i j : Fin n) : ahead i (distance i j) = j := by
  have hlt := distance_lt i j
  apply Fin.ext
  rw [ahead_val i (Nat.le_of_lt hlt)]
  unfold distance at hlt ⊢
  split <;> split <;> omega

theorem distance_ahead (i : Fin n) {k : Nat} (hk : k < n) : distance i (ahead i k) = k := by
  have hval := ahead_val i (Nat.le_of_lt hk)
  unfold distance
  split at hval <;> split <;> omega

theorem distance_self (i : Fin n) : distance i i = 0 := by
  unfold distance
  rw [if_pos (Nat.le_refl _), Nat.sub_self]

theorem distance_eq_zero {i j : Fin n} : distance i j = 0 ↔ j = i := by
  constructor
  · intro h
    have hj := ahead_distance i j
    rw [h] at hj
    rw [← hj]
    exact Fin.ext (Nat.mod_eq_of_lt i.isLt)
  · rintro rfl
    exact distance_self j

theorem next_val (i : Fin n) : (next i).val = if i.val + 1 < n then i.val + 1 else 0 := by
  have hi := i.isLt
  rw [next, ahead_val i (show 1 ≤ n by omega)]
  split <;> omega

/-- The head is one place before the tail where the ring is full. -/
theorem next_eq_iff {head tail : Fin n} : next head = tail ↔ distance tail head + 1 = n := by
  have hval := next_val head
  have hhead := head.isLt
  rw [Fin.ext_iff]
  unfold distance
  split at hval <;> split <;> omega

theorem distance_next {head tail : Fin n} (h : next head ≠ tail) :
    distance tail (next head) = distance tail head + 1 := by
  have hval := next_val head
  have hhead := head.isLt
  rw [ne_eq, Fin.ext_iff] at h
  unfold distance
  split at hval <;> split <;> split <;> omega

theorem distance_from_next {head tail : Fin n} (h : head ≠ tail) :
    distance tail head = distance (next tail) head + 1 := by
  have hval := next_val tail
  have hhead := head.isLt
  have htail := tail.isLt
  rw [ne_eq, Fin.ext_iff] at h
  unfold distance
  split at hval <;> split <;> split <;> omega

theorem ahead_next (i : Fin n) (k : Nat) : ahead (next i) k = ahead i (k + 1) := by
  apply Fin.ext
  show ((i.val + 1) % n + k) % n = (i.val + (k + 1)) % n
  rw [Nat.mod_add_mod, Nat.add_assoc, Nat.add_comm 1 k]

/-! ## What the ring holds -/

/-- The cells from the tail up to the head. -/
def contents (buf : Fin n → α) (head tail : Fin n) : List α :=
  (List.range (distance tail head)).map fun k => buf (ahead tail k)

variable {buf : Fin n → α} {head tail : Fin n}

theorem length_contents : (contents buf head tail).length = distance tail head := by
  rw [contents, List.length_map, List.length_range]

theorem contents_eq_nil : contents buf head tail = [] ↔ head = tail := by
  rw [← List.length_eq_zero_iff, length_contents, distance_eq_zero]

theorem full_iff : next head = tail ↔ (contents buf head tail).length + 1 = n := by
  rw [length_contents]
  exact next_eq_iff

/-- **An element that is put in comes last.** -/
theorem contents_push (h : next head ≠ tail) (x : α) :
    contents (Function.update buf head x) (next head) tail = contents buf head tail ++ [x] := by
  unfold contents
  rw [distance_next h, List.range_succ, List.map_append, List.map_singleton, ahead_distance,
    Function.update_self]
  congr 1
  refine List.map_congr_left fun k hk => Function.update_of_ne ?_ x buf
  -- the cells in use lie before the head
  have hlt := List.mem_range.mp hk
  intro heq
  have hdist := distance_ahead tail (Nat.lt_trans hlt (distance_lt tail head))
  rw [heq] at hdist
  omega

/-- **The element at the tail comes first.** -/
theorem contents_pop (h : head ≠ tail) :
    contents buf head tail = buf tail :: contents buf head (next tail) := by
  unfold contents
  rw [distance_from_next h, List.range_succ_eq_map, List.map_cons, List.map_map]
  congr 1
  · exact congrArg buf (Fin.ext (Nat.mod_eq_of_lt tail.isLt))
  · exact List.map_congr_left fun k _ => congrArg buf (ahead_next tail k).symm

/-! ## Going around once -/

/-- All indices, from `i` on. -/
def around (i : Fin n) : List (Fin n) := (List.range n).map (ahead i)

theorem mem_around (i j : Fin n) : j ∈ around i :=
  List.mem_map.mpr ⟨distance i j, List.mem_range.mpr (distance_lt i j), ahead_distance i j⟩

theorem pairwise_around (i : Fin n) :
    (around i).Pairwise fun j k => distance i j < distance i k := by
  refine List.pairwise_map.mpr (List.pairwise_lt_range.imp_of_mem fun hj hk hlt => ?_)
  rw [distance_ahead i (List.mem_range.mp hj), distance_ahead i (List.mem_range.mp hk)]
  exact hlt

/-- The first that is found is the nearest. -/
theorem find?_around_eq_some {i j : Fin n} {p : Fin n → Bool} (h : (around i).find? p = some j) :
    p j = true ∧ ∀ k, p k = true → distance i j ≤ distance i k := by
  obtain ⟨hj, before, after, hsplit, hbefore⟩ := List.find?_eq_some_iff_append.mp h
  refine ⟨hj, fun k hk => ?_⟩
  have hmem := mem_around i k
  have hsorted := pairwise_around i
  rw [hsplit] at hmem hsorted
  rcases List.mem_append.mp hmem with hk' | hk'
  · have hno := hbefore k hk'
    rw [hk] at hno
    cases hno
  · rcases List.mem_cons.mp hk' with rfl | hk'
    · exact Nat.le_refl _
    · exact Nat.le_of_lt (List.rel_of_pairwise_cons (List.pairwise_append.mp hsorted).2.1 hk')

theorem find?_around_eq_none {i : Fin n} {p : Fin n → Bool} (h : (around i).find? p = none)
    (j : Fin n) : p j = false :=
  Bool.eq_false_iff.mpr (List.find?_eq_none.mp h j (mem_around i j))

end RingBuffer
