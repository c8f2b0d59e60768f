import Mathlib.Logic.Function.Iterate

/-!
# Counter mode

A keystream is made of blocks, one for each value of a counter, and is combined with the data
item by item. The result for data that ends with a block goes on with the counter that has been
advanced once for each block (`crypt_append`), and combining twice gives the data back
(`crypt_crypt`).
-/

/-- A keystream generator with its way to combine an item of the data with one of the keystream,
which undoes itself. -/
structure CounterMode (κ β : Type*) where
  size : Nat
  size_pos : 0 < size
  block : κ → Vector β size
  next : κ → κ
  combine : β → β → β
  combine_combine : ∀ a k, combine (combine a k) k = a

namespace CounterMode

variable {κ β : Type*} (M : CounterMode κ β)

/-- The data combined with the keystream from the counter value `c` on. -/
def crypt (c : κ) (data : List β) : List β :=
  if data = [] then []
  else
    List.zipWith M.combine (data.take M.size) (M.block c).toList
      ++ crypt (M.next c) (data.drop M.size)
termination_by data.length
decreasing_by
  have hpos : 0 < data.length := List.length_pos_iff.mpr ‹_›
  have hsize := M.size_pos
  rw [List.length_drop]
  omega

@[simp] theorem crypt_nil (c : κ) : M.crypt c [] = [] := by
  rw [crypt, if_pos rfl]

/-- One block. -/
theorem crypt_block (c : κ) {b : List β} (hb : b.length = M.size) (rest : List β) :
    M.crypt c (b ++ rest)
      = List.zipWith M.combine b (M.block c).toList ++ M.crypt (M.next c) rest := by
  have hne : b ++ rest ≠ [] := by
    intro h
    have hlen := congrArg List.length h
    have hsize := M.size_pos
    rw [List.length_append, List.length_nil] at hlen
    omega
  rw [crypt, if_neg hne, List.take_left' hb, List.drop_left' hb]

/-- A block at the end, which may be cut short. -/
theorem crypt_last (c : κ) {b : List β} (hb : b.length ≤ M.size) :
    M.crypt c b = List.zipWith M.combine b (M.block c).toList := by
  by_cases hnil : b = []
  · rw [hnil, crypt_nil, List.zipWith_nil_left]
  · rw [crypt, if_neg hnil, List.take_of_length_le hb, List.drop_of_length_le hb, crypt_nil,
      List.append_nil]

/-- **Whole blocks.** Induction on their number. -/
theorem crypt_append (n : Nat) (c : κ) {xs : List β} (hxs : xs.length = M.size * n)
    (ys : List β) : M.crypt c (xs ++ ys) = M.crypt c xs ++ M.crypt (M.next^[n] c) ys := by
  induction n generalizing c xs with
  | zero =>
    obtain rfl : xs = [] := List.eq_nil_of_length_eq_zero hxs
    simp
  | succ n ih =>
    rw [Nat.mul_succ] at hxs
    have hfirst : (xs.take M.size).length = M.size := by
      rw [List.length_take]
      omega
    have hrest : (xs.drop M.size).length = M.size * n := by
      rw [List.length_drop]
      omega
    have hsplit := List.take_append_drop M.size xs
    calc M.crypt c (xs ++ ys)
        = M.crypt c (xs.take M.size ++ (xs.drop M.size ++ ys)) := by
          rw [← List.append_assoc, hsplit]
      _ = List.zipWith M.combine (xs.take M.size) (M.block c).toList ++
            (M.crypt (M.next c) (xs.drop M.size) ++ M.crypt (M.next^[n] (M.next c)) ys) := by
          rw [crypt_block M c hfirst, ih (M.next c) hrest]
      _ = M.crypt c (xs.take M.size ++ xs.drop M.size) ++ M.crypt (M.next^[n + 1] c) ys := by
          rw [crypt_block M c hfirst, List.append_assoc, Function.iterate_succ_apply]
      _ = M.crypt c xs ++ M.crypt (M.next^[n + 1] c) ys := by rw [hsplit]

/-- The keystream from the counter value `c` on. -/
def keystream (c : κ) (i : Nat) : β :=
  (M.block (M.next^[i / M.size] c)).get ⟨i % M.size, Nat.mod_lt i M.size_pos⟩

theorem keystream_of_lt (c : κ) {i : Nat} (hi : i < M.size) :
    M.keystream c i = (M.block c).get ⟨i, hi⟩ := by
  have hdiv : i / M.size = 0 := Nat.div_eq_of_lt hi
  simp only [keystream, hdiv, Nat.mod_eq_of_lt hi]
  rfl

theorem keystream_next (c : κ) {i : Nat} (hi : M.size ≤ i) :
    M.keystream (M.next c) (i - M.size) = M.keystream c i := by
  have hdiv : i / M.size = (i - M.size) / M.size + 1 := Nat.div_eq_sub_div M.size_pos hi
  simp only [keystream, hdiv, Function.iterate_succ_apply, Nat.mod_eq_sub_mod hi]

/-- **Item by item.** The data is combined with the keystream. -/
theorem crypt_eq_mapIdx (c : κ) (data : List β) :
    M.crypt c data = data.mapIdx fun i x => M.combine x (M.keystream c i) := by
  fun_induction M.crypt c data with
  | case1 c => rfl
  | case2 c data hne ih =>
    have hlen : (List.zipWith M.combine (data.take M.size) (M.block c).toList).length
        = min M.size data.length := by
      rw [List.length_zipWith, List.length_take, Vector.length_toList]
      omega
    rw [ih]
    refine List.ext_getElem ?_ fun i hi hi' => ?_
    · rw [List.length_append, hlen, List.length_mapIdx, List.length_mapIdx, List.length_drop]
      omega
    rw [List.length_mapIdx] at hi'
    by_cases hlt : i < M.size
    · rw [List.getElem_append_left (by rw [hlen]; omega)]
      simp only [List.getElem_zipWith, List.getElem_take, List.getElem_mapIdx,
        M.keystream_of_lt c hlt]
      rfl
    · have hle : M.size ≤ i := Nat.not_lt.mp hlt
      have hmin : min M.size data.length = M.size := by omega
      rw [List.getElem_append_right (by rw [hlen]; omega)]
      simp only [List.getElem_mapIdx, List.getElem_drop, hlen, hmin, M.keystream_next c hle,
        Nat.add_sub_cancel' hle]

theorem zipWith_zipWith {b : List β} {k : List β} (h : b.length ≤ k.length) :
    List.zipWith M.combine (List.zipWith M.combine b k) k = b := by
  induction b generalizing k with
  | nil => rfl
  | cons a b ih =>
    cases k with
    | nil => exact absurd h (Nat.not_succ_le_zero _)
    | cons x k =>
      rw [List.zipWith_cons_cons, List.zipWith_cons_cons, M.combine_combine,
        ih (Nat.le_of_succ_le_succ h)]

theorem length_crypt (c : κ) (data : List β) : (M.crypt c data).length = data.length := by
  fun_induction M.crypt c data with
  | case1 c => rfl
  | case2 c data hne ih =>
    rw [List.length_append, ih, List.length_zipWith, List.length_take, Vector.length_toList,
      List.length_drop]
    omega

/-- **Twice is nothing**, for data of any length. -/
theorem crypt_crypt (c : κ) (data : List β) : M.crypt c (M.crypt c data) = data := by
  fun_induction M.crypt c data with
  | case1 c => rw [crypt_nil]
  | case2 c data hne ih =>
    have hlen : (List.zipWith M.combine (data.take M.size) (M.block c).toList).length
        = min M.size data.length := by
      rw [List.length_zipWith, List.length_take, Vector.length_toList]
      omega
    have hback : List.zipWith M.combine
        (List.zipWith M.combine (data.take M.size) (M.block c).toList) (M.block c).toList
          = data.take M.size := by
      apply zipWith_zipWith
      rw [List.length_take, Vector.length_toList]
      omega
    rcases Nat.le_total M.size data.length with hle | hle
    · rw [crypt_block M c (hlen.trans (Nat.min_eq_left hle)), hback, ih, List.take_append_drop]
    · rw [List.drop_of_length_le hle, crypt_nil, List.append_nil, crypt_last M c, hback,
        List.take_of_length_le hle]
      omega

end CounterMode
