import Mathlib.Data.List.Basic

/-!
# Folds over the blocks of a list

`foldBlocks f B acc l` folds `f` over the whole blocks of length `B` at the front of `l`, and
`rest B l` is what stands behind them. A reader that keeps the fold and the rest of what it has
read so far can go on when more comes in: the rest grows (`foldBlocks_append_of_lt`) until it is
a block (`foldBlocks_append_of_eq`).
-/

namespace BlockFold

variable {σ β : Type*}

/-- Block number `i`. -/
def blockAt (B : Nat) (l : List β) (i : Nat) : List β := (l.drop (B * i)).take B

def foldBlocks (f : σ → List β → σ) (B : Nat) (acc : σ) (l : List β) : σ :=
  (List.range (l.length / B)).foldl (fun acc i => f acc (blockAt B l i)) acc

/-- What stands behind the last whole block. -/
def rest (B : Nat) (l : List β) : List β := l.drop (B * (l.length / B))

variable {f : σ → List β → σ} {B : Nat} {acc : σ} {l c : List β}

theorem length_rest : (rest B l).length = l.length % B := by
  have hdiv := Nat.div_add_mod l.length B
  rw [rest, List.length_drop]
  omega

/-- A block in front of the end of the list is not touched by what comes in behind it. -/
theorem blockAt_append {i : Nat} (h : B * (i + 1) ≤ l.length) :
    blockAt B (l ++ c) i = blockAt B l i := by
  rw [Nat.mul_succ] at h
  rw [blockAt, blockAt, List.drop_append_of_le_length (by omega),
    List.take_append_of_le_length (by rw [List.length_drop]; omega)]

theorem foldBlocks_append (n : Nat) (h : B * n ≤ l.length) :
    (List.range n).foldl (fun acc i => f acc (blockAt B (l ++ c) i)) acc
      = (List.range n).foldl (fun acc i => f acc (blockAt B l i)) acc := by
  refine List.foldl_ext _ _ _ fun acc i hi => ?_
  have hin : B * (i + 1) ≤ B * n := Nat.mul_le_mul_left B (List.mem_range.mp hi)
  rw [blockAt_append (Nat.le_trans hin h)]

/-- What comes in leaves the block unfinished. -/
theorem foldBlocks_append_of_lt (f : σ → List β → σ) (acc : σ) (hlt : l.length % B + c.length < B) :
    foldBlocks f B acc (l ++ c) = foldBlocks f B acc l ∧ rest B (l ++ c) = rest B l ++ c := by
  have hdiv := Nat.div_add_mod l.length B
  have hsame : (l ++ c).length / B = l.length / B := by
    rw [List.length_append, ← hdiv, Nat.add_assoc, Nat.mul_add_div (by omega),
      Nat.div_eq_of_lt hlt, Nat.mul_add_div (by omega), Nat.div_eq_of_lt (Nat.mod_lt _ (by omega))]
  have hle : B * (l.length / B) ≤ l.length := Nat.mul_div_le l.length B
  constructor
  · rw [foldBlocks, foldBlocks, hsame]
    exact foldBlocks_append _ hle
  · rw [rest, rest, hsame, List.drop_append_of_le_length hle]

/-- What comes in makes up a block with what was left, and nothing is left then. -/
theorem foldBlocks_append_of_eq (f : σ → List β → σ) (acc : σ) (hB : 0 < B)
    (heq : l.length % B + c.length = B) :
    foldBlocks f B acc (l ++ c) = f (foldBlocks f B acc l) (rest B l ++ c) ∧
      rest B (l ++ c) = [] := by
  have hdiv := Nat.div_add_mod l.length B
  have hlen : (l ++ c).length = B * (l.length / B + 1) := by
    rw [List.length_append, Nat.mul_succ]
    omega
  have hnext : (l ++ c).length / B = l.length / B + 1 := by
    rw [hlen, Nat.mul_div_cancel_left _ hB]
  have hle : B * (l.length / B) ≤ l.length := Nat.mul_div_le l.length B
  have hblock : blockAt B (l ++ c) (l.length / B) = rest B l ++ c := by
    rw [blockAt, List.drop_append_of_le_length hle, List.take_of_length_le]
    · rfl
    · rw [List.length_append, List.length_drop]
      omega
  constructor
  · rw [foldBlocks, hnext, List.range_succ, List.foldl_append, foldBlocks_append _ hle,
      List.foldl_cons, List.foldl_nil, hblock]
    rfl
  · rw [rest, hnext, ← hlen, List.drop_length]

theorem foldBlocks_one (hB : 0 < B) (h : l.length = B) : foldBlocks f B acc l = f acc l := by
  have hblock : blockAt B l 0 = l := by
    rw [blockAt, Nat.mul_zero, List.drop_zero, List.take_of_length_le (by omega)]
  rw [foldBlocks, h, Nat.div_self hB, List.range_one, List.foldl_cons, List.foldl_nil, hblock]

theorem foldBlocks_nil : foldBlocks f B acc [] = acc := by
  simp [foldBlocks]

end BlockFold
