import Mathlib.Data.List.FinRange
import OpenClickNP.Lib.RoundRobin
import OpenClickNP.Shell.SlotRouting

/-!
# `slot_mux.v`: the slots merged onto one stream

The grant is computed anew in every cycle, from the pointer and the valid bits: it is the first
valid slot in the rotation behind the pointer (`grant_iff`). A stalled transfer loses the grant to
a slot before it that becomes valid, so the output is stable exactly in the runs where no such
slot shows another flit (`outputHolds_run_iff`).
-/

namespace OpenClickNP

open RoundRobin (IsNext rank partyAt)

/-- The inputs of `slot_mux` in a cycle, the clock aside. -/
structure SlotMuxIn (n : Nat) where
  rstn : Bool
  sAxisTdata : Fin n → Flit
  sAxisTvalid : Fin n → Bool
  mAxisTready : Bool

/-- The outputs of `slot_mux` in a cycle. -/
structure SlotMuxOut (n : Nat) where
  sAxisTready : Fin n → Bool
  mAxisTdata : Flit
  mAxisTvalid : Bool

variable {n : Nat}

/-! ## The module -/

/-- The reduction `|v`. -/
def anyBit (v : Fin n → Bool) : Bool := (List.finRange n).any v

/-- One turn of the loop over `j`: the slot looked at is `(rr + 1 + j) % NUM_SLOTS`. -/
def grantTurn (rr : Fin n) (tvalid : Fin n → Bool) (grant : Fin n → Bool) (j : Nat) :
    Fin n → Bool :=
  -- `if (!|grant)`: nothing is granted yet
  if anyBit grant = false then
    if tvalid (partyAt rr j) then Function.update grant (partyAt rr j) true else grant
  else grant

def grant (rr : Fin n) (tvalid : Fin n → Bool) : Fin n → Bool :=
  (List.range n).foldl (grantTurn rr tvalid) fun _ => false

def selData (grant : Fin n → Bool) (tdata : Fin n → Flit) : Flit :=
  (List.finRange n).foldl (fun sel k => if grant k then tdata k else sel) {}

/-- The outputs, from the register `rr` and the inputs. -/
def slotMux (rr : Fin n) (i : SlotMuxIn n) : SlotMuxOut n where
  sAxisTready := fun s => grant rr i.sAxisTvalid s && i.mAxisTready
  mAxisTdata := selData (grant rr i.sAxisTvalid) i.sAxisTdata
  mAxisTvalid := anyBit (grant rr i.sAxisTvalid)

/-- The register `rr` after the clock edge. It has `$clog2(NUM_SLOTS) + 1` bits, enough for every
index of a slot, which is all it is ever given. -/
def nextRr (rr : Fin n) (i : SlotMuxIn n) : Fin n :=
  -- the reset is synchronous
  if !i.rstn then ⟨0, rr.pos⟩
  else if (slotMux rr i).mAxisTvalid && i.mAxisTready then
    (List.finRange n).foldl (fun r j => if grant rr i.sAxisTvalid j then j else r) rr
  else rr

/-! ## The grant -/

theorem anyBit_eq_true_iff {v : Fin n → Bool} : anyBit v = true ↔ ∃ s, v s = true := by
  rw [anyBit, List.any_eq_true]
  exact ⟨fun ⟨s, _, h⟩ => ⟨s, h⟩, fun ⟨s, h⟩ => ⟨s, List.mem_finRange s, h⟩⟩

/-- The slot that the loop has settled on after `m` turns, if any. -/
inductive Settled (rr : Fin n) (tvalid : Fin n → Bool) (m : Nat) : (Fin n → Bool) → Prop
  | none (h : ∀ j < m, tvalid (partyAt rr j) = false) : Settled rr tvalid m fun _ => false
  | at (j : Nat) (hj : j < m) (hvalid : tvalid (partyAt rr j) = true)
    (hfirst : ∀ j' < j, tvalid (partyAt rr j') = false) :
    Settled rr tvalid m fun s => decide (s = partyAt rr j)

/-- The loop settles on the first valid slot. Induction on the turns. -/
theorem settled_foldl (rr : Fin n) (tvalid : Fin n → Bool) (m : Nat) :
    Settled rr tvalid m ((List.range m).foldl (grantTurn rr tvalid) fun _ => false) := by
  induction m with
  | zero => exact .none fun j hj => absurd hj (Nat.not_lt_zero j)
  | succ m ih =>
    rw [List.range_succ, List.foldl_append, List.foldl_cons, List.foldl_nil]
    generalize (List.range m).foldl (grantTurn rr tvalid) (fun _ => false) = g at ih
    cases ih with
    | none h =>
      have hany : anyBit (fun _ : Fin n => false) = false := by simp [anyBit]
      rw [grantTurn, if_pos hany]
      -- nothing is granted so far: the turn grants its slot if it is valid
      cases hvalid : tvalid (partyAt rr m) with
      | false =>
        rw [if_neg Bool.false_ne_true]
        refine .none fun j hj => ?_
        rcases Nat.lt_succ_iff_lt_or_eq.mp hj with hlt | rfl
        · exact h j hlt
        · exact hvalid
      | true =>
        rw [if_pos rfl]
        have hone : Function.update (fun _ : Fin n => false) (partyAt rr m) true
            = fun s => decide (s = partyAt rr m) := by
          funext s
          by_cases hs : s = partyAt rr m
          · rw [hs, Function.update_self, decide_eq_true rfl]
          · rw [Function.update_of_ne hs, decide_eq_false hs]
        rw [hone]
        exact .at m (Nat.lt_succ_self m) hvalid h
    | «at» j hj hvalid hfirst =>
      -- a slot is granted already: the turn changes nothing
      have hany : anyBit (fun s => decide (s = partyAt rr j)) = true :=
        anyBit_eq_true_iff.mpr ⟨partyAt rr j, decide_eq_true rfl⟩
      rw [grantTurn, hany, if_neg (by decide)]
      exact .at j (Nat.lt_succ_of_lt hj) hvalid hfirst

/-- **The grant.** The slot granted is the first valid one in the rotation behind `rr`. -/
theorem grant_iff {rr : Fin n} {tvalid : Fin n → Bool} {g : Fin n} :
    grant rr tvalid g = true ↔ IsNext rr tvalid g := by
  have hsettled := settled_foldl rr tvalid n
  rw [← grant] at hsettled
  generalize grant rr tvalid = gr at hsettled
  cases hsettled with
  | none h =>
    refine iff_of_false Bool.false_ne_true fun hnext => ?_
    -- every slot has had its turn
    have hinvalid := h (rank rr g) (RoundRobin.rank_lt rr g)
    rw [RoundRobin.partyAt_rank, hnext.1] at hinvalid
    cases hinvalid
  | «at» j hj hvalid hfirst =>
    have hrank := RoundRobin.rank_partyAt rr hj
    have hnext : IsNext rr tvalid (partyAt rr j) := by
      refine ⟨hvalid, fun i hi => ?_⟩
      by_contra hlt
      have hinvalid := hfirst (rank rr i) (by omega)
      rw [RoundRobin.partyAt_rank, hi] at hinvalid
      cases hinvalid
    rw [decide_eq_true_iff]
    constructor
    · rintro rfl
      exact hnext
    · exact fun h => h.unique hnext

/-- A loop over the slots takes the value at the only slot granted. -/
theorem foldl_of_granted {α : Type*} {gr : Fin n → Bool} {g : Fin n} (f : Fin n → α) (a : α)
    (hg : gr g = true) (hone : ∀ s, gr s = true → s = g) :
    (List.finRange n).foldl (fun acc s => if gr s then f s else acc) a = f g := by
  have hloop : ∀ l : List (Fin n), ∀ acc : α, g ∈ l ∨ acc = f g →
      l.foldl (fun acc s => if gr s then f s else acc) acc = f g := by
    intro l
    induction l with
    | nil =>
      rintro acc (hmem | hacc)
      · cases hmem
      · exact hacc
    | cons s l ih =>
      intro acc h
      rw [List.foldl_cons]
      apply ih
      by_cases hs : gr s = true
      · rw [if_pos hs, hone s hs]
        exact Or.inr rfl
      · rw [if_neg hs]
        rcases h with hmem | hacc
        · rcases List.mem_cons.mp hmem with rfl | hrest
          · exact absurd hg hs
          · exact Or.inl hrest
        · exact Or.inr hacc
  exact hloop _ a (Or.inl (List.mem_finRange g))

section

variable {rr : Fin n} {i : SlotMuxIn n} {g : Fin n}

theorem mAxisTvalid_slotMux :
    (slotMux rr i).mAxisTvalid = true ↔ ∃ s, i.sAxisTvalid s = true := by
  rw [slotMux, anyBit_eq_true_iff]
  constructor
  · rintro ⟨s, hs⟩
    exact ⟨s, (grant_iff.mp hs).1⟩
  · intro h
    obtain ⟨g, hg⟩ := RoundRobin.exists_isNext rr h
    exact ⟨g, grant_iff.mpr hg⟩

theorem mAxisTdata_slotMux (h : IsNext rr i.sAxisTvalid g) :
    (slotMux rr i).mAxisTdata = i.sAxisTdata g :=
  foldl_of_granted i.sAxisTdata {} (grant_iff.mpr h) fun _ hs => (grant_iff.mp hs).unique h

theorem sAxisTready_slotMux {s : Fin n} :
    (slotMux rr i).sAxisTready s = true ↔ IsNext rr i.sAxisTvalid s ∧ i.mAxisTready = true := by
  rw [slotMux, Bool.and_eq_true, grant_iff]

/-- The pointer moves to the slot whose flit is taken. -/
theorem nextRr_of_taken (hrstn : i.rstn = true) (h : IsNext rr i.sAxisTvalid g)
    (hready : i.mAxisTready = true) : nextRr rr i = g := by
  have hvalid : (slotMux rr i).mAxisTvalid = true := mAxisTvalid_slotMux.mpr ⟨g, h.1⟩
  rw [nextRr, hrstn, hvalid, hready, if_neg (by decide), if_pos (by decide)]
  exact foldl_of_granted id rr (grant_iff.mpr h) fun _ hs => (grant_iff.mp hs).unique h

theorem nextRr_of_not_taken (hrstn : i.rstn = true)
    (h : ((slotMux rr i).mAxisTvalid && i.mAxisTready) = false) : nextRr rr i = rr := by
  rw [nextRr, hrstn, h, if_neg (by decide), if_neg (by decide)]

end

/-! ## Stability of the output -/

/-- The register `rr` over the cycles, from a value of a slot. -/
def rrAt (rr₀ : Fin n) (ins : ℕ → SlotMuxIn n) : ℕ → Fin n
  | 0 => rr₀
  | t + 1 => nextRr (rrAt rr₀ ins t) (ins t)

/-- The outputs over the cycles. -/
def muxAt (rr₀ : Fin n) (ins : ℕ → SlotMuxIn n) (t : ℕ) : SlotMuxOut n :=
  slotMux (rrAt rr₀ ins t) (ins t)

/-- Outside reset, each source holds what it offers until it is taken. -/
def SourcesHold (rr₀ : Fin n) (ins : ℕ → SlotMuxIn n) : Prop :=
  ∀ t s, (ins t).rstn = true → (ins t).sAxisTvalid s = true →
    (muxAt rr₀ ins t).sAxisTready s = false →
    (ins (t + 1)).sAxisTvalid s = true ∧ (ins (t + 1)).sAxisTdata s = (ins t).sAxisTdata s

/-- What the output offers in cycle `t` and is not taken, it offers in the next cycle. -/
def OutputHolds (rr₀ : Fin n) (ins : ℕ → SlotMuxIn n) (t : ℕ) : Prop :=
  (ins t).rstn = true → (muxAt rr₀ ins t).mAxisTvalid = true → (ins t).mAxisTready = false →
    (muxAt rr₀ ins (t + 1)).mAxisTvalid = true ∧
      (muxAt rr₀ ins (t + 1)).mAxisTdata = (muxAt rr₀ ins t).mAxisTdata

/-- No slot before `g`, the first valid one, becomes valid and the first with another flit. -/
def NotOvertaken (rr : Fin n) (i i' : SlotMuxIn n) : Prop :=
  ∀ g s, IsNext rr i.sAxisTvalid g → IsNext rr i'.sAxisTvalid s → rank rr s < rank rr g →
    i'.sAxisTdata s = i.sAxisTdata g

section

variable {rr₀ : Fin n} {ins : ℕ → SlotMuxIn n}

/-- A stalled cycle: the slot that is granted goes on asking, so the output changes only with the
grant. -/
theorem outputHolds_iff (hhold : SourcesHold rr₀ ins) {t : ℕ} (hrstn : (ins t).rstn = true)
    (hready : (ins t).mAxisTready = false) :
    OutputHolds rr₀ ins t ↔ NotOvertaken (rrAt rr₀ ins t) (ins t) (ins (t + 1)) := by
  have hrr : rrAt rr₀ ins (t + 1) = rrAt rr₀ ins t :=
    nextRr_of_not_taken hrstn (by rw [hready, Bool.and_false])
  -- with `tready` low no source is ready, so all hold
  have hkept : ∀ s, (ins t).sAxisTvalid s = true → (ins (t + 1)).sAxisTvalid s = true ∧
      (ins (t + 1)).sAxisTdata s = (ins t).sAxisTdata s := by
    intro s hs
    refine hhold t s hrstn hs ?_
    simp [muxAt, slotMux, hready]
  constructor
  · intro h g s hg hs _
    obtain ⟨-, hdata⟩ := h hrstn (mAxisTvalid_slotMux.mpr ⟨g, hg.1⟩) hready
    rwa [muxAt, muxAt, hrr, mAxisTdata_slotMux hs, mAxisTdata_slotMux hg] at hdata
  · intro h _ hvalid _
    obtain ⟨s₀, hs₀⟩ := mAxisTvalid_slotMux.mp hvalid
    obtain ⟨g, hg⟩ := RoundRobin.exists_isNext (rrAt rr₀ ins t) ⟨s₀, hs₀⟩
    obtain ⟨s, hs⟩ := RoundRobin.exists_isNext (rrAt rr₀ ins t) ⟨g, (hkept g hg.1).1⟩
    refine ⟨mAxisTvalid_slotMux.mpr ⟨s, hs.1⟩, ?_⟩
    rw [muxAt, muxAt, hrr, mAxisTdata_slotMux hs, mAxisTdata_slotMux hg]
    -- the slot granted now is the old one or comes before it
    rcases Nat.lt_or_eq_of_le (hs.2 g (hkept g hg.1).1) with hlt | heq
    · exact h g s hg hs hlt
    · rw [RoundRobin.rank_injective _ heq]
      exact (hkept g hg.1).2

end

/-- **When the output is stable.** In a run whose sources hold what they offer, the output holds
what it offers in every cycle exactly when no stalled transfer is overtaken by a slot with another
flit. -/
theorem outputHolds_run_iff (rr₀ : Fin n) (ins : ℕ → SlotMuxIn n) (hhold : SourcesHold rr₀ ins) :
    (∀ t, OutputHolds rr₀ ins t) ↔
      ∀ t, (ins t).rstn = true → (ins t).mAxisTready = false →
        NotOvertaken (rrAt rr₀ ins t) (ins t) (ins (t + 1)) := by
  constructor
  · intro h t hrstn hready
    exact (outputHolds_iff hhold hrstn hready).mp (h t)
  · intro h t hrstn hvalid hready
    exact (outputHolds_iff hhold hrstn hready).mpr (h t hrstn hready) hrstn hvalid hready

/-- A source that asks alone, before an output that is never ready. -/
def alone (_ : ℕ) : SlotMuxIn 1 where
  rstn := true
  sAxisTdata := fun _ => {}
  sAxisTvalid := fun _ => true
  mAxisTready := false

/-- It is never overtaken. -/
theorem outputHolds_alone : SourcesHold 0 alone ∧ ∀ t, OutputHolds 0 alone t := by
  have hhold : SourcesHold 0 alone := fun _ _ _ _ _ => ⟨rfl, rfl⟩
  exact ⟨hhold, (outputHolds_run_iff 0 alone hhold).mpr fun _ _ _ _ _ _ _ _ => rfl⟩

/-- Two slots, of which the first to ask is not the first in the rotation: slot `0` asks from the
start with a flit of its id, slot `1` from the next cycle on, and nothing is ever taken. -/
def overtaken (t : ℕ) : SlotMuxIn 2 where
  rstn := true
  sAxisTdata := fun s => Flit.setSlotId {} (UInt16.ofNat s)
  sAxisTvalid := fun s => decide (s.val ≤ t)
  mAxisTready := false

theorem sourcesHold_overtaken : SourcesHold 0 overtaken := by
  intro t s _ hvalid _
  have hle : s.val ≤ t := of_decide_eq_true hvalid
  exact ⟨decide_eq_true (Nat.le_succ_of_le hle), rfl⟩

/-- The flit of slot `0` is withdrawn for the flit of slot `1`. -/
theorem output_changes :
    ¬ ∀ (n : Nat) (rr₀ : Fin n) (ins : ℕ → SlotMuxIn n), SourcesHold rr₀ ins →
      ∀ t, OutputHolds rr₀ ins t := by
  intro h
  have hdata := (h 2 0 overtaken sourcesHold_overtaken 0 rfl (by decide) rfl).2
  revert hdata
  decide

end OpenClickNP
