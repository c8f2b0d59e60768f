import Mathlib.Data.List.Infix
import Mathlib.Logic.Function.Basic
import OpenClickNP.Lib.Transducer

/-!
# Histories of a data-flow network

The nodes of a network read and write channels; the history of a channel is all that has been
written to it. What a node has written so far is a first part of what its function makes of what it
can have read so far, and the function takes nothing back when it is given more (`StreamFn`).

Whatever the order in which the nodes go on:

* no history is ever longer than the network's equations allow (`Reached.within`);
* what the functions of the nodes keep holds of every history (`Reached.everywhere`);
* the histories of two runs on comparable inputs can be compared channel by channel
  (`Reached.comparable`);
* two runs in which every node has written all it can from the same inputs have the same histories
  (`Reached.eq_of_settled`).

None of this needs the network to be free of cycles.
-/

namespace Histories

variable {ι κ α : Type*}

/-! ## The order of histories -/

/-- On every channel `h` is a first part of `g`. -/
def Below (h g : κ → List α) : Prop := ∀ k, h k <+: g k

theorem Below.refl (h : κ → List α) : Below h h := fun _ => List.prefix_rfl

theorem Below.trans {h g f : κ → List α} (hg : Below h g) (gf : Below g f) : Below h f :=
  fun k => (hg k).trans (gf k)

theorem Below.antisymm {h g : κ → List α} (hg : Below h g) (gh : Below g h) : h = g :=
  funext fun k => (hg k).eq_of_length_le (gh k).length_le

/-- On every channel one of the two is a first part of the other. -/
def Comparable (h g : κ → List α) : Prop := ∀ k, h k <+: g k ∨ g k <+: h k

/-- The longer of the two, channel by channel. -/
def join (h g : κ → List α) : κ → List α :=
  fun k => if (h k).length ≤ (g k).length then g k else h k

theorem Comparable.below_join {h g : κ → List α} (hg : Comparable h g) :
    Below h (join h g) ∧ Below g (join h g) := by
  have hone : ∀ k, h k <+: join h g k ∧ g k <+: join h g k := by
    intro k
    unfold join
    split
    · rename_i hle
      refine ⟨?_, List.prefix_rfl⟩
      rcases hg k with hk | hk
      · exact hk
      · rw [hk.eq_of_length_le hle]
    · rename_i hlt
      refine ⟨List.prefix_rfl, ?_⟩
      rcases hg k with hk | hk
      · exact absurd hk.length_le hlt
      · exact hk
  exact ⟨fun k => (hone k).1, fun k => (hone k).2⟩

/-! ## Functions on histories -/

/-- What a node makes of what it has read on its input ports, for each of its output ports. When it
is given more, it makes more. -/
structure StreamFn (α : Type*) where
  apply : (ℕ → List α) → ℕ → List α
  mono : ∀ {h g : ℕ → List α}, Below h g → Below (apply h) (apply g)

namespace StreamFn

/-- The node that reads port 1 and puts out on port 1 what the machine makes of each item. -/
def ofMachine {σ : Type*} (M : Transducer σ α α) (s : σ) : StreamFn α where
  apply h q := if q = 1 then M.output s (h 1) else []
  mono {h g} hg q := by
    show (if q = 1 then M.output s (h 1) else []) <+: if q = 1 then M.output s (g 1) else []
    split
    · obtain ⟨rest, hrest⟩ := hg 1
      rw [← hrest, M.output_append]
      exact List.prefix_append _ _
    · exact List.prefix_rfl

/-- The node that reads port 1, and for each item puts out items on the ports the machine names. -/
def routed {σ : Type*} (M : Transducer σ α (ℕ × α)) (s : σ) : StreamFn α where
  apply h q := ((M.output s (h 1)).filter (·.1 == q)).map Prod.snd
  mono {h g} hg q := by
    obtain ⟨rest, hrest⟩ := hg 1
    refine List.IsPrefix.map _ ?_
    rw [← hrest, M.output_append, List.filter_append]
    exact List.prefix_append _ _

theorem zipWith_prefix {β γ : Type*} (f : α → β → γ) {xs xs' : List α} {ys ys' : List β}
    (hx : xs <+: xs') (hy : ys <+: ys') : xs.zipWith f ys <+: xs'.zipWith f ys' := by
  obtain ⟨moreX, rfl⟩ := hx
  obtain ⟨moreY, rfl⟩ := hy
  induction xs generalizing ys with
  | nil => exact List.nil_prefix
  | cons x xs ih =>
    cases ys with
    | nil => exact List.nil_prefix
    | cons y ys => exact List.cons_prefix_cons.mpr ⟨rfl, ih⟩

/-- The node that waits for an item on port 1 and one on port 2, and puts them together. -/
def rendezvous (f : α → α → α) : StreamFn α where
  apply h q := if q = 1 then (h 1).zipWith f (h 2) else []
  mono {h g} hg q := by
    show (if q = 1 then (h 1).zipWith f (h 2) else []) <+:
      if q = 1 then (g 1).zipWith f (g 2) else []
    split
    · exact zipWith_prefix f (hg 1) (hg 2)
    · exact List.prefix_rfl

end StreamFn

/-! ## Networks -/

/-- The channels that the nodes read and write, and the functions of the nodes. A port without a
channel is connected to nothing. -/
structure Net (ι κ α : Type*) where
  inOf : ι → ℕ → Option κ
  outOf : ι → ℕ → Option κ
  fn : ι → StreamFn α
  writer : ∀ {i j q r k}, outOf i q = some k → outOf j r = some k → i = j ∧ q = r

namespace Net

variable (N : Net ι κ α)

/-- What a node can have read. -/
def seen (h : κ → List α) (i : ι) : ℕ → List α := fun p => (N.inOf i p).elim [] h

/-- No node writes the channel. -/
def Source (k : κ) : Prop := ∀ i q, N.outOf i q ≠ some k

/-- Every node has written a first part of what its function makes of what it can have read. -/
def Honest (h : κ → List α) : Prop :=
  ∀ i q k, N.outOf i q = some k → h k <+: (N.fn i).apply (N.seen h i) q

/-- **The equations of the network**: every node has written just that. -/
def Solves (h : κ → List α) : Prop :=
  ∀ i q k, N.outOf i q = some k → h k = (N.fn i).apply (N.seen h i) q

/-- One step: a source brings more, or a node writes more of what it can. -/
inductive Step [DecidableEq κ] (h : κ → List α) : (κ → List α) → Prop
  | feed {k : κ} (hk : N.Source k) (xs : List α) : Step h (Function.update h k (h k ++ xs))
  | fire {i : ι} {q : ℕ} {k : κ} (hk : N.outOf i q = some k) {xs : List α} (hmore : h k <+: xs)
    (hfn : xs <+: (N.fn i).apply (N.seen h i) q) : Step h (Function.update h k xs)

/-- The histories that steps lead to, in whatever order. -/
inductive Reached [DecidableEq κ] : (κ → List α) → Prop
  | start : Reached fun _ => []
  | next {h g : κ → List α} (hr : Reached h) (hs : Step N h g) : Reached g

variable {N}

theorem seen_mono {h g : κ → List α} (hg : Below h g) (i : ι) :
    Below (N.seen h i) (N.seen g i) := by
  intro p
  unfold seen
  cases N.inOf i p with
  | none => exact List.prefix_rfl
  | some k => exact hg k

theorem apply_mono {h g : κ → List α} (hg : Below h g) (i : ι) (q : ℕ) :
    (N.fn i).apply (N.seen h i) q <+: (N.fn i).apply (N.seen g i) q :=
  (N.fn i).mono (seen_mono hg i) q

variable [DecidableEq κ]

theorem below_update {h : κ → List α} {k : κ} {xs : List α} (hmore : h k <+: xs) :
    Below h (Function.update h k xs) := by
  intro k'
  by_cases hk : k' = k
  · subst hk
    rw [Function.update_self]
    exact hmore
  · rw [Function.update_of_ne hk]

/-- Histories grow. -/
theorem Step.below {h g : κ → List α} (hs : N.Step h g) : Below h g := by
  cases hs with
  | feed hk xs => exact below_update (List.prefix_append _ _)
  | fire hk hmore hfn => exact below_update hmore

theorem Step.honest {h g : κ → List α} (hs : N.Step h g) (hh : N.Honest h) : N.Honest g := by
  intro j r k' hk'
  have hstill := (hh j r k' hk').trans (apply_mono hs.below j r)
  cases hs with
  | @feed k hk xs =>
    have hne : k' ≠ k := fun heq => hk j r (heq ▸ hk')
    rw [Function.update_of_ne hne]
    exact hstill
  | @fire i q k hk xs hmore hfn =>
    by_cases heq : k' = k
    · subst heq
      -- the channel has one writer
      obtain ⟨rfl, rfl⟩ := N.writer hk hk'
      rw [Function.update_self]
      exact hfn.trans (apply_mono (below_update hmore) i q)
    · rw [Function.update_of_ne heq]
      exact hstill

namespace Reached

variable {h g d : κ → List α}

theorem honest (hr : N.Reached h) : N.Honest h := by
  induction hr with
  | start => exact fun i q k _ => List.nil_prefix
  | next _ hs ih => exact hs.honest ih

/-- **What the nodes keep holds everywhere.** A property of histories that goes over to first parts,
and that the functions of the nodes keep, holds of every channel if it holds of the sources. -/
theorem everywhere (hr : N.Reached h) {P : List α → Prop} (hnil : P [])
    (hpart : ∀ {xs ys}, xs <+: ys → P ys → P xs)
    (hfn : ∀ i q k, N.outOf i q = some k → ∀ g, (∀ p, P (g p)) → P ((N.fn i).apply g q))
    (hsrc : ∀ k, N.Source k → P (h k)) (k : κ) : P (h k) := by
  induction hr generalizing k with
  | start => exact hnil
  | @next h g _ hs ih =>
    have hold : ∀ k, P (h k) := ih fun k hk => hpart (hs.below k) (hsrc k hk)
    have hseen : ∀ i p, P (N.seen h i p) := by
      intro i p
      unfold seen
      cases N.inOf i p with
      | none => exact hnil
      | some k => exact hold k
    cases hs with
    | @feed k' hk' xs =>
      by_cases heq : k = k'
      · exact heq ▸ hsrc k' hk'
      · rw [Function.update_of_ne heq]
        exact hold k
    | @fire i q k' hk' xs hmore hxs =>
      by_cases heq : k = k'
      · subst heq
        rw [Function.update_self]
        exact hpart hxs (hfn i q k hk' _ (hseen i))
      · rw [Function.update_of_ne heq]
        exact hold k

/-- **No history is longer than the equations allow.** Induction on the steps: what a node writes it
has made of histories that are within the solution already. -/
theorem within (hr : N.Reached h) (hd : N.Solves d) (hsrc : ∀ k, N.Source k → h k <+: d k) :
    Below h d := by
  induction hr with
  | start => exact fun k => List.nil_prefix
  | @next h g _ hs ih =>
    have hbelow : Below h d := ih fun k hk => (hs.below k).trans (hsrc k hk)
    intro k'
    cases hs with
    | @feed k hk xs =>
      by_cases heq : k' = k
      · exact heq ▸ hsrc k hk
      · rw [Function.update_of_ne heq]
        exact hbelow k'
    | @fire i q k hk xs hmore hfn =>
      by_cases heq : k' = k
      · subst heq
        rw [Function.update_self, hd i q k' hk]
        exact hfn.trans (apply_mono hbelow i q)
      · rw [Function.update_of_ne heq]
        exact hbelow k'

/-- **Histories can be compared.** Induction on the steps of the first run. Both runs have read no
more than the longer of their histories, so what both have written is a first part of what the
writer makes of these. -/
theorem comparable_of_honest (hr : N.Reached h) (hg : N.Honest g)
    (hsrc : ∀ k, N.Source k → h k <+: g k ∨ g k <+: h k) : Comparable h g := by
  induction hr with
  | start => exact fun k => Or.inl List.nil_prefix
  | @next h h' _ hs ih =>
    have hold : Comparable h g := ih fun k hk => by
      rcases hsrc k hk with hle | hle
      · exact Or.inl ((hs.below k).trans hle)
      · exact List.prefix_or_prefix_of_prefix (hs.below k) hle
    obtain ⟨hjoin, gjoin⟩ := hold.below_join
    intro k'
    cases hs with
    | @feed k hk xs =>
      by_cases heq : k' = k
      · exact heq ▸ hsrc k hk
      · rw [Function.update_of_ne heq]
        exact hold k'
    | @fire i q k hk xs hmore hfn =>
      by_cases heq : k' = k
      · subst heq
        rw [Function.update_self]
        exact List.prefix_or_prefix_of_prefix (hfn.trans (apply_mono hjoin i q))
          ((hg i q k' hk).trans (apply_mono gjoin i q))
      · rw [Function.update_of_ne heq]
        exact hold k'

theorem comparable (hr : N.Reached h) (hr' : N.Reached g)
    (hsrc : ∀ k, N.Source k → h k <+: g k ∨ g k <+: h k) : Comparable h g :=
  hr.comparable_of_honest hr'.honest hsrc

/-- **Where everything has come through, the order has not mattered.** -/
theorem eq_of_settled (hr : N.Reached h) (hr' : N.Reached g) (hh : N.Solves h) (hg : N.Solves g)
    (hsrc : ∀ k, N.Source k → h k = g k) : h = g :=
  (hr.within hg fun k hk => (hsrc k hk).symm ▸ List.prefix_rfl).antisymm
    (hr'.within hh fun k hk => hsrc k hk ▸ List.prefix_rfl)

end Reached

end Net

end Histories
