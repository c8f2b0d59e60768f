import Mathlib.Data.Nat.Bits
import OpenClickNP.Elements.LpmTree

/-!
# Where `LPM_Tree.clnp` reads and writes

A signal is checked for the place it writes to, but it stores any 16-bit number as a child, and the
walk goes on at whatever child it finds that is not negative. So all accesses stay in the table
exactly as long as no chain of children that the signals have stored, from position 0 of level 0,
leads beyond position 255 above the last level (`lpmTree_inTables_iff`).
-/

namespace OpenClickNP

open Run

/-! ## Accesses -/

/-- The levels and positions that the loop of the handler reads. -/
def lpmVisits (st : LpmTreeState) (o : Outside) (ip : UInt32) : (n d : Nat) → Int →
    List (Nat × Nat)
  | 0, _, _ => []
  | n + 1, d, pos =>
    if pos < 0 then []
    else (d, pos.toNat)
      :: lpmVisits st o ip n (d + 1) (st.child o d pos.toNat (addressBit ip d))

/-- The level and position that a signal writes. -/
def signalAccesses (event : ClSignal) : List (Nat × Nat) :=
  if event.cmd = 1 ∧ eventDepth event < 32 ∧ eventPos event < 256 then
    [(eventDepth event, eventPos event)]
  else []

/-- The accesses of the body that the kernel is in front of. -/
def lpmAccesses (o : Outside) (l : Locals LpmTreeState Flit) : List (Nat × Nat) :=
  if l.hasSignal then signalAccesses l.event
  else if testPort l.inputPort 1 then
    lpmVisits l.state o ((l.inputData 1).get 0).toUInt32 32 0 0
  else []

/-- A level and a position of the arrays. -/
def InTables (x : Nat × Nat) : Prop := x.1 < 32 ∧ x.2 < 256

theorem inTables_signalAccesses (event : ClSignal) : ∀ x ∈ signalAccesses event, InTables x := by
  intro x hx
  unfold signalAccesses at hx
  split at hx
  · rename_i hcond
    rw [List.mem_singleton.mp hx]
    exact hcond.2
  · cases hx

/-! ## Chains of children -/

/-- The child that is stored at a place of the table. -/
def LpmTreeState.link (st : LpmTreeState) (d : Fin 32) (pos : Fin 256) (bit : Bool) : Int :=
  (if bit then st.left d pos else st.right d pos).toInt

/-- A chain of stored children leads from position 0 of level 0 to this place. -/
inductive Linked (st : LpmTreeState) : Nat → Nat → Prop
  | root : Linked st 0 0
  | child {d pos : Nat} (h : Linked st d pos) (hd : d < 31) (hpos : pos < 256) (bit : Bool)
      (hchild : 0 ≤ st.link ⟨d, Nat.lt_succ_of_lt hd⟩ ⟨pos, hpos⟩ bit) :
      Linked st (d + 1) (st.link ⟨d, Nat.lt_succ_of_lt hd⟩ ⟨pos, hpos⟩ bit).toNat

/-- No chain leads beyond the last position. -/
def Contained (st : LpmTreeState) : Prop := ∀ d pos, Linked st d pos → pos < 256

section
variable {st : LpmTreeState} {o : Outside}

theorem child_eq_link {d pos : Nat} (hd : d < 32) (hpos : pos < 256) (bit : Bool) :
    st.child o d pos bit = st.link ⟨d, hd⟩ ⟨pos, hpos⟩ bit := by
  unfold LpmTreeState.child LpmTreeState.link
  rw [readAt_inside hd hpos, readAt_inside hd hpos]

/-- **The walk follows a chain**, while the chains stay in the table. Induction on the levels that
are left. -/
theorem inTables_lpmVisits (h : Contained st) (ip : UInt32) {n d : Nat} {pos : Int}
    (hn : n + d = 32) (hat : n ≠ 0 → 0 ≤ pos → Linked st d pos.toNat) :
    ∀ x ∈ lpmVisits st o ip n d pos, InTables x := by
  induction n generalizing d pos with
  | zero => exact fun x hx => absurd hx List.not_mem_nil
  | succ n ih =>
    intro x hx
    unfold lpmVisits at hx
    split at hx
    · cases hx
    · rename_i hneg
      have hlinked := hat (by omega) (by omega)
      have hlt := h d pos.toNat hlinked
      have hd : d < 32 := by omega
      rcases List.mem_cons.mp hx with rfl | hx
      · exact ⟨hd, hlt⟩
      · refine ih (by omega) (fun hn' hnext => ?_) x hx
        rw [child_eq_link hd hlt] at hnext ⊢
        exact hlinked.child (by omega) hlt _ hnext

/-! ## An address for every chain -/

/-- The address with these bits, the first one the highest. -/
def addressOf (bits : Nat → Bool) : UInt32 :=
  UInt32.ofNat (Nat.ofBits fun i : Fin 32 => bits (31 - i.val))

theorem addressBit_eq_testBit (ip : UInt32) {d : Nat} (hd : d < 32) :
    addressBit ip d = ip.toNat.testBit (31 - d) := by
  have hshift : (UInt32.ofNat (31 - d)).toNat % 32 = 31 - d := by
    rw [UInt32.toNat_ofNat']
    omega
  have hbit : ((ip >>> UInt32.ofNat (31 - d)) &&& 1).toNat = (ip.toNat >>> (31 - d)) &&& 1 := by
    rw [UInt32.toNat_and, UInt32.toNat_shiftRight, hshift]
    rfl
  unfold addressBit
  rw [Nat.testBit, Nat.and_comm 1, ← hbit]
  cases hzero : ((ip >>> UInt32.ofNat (31 - d)) &&& 1 != 0) with
  | true =>
    have hne := bne_iff_ne.mp hzero
    exact (bne_iff_ne.mpr fun h0 => hne (UInt32.toNat_inj.mp h0)).symm
  | false =>
    have heq : (ip >>> UInt32.ofNat (31 - d)) &&& 1 = 0 := by simpa using hzero
    rw [heq]
    rfl

theorem addressBit_addressOf (bits : Nat → Bool) {d : Nat} (hd : d < 32) :
    addressBit (addressOf bits) d = bits d := by
  have hsmall : (addressOf bits).toNat = Nat.ofBits fun i : Fin 32 => bits (31 - i.val) := by
    rw [addressOf, UInt32.toNat_ofNat']
    exact Nat.mod_eq_of_lt (Nat.ofBits_lt_two_pow _)
  rw [addressBit_eq_testBit _ hd, hsmall, Nat.testBit_ofBits_lt _ _ (by omega)]
  show bits (31 - (31 - d)) = bits d
  congr 1
  omega

/-- The bits of a chain take the walk to its end. Induction on the chain. -/
theorem exists_lpmVisits (o : Outside) {d pos : Nat} (h : Linked st d pos) :
    d < 32 ∧ ∃ bits : Nat → Bool, ∀ ip, (∀ j < d, addressBit ip j = bits j) →
      ∃ before, lpmVisits st o ip 32 0 0 = before ++ lpmVisits st o ip (32 - d) d pos := by
  induction h with
  | root => exact ⟨by decide, fun _ => false, fun ip _ => ⟨[], rfl⟩⟩
  | @child d pos _ hd hpos bit hchild ih =>
    obtain ⟨-, bits, hbits⟩ := ih
    refine ⟨by omega, fun j => if j = d then bit else bits j, fun ip hip => ?_⟩
    have hearlier : ∀ j < d, addressBit ip j = bits j := by
      intro j hj
      exact (hip j (by omega)).trans (if_neg (by omega))
    have hlast : addressBit ip d = bit := (hip d (by omega)).trans (if_pos rfl)
    obtain ⟨before, hbefore⟩ := hbits ip hearlier
    refine ⟨before ++ [(d, pos)], ?_⟩
    have hlevels : 32 - d = (32 - (d + 1)) + 1 := by omega
    rw [hbefore, hlevels, lpmVisits, if_neg (by omega), Int.toNat_natCast, hlast,
      child_eq_link (by omega) hpos, Int.toNat_of_nonneg hchild]
    simp

/-- **The walks of all addresses stay in the table exactly when the chains do.** -/
theorem inTables_iff_contained (o : Outside) :
    (∀ ip, ∀ x ∈ lpmVisits st o ip 32 0 0, InTables x) ↔ Contained st := by
  constructor
  · intro h d pos hlinked
    obtain ⟨hd, bits, hbits⟩ := exists_lpmVisits o hlinked
    obtain ⟨before, hbefore⟩ := hbits (addressOf bits)
      fun j hj => addressBit_addressOf bits (by omega)
    have hmem : (d, pos) ∈ lpmVisits st o (addressOf bits) 32 0 0 := by
      have hlevels : 32 - d = (31 - d) + 1 := by omega
      rw [hbefore, hlevels, lpmVisits, if_neg (by omega), Int.toNat_natCast]
      simp
    exact (h _ _ hmem).2
  · intro h ip
    exact inTables_lpmVisits h ip rfl fun _ _ => .root

end

/-! ## Runs -/

/-- **When `LPM_Tree` stays in its tables.** For every sequence of signals, whatever memory holds
beyond the arrays: in all runs that post them, or a first part of them, whatever flits come in
between, every body accesses the arrays at levels below 32 and positions below 256 only, if and only
if behind no first part of the signals does a chain of stored children, from position 0 of level 0,
lead to a position from 256 on. -/
theorem lpmTree_inTables_iff (o : Outside) (history : List ClSignal) :
    (∀ (inCap outCap : Nat → Int) (as : List (KernelAction Flit)), posted as <+: history →
      let s := exec (kstep (lpmTree o)) (kinit lpmTreeInit inCap outCap) as
      s.pc = .body → ∀ x ∈ lpmAccesses o s.locals, InTables x) ↔
      ∀ served, served <+: history →
        Contained (served.foldl LpmTreeState.update lpmTreeInit) := by
  constructor
  · intro h served hserved
    rw [← inTables_iff_contained o]
    intro ip
    -- the signals are served, and a flit with the address comes in
    obtain ⟨as, hposted, hfront, hstate⟩ := (transduces_lpmTree o).reaches_call
      (replays_lpmTree o) rfl lpmTreeInit (fun _ => 2) (fun _ => 2) served
      (({} : Flit).set 0 ip.toUInt64)
    have hin := h (fun _ => 2) (fun _ => 2) as (hposted.symm ▸ hserved) hfront.body
    have hlane : (({} : Flit).set 0 ip.toUInt64).get 0 = ip.toUInt64 :=
      Flit.get_set_self _ (by decide) (by decide) _
    unfold lpmAccesses at hin
    rw [hfront.noSignal, if_neg Bool.false_ne_true, if_pos hfront.ready, hfront.found, hstate,
      hlane, UInt32.toUInt32_toUInt64] at hin
    exact hin
  · intro h inCap outCap as hposted s _
    obtain ⟨served, hall, hstate⟩ :=
      served_of_replays (replays_lpmTree o) lpmTreeInit inCap outCap as
    have hcontained := h served (List.IsPrefix.trans ⟨_, hall⟩ hposted)
    unfold lpmAccesses
    split
    · exact inTables_signalAccesses _
    · split
      · rw [← hstate] at hcontained
        exact (inTables_iff_contained o).mpr hcontained _
      · exact fun x hx => absurd hx List.not_mem_nil

/-- Node 0 of level 0, with the child 256 for bit 1. -/
def wildSignal : ClSignal := nodeSignal 0 0 256 0xFFFF

/-- The child is followed. -/
theorem lpmTree_leaves_tables : ¬ ∀ (o : Outside) (history : List ClSignal)
    (inCap outCap : Nat → Int) (as : List (KernelAction Flit)), posted as <+: history →
      let s := exec (kstep (lpmTree o)) (kinit lpmTreeInit inCap outCap) as
      s.pc = .body → ∀ x ∈ lpmAccesses o s.locals, InTables x := by
  intro h
  -- four operations serve the signal, three more lead to the call
  have hin := h zeroOutside [wildSignal] (fun _ => 2) (fun _ => 2)
    (.post wildSignal :: List.replicate 4 .kernel
      ++ .produce 1 (({} : Flit).set 0 0x80000000) :: List.replicate 3 .kernel) (by decide) rfl
  have hmem := hin (1, 256) (by decide)
  exact absurd hmem.2 (by decide)

end OpenClickNP
