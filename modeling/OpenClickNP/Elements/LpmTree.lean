import Mathlib.Data.UInt
import OpenClickNP.Backend.SignalledCalls
import OpenClickNP.Lib.PrefixMatch

/-!
# `LPM_Tree.clnp`

A table of 32 levels with 256 nodes each. A signal writes one node; a flit walks down from the
first node of the first level, by the bits of its address, and gets the value of the last node on
its way.

So a route is lost to every address that leaves the trie below it through nodes without a route
(`lpmTree_longest_iff`).
-/

namespace OpenClickNP

open Run PrefixMatch

/-! ## The element -/

/-- The `.state` block. -/
structure LpmTreeState where
  left : Fin 32 → Fin 256 → Int16
  right : Fin 32 → Fin 256 → Int16
  value : Fin 32 → Fin 256 → UInt16

/-- The `.init` block. -/
def lpmTreeInit : LpmTreeState where
  left := fun _ _ => -1
  right := fun _ _ => -1
  value := fun _ _ => 0

/-- What a read beyond the end of an array finds. -/
structure Outside where
  left : Nat → Nat → Int16
  right : Nat → Nat → Int16
  value : Nat → Nat → UInt16

/-- `a[d][pos]`. -/
def readAt {β : Type} (a : Fin 32 → Fin 256 → β) (outside : Nat → Nat → β) (d pos : Nat) : β :=
  if h : d < 32 ∧ pos < 256 then a ⟨d, h.1⟩ ⟨pos, h.2⟩ else outside d pos

/-- `a[depth][pos] = x`, in the table. -/
def putAt {β : Type} (a : Fin 32 → Fin 256 → β) (depth pos : Nat) (x : β) :
    Fin 32 → Fin 256 → β :=
  fun d w => if d.val = depth ∧ w.val = pos then x else a d w

/-- `(ip >> (31 - d)) & 1u`. -/
def addressBit (ip : UInt32) (d : Nat) : Bool := (ip >>> UInt32.ofNat (31 - d)) &&& 1 != 0

/-- `bit ? _state.left[d][pos] : _state.right[d][pos]`. -/
def LpmTreeState.child (st : LpmTreeState) (o : Outside) (d pos : Nat) (bit : Bool) : Int :=
  (if bit then readAt st.left o.left d pos else readAt st.right o.right d pos).toInt

/-- The loop of the handler, from level `d` with `n` levels left. -/
def lpmWalk (st : LpmTreeState) (o : Outside) (ip : UInt32) : (n d : Nat) → Int → UInt16 → UInt16
  | 0, _, _, result => result
  | n + 1, d, pos, result =>
    if pos < 0 then result
    else
      lpmWalk st o ip n (d + 1) (st.child o d pos.toNat (addressBit ip d))
        (readAt st.value o.value d pos.toNat)

def LpmTreeState.lookup (st : LpmTreeState) (o : Outside) (ip : UInt32) : UInt16 :=
  lpmWalk st o ip 32 0 0 0

/-- The flit with the value for its address in lane 2. -/
def LpmTreeState.answer (st : LpmTreeState) (o : Outside) (f : Flit) : Flit :=
  f.set 2 (st.lookup o (f.get 0).toUInt32).toUInt64

/-- The `.handler` block. -/
def lpmTreeHandler (o : Outside) (v : View LpmTreeState Flit) : BodyResult LpmTreeState Flit where
  state := v.state
  ops :=
    if testPort v.inputPort 1 then
      [.clearInputReady (PORT_BIT 1), .setOutputPort 1 (v.state.answer o (v.inputData 1))]
    else []
  ret := some (PORT_BIT 1)

/-- `(event.sparam >> 16) & 0xFFu`. -/
def eventDepth (event : ClSignal) : Nat := ((event.sparam >>> 16) &&& 0xFF).toNat

/-- `event.sparam & 0xFFFFu`. -/
def eventPos (event : ClSignal) : Nat := (event.sparam &&& 0xFFFF).toNat

/-- What a signal does to the table. -/
def LpmTreeState.update (st : LpmTreeState) (event : ClSignal) : LpmTreeState :=
  let depth := eventDepth event
  let pos := eventPos event
  if event.cmd = 1 ∧ depth < 32 ∧ pos < 256 then
    { value := putAt st.value depth pos (event.lparam 0).toUInt16
      left := putAt st.left depth pos (event.lparam 1).toUInt16.toInt16
      right := putAt st.right depth pos (event.lparam 2).toUInt16.toInt16 }
  else st

/-- The `.signal` block. -/
def lpmTreeSignal (v : View LpmTreeState Flit) : BodyResult LpmTreeState Flit where
  state := v.state.update v.event
  ops := []
  ret := none
  outevent := v.event

def lpmTree (o : Outside) : KernelFn LpmTreeState Flit where
  inPorts := [1]
  outPorts := [1]
  nodup_outPorts := nodup_one
  hasSignal := true
  handler := lpmTreeHandler o
  signal := lpmTreeSignal

def lpmTreeMachine (o : Outside) : Transducer LpmTreeState (Option Flit) Flit where
  next st _ := st
  out st x := (x.map (st.answer o)).toList

theorem transduces_lpmTree (o : Outside) :
    Transduces (lpmTree o) id (fun _ => False) (lpmTreeMachine o) where
  inPorts := rfl
  outPorts := rfl
  returns _ := rfl
  state _ := rfl
  taken _ := takenIn_offered rfl
  sets _ := setsOf_offered _ rfl
  signalState _ h := h.elim
  signalOps _ := rfl
  signalRet _ := rfl

theorem replays_lpmTree (o : Outside) : Replays (lpmTree o) LpmTreeState.update where
  handler _ := rfl
  signal _ := rfl

/-! ## Reads and writes -/

section
variable {β : Type} {a : Fin 32 → Fin 256 → β} {outside : Nat → Nat → β} {d pos : Nat}

theorem readAt_inside (hd : d < 32) (hpos : pos < 256) :
    readAt a outside d pos = a ⟨d, hd⟩ ⟨pos, hpos⟩ := dif_pos ⟨hd, hpos⟩

theorem readAt_putAt_self (hd : d < 32) (hpos : pos < 256) (x : β) :
    readAt (putAt a d pos x) outside d pos = x := by
  rw [readAt_inside hd hpos]
  exact if_pos ⟨rfl, rfl⟩

theorem readAt_putAt_of_ne {depth p : Nat} (h : ¬ (d = depth ∧ pos = p)) (x : β) :
    readAt (putAt a depth p x) outside d pos = readAt a outside d pos := by
  unfold readAt
  split
  · exact if_neg h
  · rfl

end

/-! ## Installed tries -/

/-- The bits of an address, the highest one first. -/
def addressBits (ip : UInt32) : List Bool := (List.range 32).map (addressBit ip)

/-- A place for each node of the trie of the routes: the routes are of at most 31 bits, the root is
at position 0, and the nodes of each level have different positions below 256. -/
structure Layout (routes : List Bool → UInt16) (pos : List Bool → Nat) : Prop where
  short : ∀ p, routes p ≠ 0 → p.length ≤ 31
  root : pos [] = 0
  fits : ∀ u, IsNode routes u → pos u < 256
  apart : ∀ u w, IsNode routes u → IsNode routes w → u.length = w.length → pos u = pos w → u = w

/-- `c` is the position of the child, or -1 if there is none. -/
def IsChild (routes : List Bool → UInt16) (pos : List Bool → Nat) (u : List Bool) (bit : Bool)
    (c : Int) : Prop :=
  (IsNode routes (u ++ [bit]) → c = pos (u ++ [bit])) ∧ (¬ IsNode routes (u ++ [bit]) → c = -1)

/-- The signal that writes the node `u`. -/
structure Describes (routes : List Bool → UInt16) (pos : List Bool → Nat) (u : List Bool)
    (event : ClSignal) : Prop where
  cmd : event.cmd = 1
  depth : eventDepth event = u.length
  place : eventPos event = pos u
  value : (event.lparam 0).toUInt16 = routes u
  left : IsChild routes pos u true (event.lparam 1).toUInt16.toInt16.toInt
  right : IsChild routes pos u false (event.lparam 2).toUInt16.toInt16.toInt

/-- The signals install the trie: each writes a node, and each node is written, in any order. -/
structure Installs (routes : List Bool → UInt16) (pos : List Bool → Nat)
    (history : List ClSignal) : Prop where
  only : ∀ event ∈ history, ∃ u, IsNode routes u ∧ Describes routes pos u event
  all : ∀ u, IsNode routes u → ∃ event ∈ history, Describes routes pos u event

/-- The table has the node `u` at its place. -/
structure HoldsNode (routes : List Bool → UInt16) (pos : List Bool → Nat) (o : Outside)
    (st : LpmTreeState) (u : List Bool) : Prop where
  value : readAt st.value o.value u.length (pos u) = routes u
  child : ∀ bit, IsChild routes pos u bit (st.child o u.length (pos u) bit)

section
variable {routes : List Bool → UInt16} {pos : List Bool → Nat} {o : Outside} {st : LpmTreeState}
  {u w : List Bool} {event : ClSignal} {history : List ClSignal}

theorem Layout.length_le (h : Layout routes pos) (hu : IsNode routes u) : u.length ≤ 31 := by
  obtain ⟨p, hp, hup⟩ := hu
  exact hup.length_le.trans (h.short p hp)

theorem update_of_describes (h : Layout routes pos) (hu : IsNode routes u)
    (hevent : Describes routes pos u event) : st.update event =
      { value := putAt st.value u.length (pos u) (event.lparam 0).toUInt16
        left := putAt st.left u.length (pos u) (event.lparam 1).toUInt16.toInt16
        right := putAt st.right u.length (pos u) (event.lparam 2).toUInt16.toInt16 } := by
  have hlen := h.length_le hu
  have hfits := h.fits u hu
  unfold LpmTreeState.update
  simp only [hevent.depth, hevent.place]
  exact if_pos ⟨hevent.cmd, by omega, hfits⟩

/-- A signal writes its node. -/
theorem holdsNode_update_self (h : Layout routes pos) (hu : IsNode routes u)
    (hevent : Describes routes pos u event) : HoldsNode routes pos o (st.update event) u := by
  have hlt : u.length < 32 := Nat.lt_succ_of_le (h.length_le hu)
  have hfits := h.fits u hu
  rw [update_of_describes h hu hevent]
  constructor
  · rw [readAt_putAt_self hlt hfits]
    exact hevent.value
  · intro bit
    unfold LpmTreeState.child
    cases bit with
    | true =>
      rw [if_pos rfl, readAt_putAt_self hlt hfits]
      exact hevent.left
    | false =>
      rw [if_neg Bool.false_ne_true, readAt_putAt_self hlt hfits]
      exact hevent.right

/-- A signal leaves the other nodes alone. -/
theorem holdsNode_update (h : Layout routes pos) (hu : IsNode routes u)
    (hholds : HoldsNode routes pos o st u) (hw : IsNode routes w)
    (hevent : Describes routes pos w event) : HoldsNode routes pos o (st.update event) u := by
  by_cases hsame : u.length = w.length ∧ pos u = pos w
  · rw [← h.apart u w hu hw hsame.1 hsame.2] at hevent
    exact holdsNode_update_self h hu hevent
  · rw [update_of_describes h hw hevent]
    constructor
    · rw [readAt_putAt_of_ne hsame]
      exact hholds.value
    · intro bit
      have hchild := hholds.child bit
      unfold LpmTreeState.child at hchild ⊢
      rwa [readAt_putAt_of_ne hsame, readAt_putAt_of_ne hsame]

/-- Behind the signals the table has every node that it had before or that one of them has
written. Induction on the signals. -/
theorem holdsNode_foldl (h : Layout routes pos)
    (honly : ∀ event ∈ history, ∃ w, IsNode routes w ∧ Describes routes pos w event)
    (hu : IsNode routes u)
    (hcase : HoldsNode routes pos o st u ∨ ∃ event ∈ history, Describes routes pos u event) :
    HoldsNode routes pos o (history.foldl LpmTreeState.update st) u := by
  induction history generalizing st with
  | nil =>
    rcases hcase with hholds | ⟨event, hmem, -⟩
    · exact hholds
    · cases hmem
  | cons event history ih =>
    obtain ⟨w, hw, hevent⟩ := honly event List.mem_cons_self
    refine ih (fun e he => honly e (List.mem_cons_of_mem _ he)) ?_
    rcases hcase with hholds | ⟨e, hmem, he⟩
    · exact Or.inl (holdsNode_update h hu hholds hw hevent)
    · rcases List.mem_cons.mp hmem with rfl | hmem
      · exact Or.inl (holdsNode_update_self h hu he)
      · exact Or.inr ⟨e, hmem, he⟩

/-- **The signals install the trie**, the root of the empty one too. -/
theorem holdsNode_of_installs (h : Layout routes pos) (hinstalls : Installs routes pos history)
    (hu : u = [] ∨ IsNode routes u) :
    HoldsNode routes pos o (history.foldl LpmTreeState.update lpmTreeInit) u := by
  by_cases hnode : IsNode routes u
  · exact holdsNode_foldl h hinstalls.only hnode (Or.inr (hinstalls.all u hnode))
  · obtain rfl : u = [] := hu.resolve_right hnode
    -- without a root there are no nodes, so there are no signals
    have hnone : ∀ w, ¬ IsNode routes w := fun w hw => hnode (hw.of_begins List.nil_prefix)
    have hnil : history = [] := by
      cases history with
      | nil => rfl
      | cons event history =>
        obtain ⟨w, hw, -⟩ := hinstalls.only event List.mem_cons_self
        exact absurd hw (hnone w)
    rw [hnil]
    have hroot : pos [] < 256 := by
      rw [h.root]
      decide
    constructor
    · rw [List.length_nil, readAt_inside (by decide) hroot]
      by_contra hne
      exact hnode (isNode_of_route (Ne.symm hne))
    · intro bit
      refine ⟨fun hchild => absurd hchild (hnone _), fun _ => ?_⟩
      unfold LpmTreeState.child
      rw [List.length_nil, readAt_inside (by decide) hroot, readAt_inside (by decide) hroot]
      cases bit <;> rfl

/-! ## The walk -/

theorem length_addressBits (ip : UInt32) : (addressBits ip).length = 32 := by
  rw [addressBits, List.length_map, List.length_range]

theorem take_succ_addressBits (ip : UInt32) {d : Nat} (hd : d < 32) :
    (addressBits ip).take (d + 1) = (addressBits ip).take d ++ [addressBit ip d] := by
  rw [List.take_add_one, List.getElem?_eq_getElem (by rw [length_addressBits]; exact hd)]
  simp [addressBits]

/-- **The walk ends with the value of the deepest node.** Induction on the levels that are left;
the walk is at a node. -/
theorem lpmWalk_deepest (h : Layout routes pos)
    (hholds : ∀ u, u = [] ∨ IsNode routes u → HoldsNode routes pos o st u) (ip : UInt32)
    {n d : Nat} (hn : n + d = 32) (hd : d < 32)
    (hin : (addressBits ip).take d = [] ∨ IsNode routes ((addressBits ip).take d))
    (result : UInt16) : ∃ u, Deepest routes (addressBits ip) u ∧
      lpmWalk st o ip n d (pos ((addressBits ip).take d)) result = routes u := by
  induction n generalizing d result with
  | zero => omega
  | succ n ih =>
    have hlen : ((addressBits ip).take d).length = d := by
      rw [List.length_take, length_addressBits]
      omega
    have hhere := hholds _ hin
    have hvalue := hhere.value
    have hchild := hhere.child (addressBit ip d)
    rw [hlen] at hvalue hchild
    rw [IsChild, ← take_succ_addressBits ip hd] at hchild
    rw [lpmWalk, if_neg (by omega), Int.toNat_natCast, hvalue]
    by_cases hnode : IsNode routes ((addressBits ip).take (d + 1))
    · rw [hchild.1 hnode]
      have hle := h.length_le hnode
      rw [List.length_take, length_addressBits] at hle
      exact ih (by omega) (by omega) (Or.inr hnode) _
    · rw [hchild.2 hnode]
      refine ⟨_, deepest_of_leaves hin hnode, ?_⟩
      cases n with
      | zero => rfl
      | succ n => rw [lpmWalk, if_pos (by decide)]

/-- The lookup finds the longest match exactly when no route leaves the path behind it. -/
theorem isLongestMatch_lookup_iff (h : Layout routes pos)
    (hinstalls : Installs routes pos history) (ip : UInt32) :
    IsLongestMatch routes (addressBits ip)
        ((history.foldl LpmTreeState.update lpmTreeInit).lookup o ip) ↔
      Covered routes (addressBits ip) := by
  obtain ⟨u, hdeepest, hwalk⟩ := lpmWalk_deepest (o := o) h
    (fun u hu => holdsNode_of_installs h hinstalls hu) ip (n := 32) (d := 0) rfl (by decide)
    (Or.inl rfl) 0
  have hlookup : (history.foldl LpmTreeState.update lpmTreeInit).lookup o ip = routes u := by
    rw [← hwalk, List.take_zero, h.root]
    rfl
  rw [hlookup]
  exact isLongestMatch_iff_covered hdeepest

end

/-- What a call answers is right exactly when the lookup is. -/
theorem answers_longest_iff {routes : List Bool → UInt16} {pos : List Bool → Nat}
    {history : List ClSignal} (hlayout : Layout routes pos)
    (hinstalls : Installs routes pos history) (o : Outside) {v : View LpmTreeState Flit}
    (hstate : v.state = history.foldl LpmTreeState.update lpmTreeInit)
    (hready : testPort v.inputPort 1 = true) :
    (∃ value, IsLongestMatch routes (addressBits ((v.inputData 1).get 0).toUInt32) value ∧
      setsOf 1 ((lpmTree o).handler v).ops = [(v.inputData 1).set 2 value.toUInt64]) ↔
      Covered routes (addressBits ((v.inputData 1).get 0).toUInt32) := by
  have hsets : setsOf 1 ((lpmTree o).handler v).ops
      = [v.state.answer o (v.inputData 1)] := by
    show setsOf 1 (if testPort v.inputPort 1 then _ else _) = _
    rw [if_pos hready]
    rfl
  rw [hsets, LpmTreeState.answer, hstate, ← isLongestMatch_lookup_iff hlayout hinstalls (o := o)]
  constructor
  · rintro ⟨value, hlongest, heq⟩
    have hlane := congrArg (fun f : Flit => f.get 2) (List.singleton_inj.mp heq)
    simp only [Flit.get_set_self _ (by decide : (0 : Int) ≤ 2) (by decide : (2 : Int) < 4)]
      at hlane
    have hvalue := congrArg UInt64.toUInt16 hlane
    rw [UInt16.toUInt16_toUInt64, UInt16.toUInt16_toUInt64] at hvalue
    rw [hvalue]
    exact hlongest
  · intro hlongest
    exact ⟨_, hlongest, rfl⟩

/-- **When `LPM_Tree` finds the longest match.** For all routes of at most 31 bits, every placement
of their trie and all runs that have served the signals that write its nodes, in any order: a call
that finds a flit ready sends it on with the value of the longest route that matches its address in
lane 2, or 0 if none matches, if and only if no route matches the address or no route shares more
leading bits with it than the longest one that matches. -/
theorem lpmTree_longest_iff {routes : List Bool → UInt16} {pos : List Bool → Nat}
    {history : List ClSignal} (hlayout : Layout routes pos)
    (hinstalls : Installs routes pos history) (o : Outside) (inCap outCap : Nat → Int)
    {as : List (KernelAction Flit)} (hposted : posted as = history)
    (hserved : pending (exec (kstep (lpmTree o)) (kinit lpmTreeInit inCap outCap) as) = [])
    {v : View LpmTreeState Flit}
    (hstate : v.state
      = (exec (kstep (lpmTree o)) (kinit lpmTreeInit inCap outCap) as).locals.state)
    (hready : testPort v.inputPort 1 = true) :
    (∃ value, IsLongestMatch routes (addressBits ((v.inputData 1).get 0).toUInt32) value ∧
      setsOf 1 ((lpmTree o).handler v).ops = [(v.inputData 1).set 2 value.toUInt64]) ↔
      Covered routes (addressBits ((v.inputData 1).get 0).toUInt32) := by
  obtain ⟨served, hall, htable⟩ :=
    served_of_replays (replays_lpmTree o) lpmTreeInit inCap outCap as
  rw [hserved, List.append_nil, hposted] at hall
  exact answers_longest_iff hlayout hinstalls o (by rw [hstate, htable, hall]) hready

/-! ## A route above a gap -/

/-- The routes of the empty prefix and of `11`; the node `1` between them has none. -/
def gapRoutes (u : List Bool) : UInt16 :=
  if u = [] then 5 else if u = [true, true] then 7 else 0

theorem isNode_gapRoutes {u : List Bool} : IsNode gapRoutes u ↔ u <+: [true, true] := by
  constructor
  · rintro ⟨p, hp, hup⟩
    unfold gapRoutes at hp
    split at hp
    · rename_i hnil
      rw [hnil] at hup
      exact hup.trans List.nil_prefix
    · split at hp
      · rename_i hlong
        rwa [hlong] at hup
      · exact absurd rfl hp
  · exact fun h => ⟨[true, true], by decide, h⟩

/-- The signal for a node at position 0 of a level. -/
def nodeSignal (depth : UInt32) (value left right : UInt64) : ClSignal where
  cmd := 1
  sparam := depth <<< 16
  lparam := fun i => if i = 0 then value else if i = 1 then left else if i = 2 then right else 0

def gapSignals : List ClSignal :=
  [nodeSignal 0 5 0 0xFFFF, nodeSignal 1 0 0 0xFFFF, nodeSignal 2 7 0xFFFF 0xFFFF]

theorem layout_gapRoutes : Layout gapRoutes fun _ => 0 where
  short p hp := by
    have hprefix := isNode_gapRoutes.mp (isNode_of_route hp)
    exact hprefix.length_le.trans (by decide)
  root := rfl
  fits _ _ := by decide
  apart u w hu hw hlen _ :=
    eq_of_length_of_begins (isNode_gapRoutes.mp hu) (isNode_gapRoutes.mp hw) hlen

theorem isChild_gap {u : List Bool} (bit : Bool) {c : Int}
    (hc : c = if u ++ [bit] <+: [true, true] then 0 else -1) :
    IsChild gapRoutes (fun _ => 0) u bit c := by
  unfold IsChild
  rw [isNode_gapRoutes]
  split at hc
  · rename_i hchild
    exact ⟨fun _ => hc, fun hno => absurd hchild hno⟩
  · rename_i hno
    exact ⟨fun hchild => absurd hchild hno, fun _ => hc⟩

theorem describes_gapSignals : Describes gapRoutes (fun _ => 0) [] (nodeSignal 0 5 0 0xFFFF) ∧
    Describes gapRoutes (fun _ => 0) [true] (nodeSignal 1 0 0 0xFFFF) ∧
    Describes gapRoutes (fun _ => 0) [true, true] (nodeSignal 2 7 0xFFFF 0xFFFF) := by
  refine ⟨?_, ?_, ?_⟩
  all_goals
    exact ⟨by decide, by decide, by decide, by decide, isChild_gap true (by decide),
      isChild_gap false (by decide)⟩

theorem installs_gapSignals : Installs gapRoutes (fun _ => 0) gapSignals where
  only event hevent := by
    obtain ⟨h0, h1, h2⟩ := describes_gapSignals
    simp only [gapSignals, List.mem_cons, List.not_mem_nil, or_false] at hevent
    rcases hevent with rfl | rfl | rfl
    · exact ⟨_, isNode_gapRoutes.mpr (by decide), h0⟩
    · exact ⟨_, isNode_gapRoutes.mpr (by decide), h1⟩
    · exact ⟨_, isNode_gapRoutes.mpr (by decide), h2⟩
  all u hu := by
    obtain ⟨h0, h1, h2⟩ := describes_gapSignals
    have hmem : u ∈ [true, true].inits := (List.mem_inits u [true, true]).mpr
      (isNode_gapRoutes.mp hu)
    have hcases : u = [] ∨ u = [true] ∨ u = [true, true] := by simpa using hmem
    rcases hcases with rfl | rfl | rfl
    · exact ⟨_, by simp [gapSignals], h0⟩
    · exact ⟨_, by simp [gapSignals], h1⟩
    · exact ⟨_, by simp [gapSignals], h2⟩

/-- The signals are posted and served, in four operations each. -/
def gapRun : List (KernelAction Flit) := gapSignals.map .post ++ List.replicate 12 .kernel

/-- Memory that holds zeros. -/
def zeroOutside : Outside where
  left := fun _ _ => 0
  right := fun _ _ => 0
  value := fun _ _ => 0

/-- A call behind the signals, that finds a flit with the address `ip`. -/
def gapView (ip : UInt64) : View LpmTreeState Flit where
  state := (exec (kstep (lpmTree zeroOutside)) (kinit lpmTreeInit (fun _ => 2) fun _ => 2)
    gapRun).locals.state
  inputPort := PORT_BIT 1
  inputData := fun _ => ({} : Flit).set 0 ip
  outputData := fun _ => {}
  outputFailed := 0
  outputSuccess := 0
  lastRport := PORT_ALL
  event := {}

theorem get_gapView (ip : UInt64) : ((gapView ip).inputData 1).get 0 = ip := by
  show (({} : Flit).set 0 ip).get 0 = ip
  exact Flit.get_set_self _ (by decide) (by decide) ip

/-- The address `11…` gets the route of `11`. -/
theorem lpmTree_longest_inside : ∃ value,
    IsLongestMatch gapRoutes (addressBits (((gapView 0xC0000000).inputData 1).get 0).toUInt32)
      value ∧
    setsOf 1 ((lpmTree zeroOutside).handler (gapView 0xC0000000)).ops
      = [((gapView 0xC0000000).inputData 1).set 2 value.toUInt64] := by
  refine (lpmTree_longest_iff layout_gapRoutes installs_gapSignals zeroOutside (fun _ => 2)
    (fun _ => 2) (show posted gapRun = gapSignals from rfl) rfl (v := gapView 0xC0000000) rfl
    (by decide)).mpr ?_
  intro _ q u hq huq _
  have hprefix := huq.trans (isNode_gapRoutes.mp (isNode_of_route hq))
  refine ⟨[true, true], ?_, by decide, hprefix.length_le⟩
  rw [get_gapView]
  decide

/-- The address `10…` gets 0, though the empty prefix matches it. -/
theorem lpmTree_loses_route : ¬ ∀ (routes : List Bool → UInt16) (pos : List Bool → Nat)
    (history : List ClSignal), Layout routes pos → Installs routes pos history →
    ∀ (o : Outside) (inCap outCap : Nat → Int) (as : List (KernelAction Flit)),
      posted as = history →
      pending (exec (kstep (lpmTree o)) (kinit lpmTreeInit inCap outCap) as) = [] →
      ∀ v : View LpmTreeState Flit,
        v.state = (exec (kstep (lpmTree o)) (kinit lpmTreeInit inCap outCap) as).locals.state →
        testPort v.inputPort 1 = true →
        ∃ value, IsLongestMatch routes (addressBits ((v.inputData 1).get 0).toUInt32) value ∧
          setsOf 1 ((lpmTree o).handler v).ops = [(v.inputData 1).set 2 value.toUInt64] := by
  intro h
  have hanswer := h gapRoutes (fun _ => 0) gapSignals layout_gapRoutes installs_gapSignals
    zeroOutside (fun _ => 2) (fun _ => 2) gapRun rfl rfl (gapView 0x80000000) rfl (by decide)
  have hstate : (gapView 0x80000000).state
      = gapSignals.foldl LpmTreeState.update lpmTreeInit := rfl
  have hcovered := (answers_longest_iff layout_gapRoutes installs_gapSignals zeroOutside hstate
    (by decide)).mp hanswer
  rw [get_gapView] at hcovered
  -- the node `1` is on the way of the address to `11`
  obtain ⟨p, hp, hne, hlen⟩ := hcovered ⟨[], List.nil_prefix, by decide⟩ [true, true] [true]
    (by decide) (by decide) (by decide)
  have hprefix := isNode_gapRoutes.mp (isNode_of_route hne)
  have hcases : p = [] ∨ p = [true] ∨ p = [true, true] := by
    simpa using (List.mem_inits p [true, true]).mpr hprefix
  rcases hcases with rfl | rfl | rfl
  · exact absurd hlen (by decide)
  · exact absurd rfl hne
  · exact absurd hp (by decide)

end OpenClickNP
