import Mathlib.Data.Finset.Card
import Mathlib.Data.Fintype.Basic
import Mathlib.Data.List.DropRight
import OpenClickNP.Elements.FlitActs

/-!
# `FlowCounter.clnp` and `PortScanDetect.clnp`

Both pass all flits on, and keep an array with an entry for many flows. A slot of `FlowCounter` has
one key: the count that a flit goes out with is that of the unbroken row of flits with its key,
among the flits of its slot (`flowCounter_counts`). `PortScanDetect` merges ports that agree modulo
32; its counter of alerts is the number of sources that have been seen with 16 of these
(`portScan_alerts`).
-/

namespace OpenClickNP

open Run

/-! ## `FlowCounter` -/

/-- The `.state` block. -/
structure FlowCounterState where
  key : Fin 1024 → UInt64
  cnt : Fin 1024 → UInt64
  valid : Fin 1024 → Bool

/-- The `.init` block: whatever the memory holds, no entry is valid. -/
def flowCounterInit (memory : FlowCounterState) : FlowCounterState :=
  { memory with valid := fun _ => false }

theorem flowSlot_lt (k : UInt64) : (k.toUInt32 &&& (1024 - 1)).toNat < 1024 := by
  rw [UInt32.toNat_and]
  exact Nat.lt_of_le_of_lt Nat.and_le_right (by decide)

/-- `h`. -/
def flowSlot (k : UInt64) : Fin 1024 := ⟨(k.toUInt32 &&& (1024 - 1)).toNat, flowSlot_lt k⟩

/-- The state behind a flit. -/
def FlowCounterState.next (st : FlowCounterState) (f : Flit) : FlowCounterState :=
  let k := f.get 0
  let h := flowSlot k
  if st.valid h && st.key h == k then { st with cnt := Function.update st.cnt h (st.cnt h + 1) }
  else
    { key := Function.update st.key h k
      cnt := Function.update st.cnt h 1
      valid := Function.update st.valid h true }

/-- The flit goes on with the count of its slot. -/
def FlowCounterState.change (st : FlowCounterState) (f : Flit) : Flit :=
  f.set 3 ((st.next f).cnt (flowSlot (f.get 0)))

/-- The `.signal` block. -/
def flowCounterAnswer (event : ClSignal) : ClSignal :=
  { event with lparam := Function.update event.lparam 0 1024 }

/-- `FlowCounter`. -/
def flowCounter : KernelFn FlowCounterState Flit :=
  forwarding FlowCounterState.next FlowCounterState.change fun v =>
    { state := v.state, ops := [], ret := none, outevent := flowCounterAnswer v.event }

/-- The flits at the end of `fs` that have the key of `f`, of those in the slot of `f`. -/
def streak (fs : List Flit) (f : Flit) : Nat :=
  ((fs.filter fun g => flowSlot (g.get 0) == flowSlot (f.get 0)).rtakeWhile
    fun g => g.get 0 == f.get 0).length

/-- The flits of `fs` that have the key of `f`. -/
def tally (fs : List Flit) (f : Flit) : Nat := (fs.filter fun g => g.get 0 == f.get 0).length

/-- Every flit with its count in lane 3, behind `earlier` flits. -/
def counted (count : List Flit → Flit → Nat) : List Flit → List Flit → List Flit
  | _, [] => []
  | earlier, f :: fs =>
    f.set 3 (UInt64.ofNat (count (earlier ++ [f]) f)) :: counted count (earlier ++ [f]) fs

theorem counted_append (count : List Flit → Flit → Nat) (earlier fs : List Flit) (f : Flit) :
    counted count earlier (fs ++ [f]) = counted count earlier fs ++
      [f.set 3 (UInt64.ofNat (count (earlier ++ fs ++ [f]) f))] := by
  induction fs generalizing earlier with
  | nil =>
    rw [List.append_nil]
    rfl
  | cons g fs ih =>
    have hrest := ih (earlier ++ [g])
    rw [List.append_assoc earlier [g] fs] at hrest
    exact congrArg (_ :: ·) hrest

theorem counted_congr {count count' : List Flit → Flit → Nat} {earlier fs : List Flit}
    (h : ∀ before f after, fs = before ++ f :: after →
      count (earlier ++ before ++ [f]) f = count' (earlier ++ before ++ [f]) f) :
    counted count earlier fs = counted count' earlier fs := by
  induction fs generalizing earlier with
  | nil => rfl
  | cons f fs ih =>
    have hhead := h [] f fs rfl
    rw [List.append_nil] at hhead
    rw [counted, counted, hhead, ih fun before g after hfs => ?_]
    have hrest := h (f :: before) g after (congrArg (f :: ·) hfs)
    rwa [List.append_cons earlier] at hrest

/-- In a slot with one key the row goes back to the start. -/
theorem streak_eq_tally {fs : List Flit} {f : Flit}
    (h : ∀ g ∈ fs, flowSlot (g.get 0) = flowSlot (f.get 0) → g.get 0 = f.get 0) :
    streak fs f = tally fs f := by
  have hslot : (fs.filter fun g => flowSlot (g.get 0) == flowSlot (f.get 0))
      = fs.filter fun g => g.get 0 == f.get 0 := by
    apply List.filter_congr
    intro g hg
    rw [Bool.eq_iff_iff, beq_iff_eq, beq_iff_eq]
    exact ⟨h g hg, fun hkey => congrArg flowSlot hkey⟩
  rw [streak, hslot, List.rtakeWhile_eq_self_iff.mpr fun g hg => (List.mem_filter.mp hg).2, tally]

/-- What a slot knows of the flits that have had it. -/
structure SlotCounts (st : FlowCounterState) (h : Fin 1024) (fs : List Flit) : Prop where
  unused : st.valid h = false → fs = []
  used : st.valid h = true → ∃ init last, fs = init ++ [last] ∧ st.key h = last.get 0 ∧
    st.cnt h = UInt64.ofNat (fs.rtakeWhile fun g => g.get 0 == last.get 0).length

/-- The flits of a slot. -/
def ofSlot (h : Fin 1024) (fs : List Flit) : List Flit :=
  fs.filter fun g => flowSlot (g.get 0) == h

/-- A flit leaves the other slots as they are. -/
theorem SlotCounts.next_of_ne {st : FlowCounterState} {fs : List Flit} {h : Fin 1024}
    (hslot : SlotCounts st h fs) {f : Flit} (hh : flowSlot (f.get 0) ≠ h) :
    SlotCounts (st.next f) h fs := by
  have hsame : (st.next f).valid h = st.valid h ∧ (st.next f).key h = st.key h ∧
      (st.next f).cnt h = st.cnt h := by
    unfold FlowCounterState.next
    simp only []
    split <;> simp [Function.update_of_ne (Ne.symm hh)]
  obtain ⟨hvalid, hkey, hcnt⟩ := hsame
  refine ⟨fun h' => hslot.unused (hvalid ▸ h'), fun h' => ?_⟩
  rw [hkey, hcnt]
  exact hslot.used (hvalid ▸ h')

/-- Where the slot is unused or has another key, the row of the key starts anew. -/
theorem SlotCounts.rtakeWhile_eq_nil {st : FlowCounterState} {fs : List Flit} {h : Fin 1024}
    (hslot : SlotCounts st h fs) {k : UInt64} (hmiss : ¬ (st.valid h && st.key h == k) = true) :
    fs.rtakeWhile (fun g => g.get 0 == k) = [] := by
  cases hvalid : st.valid h with
  | false =>
    rw [hslot.unused hvalid]
    rfl
  | true =>
    obtain ⟨init, last, hfs, hlast, -⟩ := hslot.used hvalid
    have hne : ¬ (last.get 0 == k) = true := by
      rw [← hlast]
      simpa [hvalid] using hmiss
    rw [hfs]
    exact List.rtakeWhile_concat_neg (fun g : Flit => g.get 0 == k) init last hne

/-- A flit goes on with the row of its slot, or starts a new one. -/
theorem SlotCounts.next_self {st : FlowCounterState} {fs : List Flit} {f : Flit}
    (hslot : SlotCounts st (flowSlot (f.get 0)) fs) :
    SlotCounts (st.next f) (flowSlot (f.get 0)) (fs ++ [f]) := by
  have hrow := List.rtakeWhile_concat_pos (fun g : Flit => g.get 0 == f.get 0) fs f
    (beq_self_eq_true (f.get 0))
  unfold FlowCounterState.next
  simp only []
  split
  · -- the row goes on
    rename_i hhit
    obtain ⟨hvalid, hkey⟩ := Bool.and_eq_true_iff.mp hhit
    obtain ⟨init, last, hfs, hlast, hcnt⟩ := hslot.used hvalid
    have hsame : last.get 0 = f.get 0 := hlast ▸ beq_iff_eq.mp hkey
    refine ⟨fun hnone => ?_, fun _ => ⟨_, f, rfl, hlast.trans hsame, ?_⟩⟩
    · rw [hvalid] at hnone
      cases hnone
    · show Function.update st.cnt _ _ _ = _
      rw [Function.update_self, hcnt, hsame, hrow]
      simp
  · -- a new row
    rename_i hmiss
    refine ⟨fun hnone => ?_, fun _ => ⟨_, f, rfl, Function.update_self .., ?_⟩⟩
    · change Function.update st.valid _ true _ = false at hnone
      rw [Function.update_self] at hnone
      cases hnone
    · show Function.update st.cnt _ 1 _ = _
      rw [Function.update_self, hrow, hslot.rtakeWhile_eq_nil hmiss]
      rfl

theorem slotCounts_next {st : FlowCounterState} {fs : List Flit}
    (hst : ∀ h, SlotCounts st h (ofSlot h fs)) (f : Flit) (h : Fin 1024) :
    SlotCounts (st.next f) h (ofSlot h (fs ++ [f])) := by
  have hsplit : ofSlot h (fs ++ [f]) = ofSlot h fs ++ ofSlot h [f] := List.filter_append ..
  rw [hsplit]
  by_cases hh : flowSlot (f.get 0) = h
  · subst hh
    have hone : ofSlot (flowSlot (f.get 0)) [f] = [f] := by simp [ofSlot]
    rw [hone]
    exact (hst _).next_self
  · have hnone : ofSlot h [f] = [] := by simp [ofSlot, hh]
    rw [hnone, List.append_nil]
    exact (hst h).next_of_ne hh

/-- The count of a flit is that of its row. -/
theorem change_eq {st : FlowCounterState} {fs : List Flit}
    (hst : ∀ h, SlotCounts st h (ofSlot h fs)) (f : Flit) :
    st.change f = f.set 3 (UInt64.ofNat (streak (fs ++ [f]) f)) := by
  have hnext := slotCounts_next hst f (flowSlot (f.get 0))
  have hvalid : (st.next f).valid (flowSlot (f.get 0)) = true := by
    unfold FlowCounterState.next
    simp only []
    split
    · rename_i hhit
      exact (Bool.and_eq_true_iff.mp hhit).1
    · exact Function.update_self ..
  obtain ⟨init, last, hfs, -, hcnt⟩ := hnext.used hvalid
  have hlast : last = f := by
    have hsplit : ofSlot (flowSlot (f.get 0)) (fs ++ [f])
        = ofSlot (flowSlot (f.get 0)) fs ++ [f] := by simp [ofSlot, List.filter_append]
    have hboth := congrArg List.getLast? (hfs.symm.trans hsplit)
    simpa using hboth
  rw [hlast] at hcnt
  rw [FlowCounterState.change, hcnt]
  rfl

/-- **Every flit goes out with the count of its row.** In every run, whatever else comes in, the
flits go on in order, each with the number of flits of its key that have come one after the other in
its slot. Where no two keys share a slot, this is the number of flits of its key. -/
theorem flowCounter_counts (memory : FlowCounterState) (inCap outCap : Nat → Int)
    (as : List (KernelAction Flit)) :
    let t := exec (kstep flowCounter) (kinit (flowCounterInit memory) inCap outCap) as
    t.sent 1 = counted streak [] (t.taken 1) ∧
      ((∀ f ∈ t.taken 1, ∀ g ∈ t.taken 1,
          flowSlot (g.get 0) = flowSlot (f.get 0) → g.get 0 = f.get 0) →
        t.sent 1 = counted tally [] (t.taken 1)) := by
  have hinit : ∀ h, SlotCounts (flowCounterInit memory) h (ofSlot h []) := fun h =>
    ⟨fun _ => rfl, fun hvalid => by cases hvalid⟩
  have hflit : ∀ (st : FlowCounterState) (taken : List Flit) (sent : Nat → List Flit) (f : Flit),
      (∀ h, SlotCounts st h (ofSlot h taken)) ∧ sent 1 = counted streak [] taken →
      (∀ h, SlotCounts (st.next f) h (ofSlot h (taken ++ [f]))) ∧
        sent 1 ++ [st.change f] = counted streak [] (taken ++ [f]) := by
    rintro st taken sent f ⟨hst, hsent⟩
    refine ⟨slotCounts_next hst f, ?_⟩
    rw [counted_append, hsent, change_eq hst, List.nil_append]
  have hacts : ActsOnFlits flowCounter FlowCounterState.next fun st f => [(1, st.change f)] :=
    acts_forwarding fun _ => rfl
  obtain ⟨served, -, -, hsent⟩ := hacts.inv (fun st _ => st) (fun _ => flowCounterAnswer)
    (fun _ => rfl) (fun _ => rfl)
    (Q := fun st _ taken sent _ =>
      (∀ h, SlotCounts st h (ofSlot h taken)) ∧ sent 1 = counted streak [] taken)
    ⟨hinit, rfl⟩ (fun st _ taken sent _ f h => hflit st taken sent f h)
    (fun _ _ _ _ _ _ h => h) inCap outCap as
  refine ⟨hsent, fun hkeys => hsent.trans (counted_congr fun before f after hfs => ?_)⟩
  apply streak_eq_tally
  intro g hg
  have hmem : ∀ x ∈ before ++ [f], x ∈ before ++ f :: after := by
    intro x hx
    rw [List.append_cons]
    exact List.mem_append_left _ hx
  rw [List.nil_append] at hg
  exact hkeys f (hfs ▸ hmem f (by simp)) g (hfs ▸ hmem g hg)

/-! ## `PortScanDetect` -/

/-- `__builtin_popcount`. -/
def popcount (x : UInt32) : Nat := (Finset.univ.filter fun b : Fin 32 => x.toBitVec.getLsbD b).card

/-- The `.state` block. -/
structure PortScanState where
  portSet : Fin 256 → UInt32
  alerts : UInt32

/-- The `.init` block. -/
def portScanInit : PortScanState := { portSet := fun _ => 0, alerts := 0 }

theorem srcOf_lt (k : UInt64) : ((k >>> 32).toUInt32 &&& (256 - 1)).toNat < 256 := by
  rw [UInt32.toNat_and]
  exact Nat.lt_of_le_of_lt Nat.and_le_right (by decide)

/-- `src`. -/
def srcOf (f : Flit) : Fin 256 := ⟨((f.get 0 >>> 32).toUInt32 &&& (256 - 1)).toNat, srcOf_lt _⟩

theorem portBit_lt (k : UInt64) : ((k &&& 0xFFFF).toUInt32 &&& 31).toNat < 32 := by
  rw [UInt32.toNat_and]
  exact Nat.lt_of_le_of_lt Nat.and_le_right (by decide)

/-- `bit`. -/
def portBit (f : Flit) : Fin 32 := ⟨((f.get 0 &&& 0xFFFF).toUInt32 &&& 31).toNat, portBit_lt _⟩

/-- The state behind a flit. -/
def PortScanState.next (st : PortScanState) (f : Flit) : PortScanState :=
  let prev := st.portSet (srcOf f)
  let cur := prev ||| ((1 : UInt32) <<< UInt32.ofNat (portBit f))
  { portSet := Function.update st.portSet (srcOf f) cur
    alerts :=
      if popcount cur ≥ 16 ∧ popcount prev < 16 then st.alerts + 1 else st.alerts }

/-- The `.signal` block. -/
def PortScanState.answer (st : PortScanState) (event : ClSignal) : ClSignal :=
  { event with lparam := Function.update event.lparam 0 st.alerts.toUInt64 }

/-- `PortScanDetect`. -/
def portScanDetect : KernelFn PortScanState Flit :=
  forwarding PortScanState.next (fun _ f => f) fun v =>
    { state := v.state, ops := [], ret := none, outevent := v.state.answer v.event }

/-- The ports of a source, modulo 32. -/
def portsSeen (fs : List Flit) (s : Fin 256) : Finset (Fin 32) :=
  Finset.univ.filter fun b => ∃ f ∈ fs, srcOf f = s ∧ portBit f = b

/-- The sources with 16 of them. -/
def scanners (fs : List Flit) : Finset (Fin 256) :=
  Finset.univ.filter fun s => 16 ≤ (portsSeen fs s).card

theorem getLsbD_mark (x : UInt32) (b b' : Fin 32) :
    (x ||| ((1 : UInt32) <<< UInt32.ofNat b)).toBitVec.getLsbD b'
      = (x.toBitVec.getLsbD b' || decide (b' = b)) := by
  revert b b'
  intro b b'
  have hshift : ((1 : UInt32) <<< UInt32.ofNat b).toBitVec = 1#32 <<< b.val := by
    revert b
    decide
  rw [UInt32.toBitVec_or, BitVec.getLsbD_or, hshift]
  congr 1
  revert b b'
  decide

/-- The bitmaps show the ports. -/
def Shows (portSet : Fin 256 → UInt32) (fs : List Flit) : Prop :=
  ∀ (s : Fin 256) (b : Fin 32), (portSet s).toBitVec.getLsbD b = true ↔ b ∈ portsSeen fs s

theorem Shows.popcount_eq {portSet : Fin 256 → UInt32} {fs : List Flit} (h : Shows portSet fs)
    (s : Fin 256) : popcount (portSet s) = (portsSeen fs s).card := by
  have hsame : (Finset.univ.filter fun b : Fin 32 => (portSet s).toBitVec.getLsbD b)
      = portsSeen fs s := by
    ext b
    rw [Finset.mem_filter, h s b]
    exact and_iff_right (Finset.mem_univ b)
  exact congrArg Finset.card hsame

theorem mem_portsSeen_append {fs : List Flit} {f : Flit} {s : Fin 256} {b : Fin 32} :
    b ∈ portsSeen (fs ++ [f]) s ↔ b ∈ portsSeen fs s ∨ (srcOf f = s ∧ portBit f = b) := by
  simp only [portsSeen, Finset.mem_filter, Finset.mem_univ, true_and, List.mem_append,
    List.mem_singleton, or_and_right, exists_or, exists_eq_left]

theorem shows_next {st : PortScanState} {fs : List Flit} (h : Shows st.portSet fs) (f : Flit) :
    Shows (st.next f).portSet (fs ++ [f]) := by
  intro s b
  rw [mem_portsSeen_append, ← h s b]
  show (Function.update st.portSet _ _ s).toBitVec.getLsbD b = true ↔ _
  by_cases hs : s = srcOf f
  · subst hs
    rw [Function.update_self, getLsbD_mark, Bool.or_eq_true, decide_eq_true_iff, and_iff_right rfl,
      eq_comm (a := b)]
  · rw [Function.update_of_ne hs, or_iff_left fun hseen => hs hseen.1.symm]

/-- A flit makes its source a scanner, or changes nothing. -/
theorem scanners_append (fs : List Flit) (f : Flit) : scanners (fs ++ [f])
    = if 16 ≤ (portsSeen (fs ++ [f]) (srcOf f)).card then insert (srcOf f) (scanners fs)
      else scanners fs := by
  have hother : ∀ s, s ≠ srcOf f → portsSeen (fs ++ [f]) s = portsSeen fs s := by
    intro s hs
    ext b
    rw [mem_portsSeen_append, or_iff_left fun hseen => hs hseen.1.symm]
  have hmore : (portsSeen fs (srcOf f)).card ≤ (portsSeen (fs ++ [f]) (srcOf f)).card :=
    Finset.card_le_card fun b hb => mem_portsSeen_append.mpr (Or.inl hb)
  ext s
  by_cases hs : s = srcOf f
  · subst hs
    have hmem : ∀ gs, srcOf f ∈ scanners gs ↔ 16 ≤ (portsSeen gs (srcOf f)).card := fun gs => by
      simp only [scanners, Finset.mem_filter, Finset.mem_univ, true_and]
    split
    · rename_i hbig
      exact iff_of_true ((hmem _).mpr hbig) (Finset.mem_insert_self _ _)
    · rename_i hsmall
      rw [hmem, hmem]
      omega
  · have hsame : s ∈ scanners (fs ++ [f]) ↔ s ∈ scanners fs := by
      simp only [scanners, Finset.mem_filter, Finset.mem_univ, hother s hs]
    rw [hsame]
    split
    · rw [Finset.mem_insert, or_iff_right hs]
    · exact Iff.rfl

/-- **A source raises one alert at most**, with its sixteenth port. -/
theorem alerts_next {st : PortScanState} {fs : List Flit} (h : Shows st.portSet fs)
    (halerts : st.alerts = UInt32.ofNat (scanners fs).card) (f : Flit) :
    (st.next f).alerts = UInt32.ofNat (scanners (fs ++ [f])).card := by
  have hprev : popcount (st.portSet (srcOf f)) = (portsSeen fs (srcOf f)).card :=
    h.popcount_eq (srcOf f)
  have hcur : popcount ((st.next f).portSet (srcOf f))
      = (portsSeen (fs ++ [f]) (srcOf f)).card := (shows_next h f).popcount_eq (srcOf f)
  have hmem : srcOf f ∈ scanners fs ↔ 16 ≤ (portsSeen fs (srcOf f)).card := by
    simp only [scanners, Finset.mem_filter, Finset.mem_univ, true_and]
  have hnext : (st.next f).alerts
      = if popcount ((st.next f).portSet (srcOf f)) ≥ 16
          ∧ popcount (st.portSet (srcOf f)) < 16
        then st.alerts + 1 else st.alerts := by
    have hself : (st.next f).portSet (srcOf f)
        = st.portSet (srcOf f) ||| ((1 : UInt32) <<< UInt32.ofNat (portBit f)) :=
      Function.update_self ..
    rw [hself]
    rfl
  rw [hnext, hprev, hcur, scanners_append, halerts]
  by_cases hbig : 16 ≤ (portsSeen (fs ++ [f]) (srcOf f)).card
  · by_cases hold : 16 ≤ (portsSeen fs (srcOf f)).card
    · rw [if_neg (by omega), if_pos hbig, Finset.insert_eq_of_mem (hmem.mpr hold)]
    · rw [if_pos ⟨hbig, by omega⟩, if_pos hbig,
        Finset.card_insert_of_notMem fun hin => hold (hmem.mp hin), UInt32.ofNat_add]
      rfl
  · rw [if_neg (by omega), if_neg hbig]

/-- **The counter of alerts is the number of scanners.** In every run, whatever signals come in
between, the flits go on unchanged; the counter is the number of sources seen with 16 ports modulo
32, at most 256, and every answer to a signal has carried the number behind some of the flits. -/
theorem portScan_alerts (inCap outCap : Nat → Int) (as : List (KernelAction Flit)) :
    let t := exec (kstep portScanDetect) (kinit portScanInit inCap outCap) as
    t.sent 1 = t.taken 1 ∧ t.locals.state.alerts.toNat = (scanners (t.taken 1)).card ∧
      ∀ rep ∈ t.responses, ∃ fs, fs <+: t.taken 1 ∧
        (rep.lparam 0).toNat = (scanners fs).card := by
  have hle : ∀ fs, (scanners fs).card ≤ 256 := fun fs =>
    (Finset.card_le_univ _).trans (le_of_eq (Fintype.card_fin 256))
  have hsmall : ∀ fs, (UInt32.ofNat (scanners fs).card).toNat = (scanners fs).card := by
    intro fs
    rw [UInt32.toNat_ofNat', Nat.mod_eq_of_lt (by have := hle fs; omega)]
  have hacts : ActsOnFlits portScanDetect PortScanState.next fun _ f => [(1, f)] :=
    acts_forwarding fun _ => rfl
  have hinit : Shows portScanInit.portSet [] := by
    intro s b
    simp [portScanInit, portsSeen]
  obtain ⟨served, -, -, halerts, hsent, hanswers⟩ := hacts.inv
    (fun st _ => st) PortScanState.answer (fun _ => rfl) (fun _ => rfl)
    (Q := fun st _ taken sent answers => Shows st.portSet taken ∧
      st.alerts = UInt32.ofNat (scanners taken).card ∧ sent 1 = taken ∧
      ∀ rep ∈ answers, ∃ fs, fs <+: taken ∧ (rep.lparam 0).toNat = (scanners fs).card)
    ⟨hinit, by decide, rfl, List.forall_mem_nil _⟩
    (fun st _ taken sent answers f ⟨hshows, halerts, hsent, hanswers⟩ =>
      ⟨shows_next hshows f, alerts_next hshows halerts f, congrArg (· ++ [f]) hsent,
        fun rep hrep => (hanswers rep hrep).imp fun fs hfs =>
          ⟨hfs.1.trans (List.prefix_append _ _), hfs.2⟩⟩)
    (fun st _ taken sent answers req ⟨hshows, halerts, hsent, hanswers⟩ => by
      refine ⟨hshows, halerts, hsent, fun rep hrep => ?_⟩
      rcases List.mem_append.mp hrep with hrep | hrep
      · exact hanswers rep hrep
      · rw [List.mem_singleton.mp hrep]
        refine ⟨taken, List.prefix_rfl, ?_⟩
        show (Function.update req.lparam 0 st.alerts.toUInt64 0).toNat = _
        rw [Function.update_self, UInt32.toNat_toUInt64, halerts, hsmall])
    inCap outCap as
  exact ⟨hsent, halerts ▸ hsmall _, hanswers⟩

end OpenClickNP
