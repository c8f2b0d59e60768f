import Mathlib.Data.Fintype.Pi
import Mathlib.Data.List.GetD
import Mathlib.Tactic.IntervalCases
import OpenClickNP.Lib.Blocks
import OpenClickNP.Lib.ByteMem

/-!
# `flit.hpp`: the channel message

`flit_t` is 64 raw bytes; the accessors are loads and stores on them.
-/

namespace OpenClickNP

open ByteMem

/-- `flit_t`. -/
structure Flit where
  raw : Vector UInt8 64 := Vector.replicate 64 0
deriving DecidableEq

namespace Flit

instance : Inhabited Flit := ⟨{}⟩

/-- The bytes of the flit as memory. -/
def mem (f : Flit) : Mem := fun i => if h : i < 64 then f.raw[i] else 0

def ofMem (m : Mem) : Flit := { raw := Vector.ofFn fun i => m i }

theorem mem_ofMem (m : Mem) {i : Nat} (hi : i < 64) : (ofMem m).mem i = m i := by
  simp [mem, ofMem, hi]

theorem load_ofMem (m : Mem) {off n : Nat} (h : off + n ≤ 64) :
    load (ofMem m).mem off n = load m off n :=
  load_congr fun i hi => mem_ofMem m (by omega)

/-! ## Lanes -/

def set (f : Flit) (lane : Int) (v : UInt64) : Flit :=
  if lane < 0 ∨ lane ≥ 4 then f else ofMem (store f.mem (lane.toNat * 8) 8 v.toNat)

def get (f : Flit) (lane : Int) : UInt64 :=
  if lane < 0 ∨ lane ≥ 4 then 0 else UInt64.ofNat (load f.mem (lane.toNat * 8) 8)

theorem get_set_self (f : Flit) {lane : Int} (h : 0 ≤ lane) (h4 : lane < 4) (v : UInt64) :
    (f.set lane v).get lane = v := by
  have hin : ¬ (lane < 0 ∨ lane ≥ 4) := by omega
  unfold get set
  rw [if_neg hin, if_neg hin, load_ofMem _ (by omega), load_store]
  rw [show (256 : Nat) ^ 8 = 2 ^ 64 by norm_num, Nat.mod_eq_of_lt v.toNat_lt, UInt64.ofNat_toNat]

theorem get_set_of_ne (f : Flit) {lane lane' : Int} (hne : lane ≠ lane') (v : UInt64) :
    (f.set lane v).get lane' = f.get lane' := by
  by_cases hin : lane < 0 ∨ lane ≥ 4
  · rw [set, if_pos hin]
  · by_cases hin' : lane' < 0 ∨ lane' ≥ 4
    · rw [get, get, if_pos hin', if_pos hin']
    · unfold get set
      rw [if_neg hin, if_neg hin', if_neg hin', load_ofMem _ (by omega),
        load_store_of_disjoint (by omega)]

theorem ofMem_mem (f : Flit) : ofMem f.mem = f := by
  refine congrArg Flit.mk (Vector.ext fun i hi => ?_)
  rw [Vector.getElem_ofFn, mem, dif_pos hi]

/-- A lane that is set to what it holds. -/
theorem set_get (f : Flit) (lane : Int) : f.set lane (f.get lane) = f := by
  by_cases hin : lane < 0 ∨ lane ≥ 4
  · rw [set, if_pos hin]
  · have hlt : load f.mem (lane.toNat * 8) 8 < 2 ^ 64 := load_lt _ _ 8
    have hword : (UInt64.ofNat (load f.mem (lane.toNat * 8) 8)).toNat
        = load f.mem (lane.toNat * 8) 8 := by
      rw [UInt64.toNat_ofNat', Nat.mod_eq_of_lt hlt]
    rw [set, get, if_neg hin, if_neg hin, hword, store_load, ofMem_mem]

def lanes (f : Flit) : List UInt64 := (List.range 4).map fun (i : Nat) => f.get i

@[simp] theorem length_lanes (f : Flit) : f.lanes.length = 4 := by simp [lanes]

/-- The words that a list of flits carries. -/
def payload (fs : List Flit) : List UInt64 := fs.flatMap lanes

@[simp] theorem payload_nil : payload [] = [] := rfl

theorem payload_append (fs gs : List Flit) : payload (fs ++ gs) = payload fs ++ payload gs :=
  List.flatMap_append

theorem payload_singleton (f : Flit) : payload [f] = f.lanes := List.flatMap_singleton lanes f

theorem length_payload (fs : List Flit) : (payload fs).length = 4 * fs.length :=
  Blocks.length_flatMap length_lanes fs

/-! ## Flags -/

/-- Test of a bit of byte 32. -/
def flag (f : Flit) (mask : UInt8) : Bool := f.raw[32] &&& mask != 0

/-- `raw[32] = (raw[32] & ~mask) | (b ? mask : 0)`. -/
def setFlag (f : Flit) (mask : UInt8) (b : Bool) : Flit :=
  { raw := f.raw.set 32 ((f.raw[32] &&& ~~~mask) ||| (if b then mask else 0)) }

def sop (f : Flit) : Bool := f.flag 0x01
def eop (f : Flit) : Bool := f.flag 0x02
def setSop (f : Flit) (b : Bool) : Flit := f.setFlag 0x01 b
def setEop (f : Flit) (b : Bool) : Flit := f.setFlag 0x02 b

theorem and_setFlag (x mask : UInt8) (b : Bool) :
    ((x &&& ~~~mask) ||| (if b then mask else 0)) &&& mask = if b then mask else 0 := by
  cases b with
  | false =>
    apply UInt8.toBitVec_inj.mp
    simp only [Bool.false_eq_true, if_false, UInt8.or_zero, UInt8.toBitVec_and,
      UInt8.toBitVec_not, UInt8.toBitVec_zero]
    ext i hi
    simp
  | true =>
    apply UInt8.toBitVec_inj.mp
    simp only [if_true, UInt8.toBitVec_and, UInt8.toBitVec_or, UInt8.toBitVec_not]
    ext i hi
    simp only [BitVec.getElem_and, BitVec.getElem_or, BitVec.getElem_not]
    grind

theorem and_setFlag_of_disjoint (x : UInt8) {mask mask' : UInt8} (h : mask &&& mask' = 0)
    (b : Bool) : ((x &&& ~~~mask) ||| (if b then mask else 0)) &&& mask' = x &&& mask' := by
  have hbits := UInt8.toBitVec_inj.mpr h
  apply UInt8.toBitVec_inj.mp
  have hbit : ∀ i, (mask.toBitVec.getLsbD i && mask'.toBitVec.getLsbD i) = false := by
    intro i
    simpa using congrArg (·.getLsbD i) hbits
  cases b with
  | false =>
    simp only [Bool.false_eq_true, if_false, UInt8.or_zero, UInt8.toBitVec_and,
      UInt8.toBitVec_not]
    ext i hi
    have hm := hbit i
    simp only [BitVec.getLsbD_eq_getElem hi] at hm
    simp only [BitVec.getElem_and, BitVec.getElem_not]
    grind
  | true =>
    simp only [if_true, UInt8.toBitVec_and, UInt8.toBitVec_or, UInt8.toBitVec_not]
    ext i hi
    have hm := hbit i
    simp only [BitVec.getLsbD_eq_getElem hi] at hm
    simp only [BitVec.getElem_and, BitVec.getElem_or, BitVec.getElem_not]
    grind

theorem flag_setFlag_self (f : Flit) {mask : UInt8} (hmask : mask ≠ 0) (b : Bool) :
    (f.setFlag mask b).flag mask = b := by
  unfold flag setFlag
  simp only [Vector.getElem_set_self, and_setFlag]
  cases b <;> simp [hmask]

theorem flag_setFlag_of_disjoint (f : Flit) {mask mask' : UInt8} (h : mask &&& mask' = 0)
    (b : Bool) : (f.setFlag mask b).flag mask' = f.flag mask' := by
  unfold flag setFlag
  simp only [Vector.getElem_set_self, and_setFlag_of_disjoint _ h]

theorem mem_setFlag_of_ne (f : Flit) (mask : UInt8) (b : Bool) {i : Nat} (hi : i ≠ 32) :
    (f.setFlag mask b).mem i = f.mem i := by
  unfold mem setFlag
  split
  · rw [Vector.getElem_set_ne _ _ (Ne.symm hi)]
  · rfl

theorem get_setFlag (f : Flit) (mask : UInt8) (b : Bool) (lane : Int) :
    (f.setFlag mask b).get lane = f.get lane := by
  unfold get
  split
  · rfl
  · rw [load_congr fun i hi => mem_setFlag_of_ne f mask b (by omega)]

/-! ## Payload bytes -/

/-- `get_data(dst, len)`: what it copies. -/
def getData (f : Flit) (len : Nat) : List UInt8 := f.raw.toList.take (min len 32)

/-- `set_data(src, len)`. -/
def setData (f : Flit) (src : List UInt8) (len : Nat) : Flit where
  raw := Vector.ofFn fun i => if i.val < min len 32 then src.getD i.val 0 else f.raw[i.val]

theorem length_getData (f : Flit) : (f.getData 32).length = 32 := by
  rw [getData, List.length_take, Vector.length_toList]
  rfl

theorem getElem_getData (f : Flit) {i : Nat} (hi : i < (f.getData 32).length) :
    (f.getData 32)[i] = f.mem i := by
  have hi32 := hi
  rw [length_getData] at hi32
  have hi64 : i < 64 := by omega
  simp only [getData, List.getElem_take, Vector.getElem_toList, mem, dif_pos hi64]

/-- No byte behind the first `len` is looked at. -/
theorem setData_take (f : Flit) (src : List UInt8) (len : Nat) :
    f.setData (src.take len) len = f.setData src len := by
  unfold setData
  refine congrArg (fun g => (⟨Vector.ofFn g⟩ : Flit)) (funext fun i => ?_)
  split
  · have hi : i.val < len := by omega
    rw [List.getD_eq_getElem?_getD, List.getElem?_take_of_lt hi, List.getD_eq_getElem?_getD]
  · rfl

theorem mem_setData (f : Flit) (src : List UInt8) {i : Nat} (hi : i < 32) :
    (f.setData src 32).mem i = src.getD i 0 := by
  have hi64 : i < 64 := by omega
  simp only [mem, dif_pos hi64, setData, Vector.getElem_ofFn, Nat.min_self, if_pos hi]

theorem getData_setData (f : Flit) {src : List UInt8} (h : src.length = 32) :
    (f.setData src 32).getData 32 = src := by
  refine List.ext_getElem (by rw [length_getData, h]) fun i hi hi' => ?_
  rw [getElem_getData, mem_setData _ _ (by omega), List.getD_eq_getElem _ _ hi']

theorem getData_setFlag (f : Flit) (mask : UInt8) (b : Bool) :
    (f.setFlag mask b).getData 32 = f.getData 32 := by
  refine List.ext_getElem (by rw [length_getData, length_getData]) fun i hi hi' => ?_
  rw [getElem_getData, getElem_getData, mem_setFlag_of_ne]
  rw [length_getData] at hi
  omega

theorem getData_eq_take (f : Flit) (n : Nat) : f.getData n = (f.getData 32).take n := by
  rw [getData, getData, List.take_take, Nat.min_self]

/-- A payload that is written in part. -/
theorem getData_setData_take (f : Flit) {src : List UInt8} {n : Nat} (hn : n ≤ 32)
    (hsrc : n ≤ src.length) :
    (f.setData src n).getData 32 = src.take n ++ (f.getData 32).drop n := by
  refine List.ext_getElem ?_ fun i hi hi' => ?_
  · simp only [length_getData, List.length_append, List.length_take, List.length_drop]
    omega
  · rw [length_getData] at hi
    have hi64 : i < 64 := by omega
    rw [getElem_getData]
    simp only [mem, dif_pos hi64, setData, Vector.getElem_ofFn, Nat.min_eq_left hn]
    by_cases hlt : i < n
    · rw [if_pos hlt, List.getElem_append_left (by rw [List.length_take]; omega),
        List.getElem_take, List.getD_eq_getElem _ _ (by omega)]
    · have hlen : (src.take n).length = n := by rw [List.length_take]; omega
      have hsum : n + (i - n) = i := by omega
      rw [if_neg hlt, List.getElem_append_right (by omega), List.getElem_drop, getElem_getData]
      simp only [hlen, hsum, mem, dif_pos hi64]

/-! ## Pad bytes -/

def padbytes (f : Flit) : UInt8 := f.raw[33]

def setPadbytes (f : Flit) (pb : UInt8) : Flit := { raw := f.raw.set 33 pb }

@[simp] theorem padbytes_setPadbytes (f : Flit) (pb : UInt8) : (f.setPadbytes pb).padbytes = pb :=
  Vector.getElem_set_self _

@[simp] theorem padbytes_setFlag (f : Flit) (mask : UInt8) (b : Bool) :
    (f.setFlag mask b).padbytes = f.padbytes := by
  unfold padbytes setFlag
  rw [Vector.getElem_set_ne _ _ (by omega)]

@[simp] theorem padbytes_setData (f : Flit) (src : List UInt8) (n : Nat) :
    (f.setData src n).padbytes = f.padbytes := by
  have hn : ¬ 33 < min n 32 := by omega
  simp only [padbytes, setData, Vector.getElem_ofFn, if_neg hn]

@[simp] theorem flag_setData (f : Flit) (src : List UInt8) (n : Nat) (mask : UInt8) :
    (f.setData src n).flag mask = f.flag mask := by
  have hn : ¬ 32 < min n 32 := by omega
  simp only [flag, setData, Vector.getElem_ofFn, if_neg hn]

@[simp] theorem flag_setPadbytes (f : Flit) (pb mask : UInt8) :
    (f.setPadbytes pb).flag mask = f.flag mask := by
  unfold flag setPadbytes
  rw [Vector.getElem_set_ne _ _ (by omega)]

theorem getData_setPadbytes (f : Flit) (pb : UInt8) :
    (f.setPadbytes pb).getData 32 = f.getData 32 := by
  refine List.ext_getElem (by rw [length_getData, length_getData]) fun i hi hi' => ?_
  rw [getElem_getData, getElem_getData]
  rw [length_getData] at hi
  have hi64 : i < 64 := by omega
  simp only [mem, dif_pos hi64, setPadbytes]
  exact Vector.getElem_set_ne _ _ (by omega)

/-! ## Slot id -/

def slotId (f : Flit) : UInt16 := f.raw[48].toUInt16 ||| (f.raw[49].toUInt16 <<< 8)

def setSlotId (f : Flit) (s : UInt16) : Flit :=
  { raw := (f.raw.set 48 (s &&& 0xFF).toUInt8).set 49 ((s >>> 8) &&& 0xFF).toUInt8 }

theorem or_shl_eight_bytes (s : UInt16) :
    (s &&& 0xFF).toUInt8.toUInt16 ||| (((s >>> 8) &&& 0xFF).toUInt8.toUInt16 <<< 8) = s := by
  apply UInt16.toBitVec_inj.mp
  simp only [UInt16.toBitVec_or, UInt16.toBitVec_shiftLeft, UInt8.toBitVec_toUInt16,
    UInt16.toBitVec_toUInt8, UInt16.toBitVec_and, UInt16.toBitVec_shiftRight]
  ext i hi
  interval_cases i <;> simp

theorem slotId_setSlotId (f : Flit) (s : UInt16) : (f.setSlotId s).slotId = s := by
  unfold slotId setSlotId
  rw [Vector.getElem_set_ne (by omega) (by omega) (by omega), Vector.getElem_set_self,
    Vector.getElem_set_self, or_shl_eight_bytes]

/-- The two bytes of a word that was put together from two bytes. -/
theorem bytes_or_shl_eight (x y : UInt8) :
    ((x.toUInt16 ||| (y.toUInt16 <<< 8)) &&& 0xFF).toUInt8 = x ∧
      (((x.toUInt16 ||| (y.toUInt16 <<< 8)) >>> 8) &&& 0xFF).toUInt8 = y := by
  constructor
  · apply UInt8.toBitVec_inj.mp
    simp only [UInt16.toBitVec_toUInt8, UInt16.toBitVec_and, UInt16.toBitVec_or,
      UInt16.toBitVec_shiftLeft, UInt8.toBitVec_toUInt16]
    ext i hi
    interval_cases i <;> simp
  · apply UInt8.toBitVec_inj.mp
    simp only [UInt16.toBitVec_toUInt8, UInt16.toBitVec_and, UInt16.toBitVec_shiftRight,
      UInt16.toBitVec_or, UInt16.toBitVec_shiftLeft, UInt8.toBitVec_toUInt16]
    ext i hi
    interval_cases i <;> simp

theorem setSlotId_slotId (f : Flit) : f.setSlotId f.slotId = f := by
  unfold setSlotId slotId
  rw [(bytes_or_shl_eight _ _).1, (bytes_or_shl_eight _ _).2, Vector.set_getElem_self,
    Vector.set_getElem_self]

end Flit

/-! ## Port masks -/

abbrev PortMask := BitVec 32

def PORT_ALL : PortMask := 0x7FFFFFFF

/-- `PORT_BIT(n)`; a shift by the width of the mask or more leaves nothing. -/
def PORT_BIT (n : Nat) : PortMask := 1#32 <<< n

/-- `(mask & PORT_BIT(n)) != 0`. -/
def testPort (mask : PortMask) (n : Nat) : Bool := mask &&& PORT_BIT n != 0

theorem getLsbD_PORT_BIT (n i : Nat) :
    (PORT_BIT n).getLsbD i = (decide (i < 32) && decide (i = n)) := by
  rw [PORT_BIT, BitVec.getLsbD_shiftLeft]
  by_cases hi : i < 32
  · by_cases hin : i = n
    · subst hin; simp [hi]
    · simp [hin, hi, BitVec.getLsbD_one]
      omega
  · simp [hi]

theorem testPort_eq_getLsbD (mask : PortMask) (n : Nat) : testPort mask n = mask.getLsbD n := by
  have hbit : ∀ i, (mask &&& PORT_BIT n).getLsbD i = (mask.getLsbD i && decide (i = n)) := by
    intro i
    rw [BitVec.getLsbD_and, getLsbD_PORT_BIT]
    by_cases hi : i < 32
    · simp [hi]
    · simp [BitVec.getLsbD_of_ge mask i (by omega)]
  unfold testPort
  cases hb : mask.getLsbD n with
  | true =>
    have hne : mask &&& PORT_BIT n ≠ 0 := by
      intro h0
      have hn := hbit n
      rw [h0, hb] at hn
      simp at hn
    simpa using hne
  | false =>
    have h0 : mask &&& PORT_BIT n = 0 := by
      apply BitVec.eq_of_getLsbD_eq
      intro i _
      rw [hbit i]
      by_cases hin : i = n
      · subst hin; simp [hb]
      · simp [hin]
    simp [h0]

@[simp] theorem testPort_zero (n : Nat) : testPort 0#32 n = false := by
  simp [testPort_eq_getLsbD]

theorem testPort_or (m m' : PortMask) (n : Nat) :
    testPort (m ||| m') n = (testPort m n || testPort m' n) := by
  simp [testPort_eq_getLsbD]

theorem testPort_clear (m m' : PortMask) (n : Nat) :
    testPort (m &&& ~~~m') n = (testPort m n && !testPort m' n) := by
  rw [testPort_eq_getLsbD, testPort_eq_getLsbD, testPort_eq_getLsbD, BitVec.getLsbD_and,
    BitVec.getLsbD_not]
  by_cases hn : n < 32
  · simp [hn]
  · simp [BitVec.getLsbD_of_ge m n (by omega)]

theorem testPort_PORT_BIT (q n : Nat) : testPort (PORT_BIT q) n = decide (n < 32 ∧ n = q) := by
  rw [testPort_eq_getLsbD, getLsbD_PORT_BIT, Bool.decide_and]

theorem lt_of_testPort {m : PortMask} {q : Nat} (h : testPort m q = true) : q < 32 := by
  by_contra hge
  rw [testPort_eq_getLsbD, BitVec.getLsbD_of_ge _ _ (by omega)] at h
  cases h

/-- The mask with the bit of a port added. -/
theorem testPort_or_PORT_BIT {m : PortMask} {p q : Nat} (hq : q < 32) :
    testPort (m ||| PORT_BIT q) p = (testPort m p || decide (p = q)) := by
  rw [testPort_or, testPort_PORT_BIT]
  by_cases hpq : p = q
  · subst hpq
    simp [hq]
  · simp [hpq]

/-! ## Signals -/

instance neZero_lparams : NeZero 7 := ⟨by decide⟩

/-- The payload of a signal call. -/
structure ClSignal where
  kid : UInt16 := 0
  cmd : UInt16 := 0
  sparam : UInt32 := 0
  lparam : Fin 7 → UInt64 := fun _ => 0
deriving DecidableEq

end OpenClickNP
