import OpenClickNP.Elements.FlitActs
import OpenClickNP.Lib.LastWrite
import OpenClickNP.Lib.Slots

/-!
# Tables that the host fills

`CuckooHash.clnp`, `HashTCAM.clnp`, `WildcardSeqLookup.clnp` and `Firewall_5tuple.clnp` answer flits
from tables that only signals change. Each of them is the element that remembers all signals and
looks a flit up in what they have written (`ActsOnFlits.remembers`): for the first three, what was
written last to each slot; for the firewall, the first sixteen keys.

Other elements have tables that nothing ever changes (`fixed_tables`).
-/

namespace OpenClickNP

open Run

/-! ## Elements with a table -/

/-- The element puts out one flit for each, and changes nothing else; a signal has `update`. -/
def hosted {σ : Type} (change : σ → Flit → Flit) (update : σ → ClSignal → σ) : KernelFn σ Flit :=
  forwarding (fun st _ => st) change fun v =>
    { state := update v.state v.event, ops := [], ret := none, outevent := v.event }

/-- The flits that such an element puts out for a table. -/
def answering {ε : Type} (answer : ε → Flit → Flit) (table : List ClSignal → ε) :
    Transducer (List ClSignal) (Call Flit) (Deed Flit) :=
  remembering (fun ss f => [(1, answer (table ss) f)]) fun _ req => req

theorem acts_hosted {σ : Type} {change : σ → Flit → Flit} {update : σ → ClSignal → σ} :
    ActsOnFlits (hosted change update) (fun st _ => st) fun st f => [(1, change st f)] :=
  acts_forwarding fun _ => rfl

theorem remembers_hosted {σ ε : Type} {change : σ → Flit → Flit} {update : σ → ClSignal → σ}
    {answer : ε → Flit → Flit} {table : List ClSignal → ε} {st : σ}
    (h : ∀ ss f, change (ss.foldl update st) f = answer (table ss) f) (inCap outCap : Nat → Int)
    (as : List (KernelAction Flit)) :
    ∃ w, RunsAs (hosted change update) st (answering answer table) [] inCap outCap as w :=
  acts_hosted.remembers update (fun _ req => req) (fun _ => rfl) (fun _ => rfl)
    (fun ss f => congrArg (fun g => [(1, g)]) (h ss f)) (fun _ _ => rfl) inCap outCap as

/-! ## `CuckooHash.clnp` -/

namespace Cuckoo

/-- The `.state` block. -/
structure State where
  key1 : Fin 4096 → UInt64
  key2 : Fin 4096 → UInt64
  val : Fin 4096 → UInt64
  valid : Fin 4096 → Bool

/-- The `.init` block: whatever the memory holds, no entry is valid. -/
def init (memory : State) : State := { memory with valid := fun _ => false }

/-- `h1`. -/
def h1 (k0 : UInt64) : Fin 4096 := Fin.ofNat 4096 k0.toUInt32.toNat

/-- `h2`. -/
def h2 (k1 : UInt64) : Fin 4096 := Fin.ofNat 4096 (k1 ^^^ 0x9E3779B97F4A7C15).toUInt32.toNat

/-- `valid[h] && key1[h] == k0 && key2[h] == k1`. -/
def State.has (st : State) (h : Fin 4096) (k0 k1 : UInt64) : Bool :=
  st.valid h && st.key1 h == k0 && st.key2 h == k1

/-- What the `.handler` block makes of a flit. -/
def State.change (st : State) (f : Flit) : Flit :=
  let k0 := f.get 0
  let k1 := f.get 1
  if st.has (h1 k0) k0 k1 then (f.set 2 (st.val (h1 k0))).set 3 1
  else if st.has (h2 k1) k0 k1 then (f.set 2 (st.val (h2 k1))).set 3 1
  else f.set 3 0

/-- The `.signal` block: command 1 puts an entry at an index, command 2 takes it out. -/
def State.update (st : State) (event : ClSignal) : State :=
  let idx := Fin.ofNat 4096 event.sparam.toNat
  if event.cmd = 1 then
    { key1 := Function.update st.key1 idx (event.lparam 0)
      key2 := Function.update st.key2 idx (event.lparam 1)
      val := Function.update st.val idx (event.lparam 2)
      valid := Function.update st.valid idx true }
  else if event.cmd = 2 then { st with valid := Function.update st.valid idx false }
  else st

end Cuckoo

/-- `CuckooHash`. -/
def cuckooHash : KernelFn Cuckoo.State Flit := hosted Cuckoo.State.change Cuckoo.State.update

namespace Cuckoo

/-- What an index holds, if it is valid. -/
structure Entry where
  key1 : UInt64
  key2 : UInt64
  val : UInt64

/-- What a signal writes. -/
def writes (event : ClSignal) : Option (Fin 4096 × Option Entry) :=
  let idx := Fin.ofNat 4096 event.sparam.toNat
  if event.cmd = 1 then some (idx, some ⟨event.lparam 0, event.lparam 1, event.lparam 2⟩)
  else if event.cmd = 2 then some (idx, none)
  else none

/-- The first of the two entries for the keys that has them. -/
def find (entries : Fin 4096 → Option Entry) (k0 k1 : UInt64) : Option UInt64 :=
  [h1 k0, h2 k1].findSome? fun i => (entries i).bind fun e =>
    if e.key1 = k0 ∧ e.key2 = k1 then some e.val else none

/-- What is answered from the entries. -/
def answer (entries : Fin 4096 → Option Entry) (f : Flit) : Flit :=
  match find entries (f.get 0) (f.get 1) with
  | some v => (f.set 2 v).set 3 1
  | none => f.set 3 0

/-- The valid entries. -/
def State.entries (st : State) (i : Fin 4096) : Option Entry :=
  if st.valid i then some ⟨st.key1 i, st.key2 i, st.val i⟩ else none

theorem entries_update (st : State) (event : ClSignal) :
    (st.update event).entries = LastWrite.write writes st.entries event := by
  funext i
  rw [LastWrite.write_apply]
  unfold State.update LastWrite.puts writes State.entries
  generalize Fin.ofNat 4096 event.sparam.toNat = idx
  simp only []
  by_cases hput : event.cmd = 1
  · rw [if_pos hput, if_pos hput]
    by_cases hi : i = idx
    · subst hi
      simp
    · simp [Function.update_of_ne hi, Ne.symm hi]
  · rw [if_neg hput, if_neg hput]
    by_cases htake : event.cmd = 2
    · rw [if_pos htake, if_pos htake]
      by_cases hi : i = idx
      · subst hi
        simp
      · simp [Function.update_of_ne hi, Ne.symm hi]
    · rw [if_neg htake, if_neg htake]
      rfl

/-- An index is hit if its entry has the keys. -/
theorem bind_entries (st : State) (i : Fin 4096) (k0 k1 : UInt64) :
    ((st.entries i).bind fun e => if e.key1 = k0 ∧ e.key2 = k1 then some e.val else none)
      = if st.has i k0 k1 then some (st.val i) else none := by
  unfold State.entries State.has
  cases st.valid i with
  | false => simp
  | true => simp [Bool.and_eq_true]

theorem change_eq_answer (st : State) (f : Flit) : st.change f = answer st.entries f := by
  unfold State.change answer find
  rw [List.findSome?_cons, List.findSome?_cons, List.findSome?_nil, bind_entries, bind_entries]
  simp only []
  cases st.has (h1 (f.get 0)) (f.get 0) (f.get 1) with
  | true => simp
  | false => cases st.has (h2 (f.get 1)) (f.get 0) (f.get 1) <;> simp

end Cuckoo

/-- `E` is not 0. -/
local instance neZeroRanges : NeZero 32 := ⟨by decide⟩

namespace Wildcard

/-- The `.state` block. -/
structure State where
  lo : Fin 32 → UInt64
  hi : Fin 32 → UInt64
  v : Fin 32 → UInt64
  valid : Fin 32 → Bool

/-- The `.init` block: whatever the memory holds, no range is valid. -/
def init (memory : State) : State := { memory with valid := fun _ => false }

/-- `valid[i] && k >= lo[i] && k <= hi[i]`. -/
def State.covers (st : State) (k : UInt64) (i : Fin 32) : Bool :=
  st.valid i && decide (st.lo i ≤ k) && decide (k ≤ st.hi i)

/-- What the `.handler` block makes of a flit: the loop breaks off at the first range. -/
def State.change (st : State) (f : Flit) : Flit :=
  match (List.finRange 32).find? (st.covers (f.get 0)) with
  | some i => f.set 2 (st.v i)
  | none => f

/-- The `.signal` block: command 1 puts a range at an index. -/
def State.update (st : State) (event : ClSignal) : State :=
  let i := Fin.ofNat 32 event.sparam.toNat
  if event.cmd = 1 then
    { lo := Function.update st.lo i (event.lparam 0)
      hi := Function.update st.hi i (event.lparam 1)
      v := Function.update st.v i (event.lparam 2)
      valid := Function.update st.valid i true }
  else st

end Wildcard

/-- `WildcardSeqLookup`. -/
def wildcardSeqLookup : KernelFn Wildcard.State Flit :=
  hosted Wildcard.State.change Wildcard.State.update

namespace Wildcard

/-- What an index holds, if it is valid. -/
structure Range where
  lo : UInt64
  hi : UInt64
  v : UInt64

/-- What a signal writes. -/
def writes (event : ClSignal) : Option (Fin 32 × Option Range) :=
  if event.cmd = 1 then
    some (Fin.ofNat 32 event.sparam.toNat, some ⟨event.lparam 0, event.lparam 1, event.lparam 2⟩)
  else none

/-- The value of the range with the lowest index that the key is in. -/
def find (ranges : Fin 32 → Option Range) (k : UInt64) : Option UInt64 :=
  (List.finRange 32).findSome? fun i => (ranges i).bind fun r =>
    if r.lo ≤ k ∧ k ≤ r.hi then some r.v else none

/-- What is answered from the ranges. -/
def answer (ranges : Fin 32 → Option Range) (f : Flit) : Flit :=
  (find ranges (f.get 0)).elim f (f.set 2)

/-- The valid ranges. -/
def State.ranges (st : State) (i : Fin 32) : Option Range :=
  if st.valid i then some ⟨st.lo i, st.hi i, st.v i⟩ else none

theorem ranges_update (st : State) (event : ClSignal) :
    (st.update event).ranges = LastWrite.write writes st.ranges event := by
  funext i
  rw [LastWrite.write_apply]
  unfold State.update LastWrite.puts writes State.ranges
  generalize Fin.ofNat 32 event.sparam.toNat = idx
  simp only []
  by_cases hput : event.cmd = 1
  · rw [if_pos hput, if_pos hput]
    by_cases hi : i = idx
    · subst hi
      simp
    · simp [Function.update_of_ne hi, Ne.symm hi]
  · rw [if_neg hput, if_neg hput]
    rfl

theorem change_eq_answer (st : State) (f : Flit) : st.change f = answer st.ranges f := by
  have hfind : find st.ranges (f.get 0)
      = ((List.finRange 32).find? (st.covers (f.get 0))).map st.v := by
    rw [List.find?_eq_findSome?_guard, List.map_findSome?]
    unfold find
    congr 1
    funext i
    unfold State.ranges Option.guard
    cases hvalid : st.valid i with
    | false => simp [State.covers, hvalid]
    | true =>
      simp only [State.covers, hvalid, Function.comp_apply, if_true, Option.bind_some,
        Bool.and_eq_true, decide_eq_true_eq, true_and]
      split <;> rfl
  unfold State.change answer
  rw [hfind]
  cases (List.finRange 32).find? (st.covers (f.get 0)) <;> simp

end Wildcard

namespace Allow

/-- The `.state` block; the rules fit into the array. -/
structure State where
  allowKeys : Fin 16 → UInt64
  nrules : UInt8
  nrules_le : nrules.toNat ≤ 16

/-- The `.init` block. -/
def init (memory : Fin 16 → UInt64) : State where
  allowKeys := memory
  nrules := 0
  nrules_le := by decide

/-- `allow` behind the loop over the rules. -/
def State.allows (st : State) (k : UInt64) : Bool :=
  (Slots.positions 16 st.nrules.toNat).any fun i => st.allowKeys i == k

theorem nrules_succ {n : UInt8} (h : n.toNat < 16) : (n + 1).toNat = n.toNat + 1 := by
  rw [UInt8.toNat_add]
  exact Nat.mod_eq_of_lt (by simp; omega)

/-- The `.signal` block: command 1 appends a key, as long as there is room. -/
def State.update (st : State) (event : ClSignal) : State :=
  if h : event.cmd = 1 ∧ st.nrules.toNat < 16 then
    { allowKeys := Function.update st.allowKeys ⟨st.nrules.toNat, h.2⟩ (event.lparam 0)
      nrules := st.nrules + 1
      nrules_le := by
        rw [nrules_succ h.2]
        exact h.2 }
  else st

end Allow

/-- `Firewall_5tuple`. -/
def firewall5tuple : KernelFn Allow.State Flit where
  inPorts := [1]
  outPorts := [1]
  nodup_outPorts := nodup_one
  hasSignal := true
  handler := onEachFlit (fun st _ => st) fun st f => if st.allows (f.get 0) then [(1, f)] else []
  signal := fun v =>
    { state := v.state.update v.event, ops := [], ret := none, outevent := v.event }

namespace Allow

theorem acts_firewall5tuple : ActsOnFlits firewall5tuple (fun st _ => st)
    fun st f => if st.allows (f.get 0) then [(1, f)] else [] where
  inPorts := rfl
  handler := rfl
  ports q hq := by
    rw [List.mem_singleton.mp hq]
    decide
  once st f q _ := by
    apply filter_length_le_one
    cases st.allows (f.get 0)
    · exact List.nodup_nil
    · exact List.nodup_singleton _
  signal _ := rfl

/-- The keys of the first sixteen signals with command 1. -/
def keys (ss : List ClSignal) : List UInt64 :=
  ((ss.filter fun req => req.cmd == 1).take 16).map fun req => req.lparam 0

/-- The keys in the array. -/
def State.held (st : State) : List UInt64 := Slots.contents st.allowKeys st.nrules.toNat

theorem length_held (st : State) : st.held.length = st.nrules.toNat :=
  Slots.length_contents st.nrules_le

theorem allows_iff (st : State) (k : UInt64) : st.allows k = true ↔ k ∈ st.held := by
  simp only [State.allows, State.held, Slots.contents, List.any_eq_true, List.mem_map, beq_iff_eq]

theorem held_update (st : State) (req : ClSignal) : (st.update req).held
    = if req.cmd = 1 ∧ st.held.length < 16 then st.held ++ [req.lparam 0] else st.held := by
  unfold State.update
  rw [length_held]
  split
  · rename_i h
    show Slots.contents (Function.update st.allowKeys ⟨st.nrules.toNat, h.2⟩ _)
      (st.nrules + 1).toNat = _
    rw [nrules_succ h.2, Slots.contents_push]
    rfl
  · rfl

/-- Induction on the signals, from the back: the array holds the keys as long as there is room. -/
theorem held_foldl (memory : Fin 16 → UInt64) (ss : List ClSignal) :
    (ss.foldl State.update (init memory)).held = keys ss := by
  induction ss using List.reverseRecOn with
  | nil => rfl
  | append_singleton ss req ih =>
    rw [List.foldl_append, List.foldl_cons, List.foldl_nil, held_update, ih]
    have hlen : (keys ss).length = min 16 (ss.filter fun req => req.cmd == 1).length := by
      rw [keys, List.length_map, List.length_take]
    unfold keys at hlen ⊢
    rw [List.filter_append, List.take_append]
    by_cases hcmd : req.cmd = 1
    · have hone : ([req].filter fun req => req.cmd == 1) = [req] := by simp [hcmd]
      rw [hone]
      by_cases hroom : (ss.filter fun req => req.cmd == 1).length < 16
      · rw [if_pos ⟨hcmd, by omega⟩, List.take_of_length_le (show [req].length ≤ _ by simp; omega),
          List.map_append]
        rfl
      · rw [if_neg (by omega), show 16 - (ss.filter fun req => req.cmd == 1).length = 0 by omega]
        simp
    · have hnone : ([req].filter fun req => req.cmd == 1) = [] := by simp [hcmd]
      rw [if_neg fun h => hcmd h.1, hnone]
      simp

end Allow

/-- `SIZE` of `HashTableCache` is not 0. -/
local instance neZeroLines : NeZero 256 := ⟨by decide⟩

/-- The `.state` block of `HashTableCache`. -/
structure CacheState where
  key : Fin 256 → UInt64
  val : Fin 256 → UInt64
  valid : Fin 256 → Bool

/-- The `.init` block of `HashTableCache`. -/
def cacheInit (memory : CacheState) : CacheState := { memory with valid := fun _ => false }

/-- What `HashTableCache` makes of a flit. -/
def CacheState.change (st : CacheState) (f : Flit) : Flit :=
  let k := f.get 0
  let h := Fin.ofNat 256 ((k.toUInt32 * 2654435761) &&& 255).toNat
  if st.valid h && st.key h == k then f.set 2 (st.val h) else f

/-- `HashTableCache`. -/
def hashTableCache : KernelFn CacheState Flit := hosted CacheState.change fun st _ => st

/-- The address of `GmemTableRead` and `RandomAccessGmemTest`: `lane 0 & (SIZE - 1)`, where `SIZE`
is a power of two. -/
def maskedAddr (size : Nat) [NeZero size] (f : Flit) : Fin size :=
  Fin.ofNat size ((f.get 0).toUInt32 &&& UInt32.ofNat (size - 1)).toNat

/-- What an element with a memory makes of a flit. -/
def readMem {size : Nat} [NeZero size] (mem : Fin size → UInt64) (f : Flit) : Flit :=
  f.set 2 (mem (maskedAddr size f))

/-- `GmemTableRead`. -/
def gmemTableRead : KernelFn (Fin 4096 → UInt64) Flit := hosted readMem fun mem _ => mem

/-- The `.init` block of `GmemTableRead`. -/
def gmemTableReadInit : Fin 4096 → UInt64 := fun _ => 0

/-- `RandomAccessGmemTest`. -/
def randomAccessGmemTest : KernelFn (Fin 1024 → UInt64) Flit := hosted readMem fun mem _ => mem

/-- The `.init` block of `RandomAccessGmemTest`. -/
def randomAccessGmemTestInit : Fin 1024 → UInt64 := fun i => UInt64.ofNat i.val

/-- `SIZE` of `LB_NexthopTable` is not 0. -/
local instance neZeroBackends : NeZero 64 := ⟨by decide⟩

/-- The `.state` block of `LB_NexthopTable`. -/
structure NexthopState where
  backends : Fin 64 → UInt32
  nbackends : UInt32

/-- The `.init` block of `LB_NexthopTable`. -/
def nexthopInit : NexthopState where
  backends := fun i => UInt32.ofNat i.val % 4
  nbackends := 4

/-- What `LB_NexthopTable` makes of a flit. -/
def NexthopState.change (st : NexthopState) (f : Flit) : Flit :=
  f.set 2 (st.backends (Fin.ofNat 64 (f.get 0).toUInt32.toNat)).toUInt64

/-- The `.signal` block of `LB_NexthopTable`: command 1 changes the number of backends, and not the
table. -/
def NexthopState.update (st : NexthopState) (event : ClSignal) : NexthopState :=
  if event.cmd = 1 then { st with nbackends := event.sparam } else st

/-- `LB_NexthopTable`. -/
def lbNexthopTable : KernelFn NexthopState Flit := hosted NexthopState.change NexthopState.update

theorem toNat_maskedAddr_init (f : Flit) :
    randomAccessGmemTestInit (maskedAddr 1024 f) = f.get 0 &&& 1023 := by
  apply UInt64.toNat_inj.mp
  have hmask : ∀ n : Nat, n &&& 1023 = n % 1024 := fun n => Nat.and_two_pow_sub_one_eq_mod n 10
  have haddr : (maskedAddr 1024 f).val = (f.get 0).toNat % 1024 := by
    show ((f.get 0).toUInt32 &&& 1023).toNat % 1024 = _
    rw [UInt32.toNat_and, UInt64.toNat_toUInt32]
    show ((f.get 0).toNat % 2 ^ 32 &&& 1023) % 1024 = _
    rw [hmask]
    omega
  rw [randomAccessGmemTestInit, haddr, UInt64.toNat_and]
  show (UInt64.ofNat _).toNat = (f.get 0).toNat &&& 1023
  rw [hmask, UInt64.toNat_ofNat', Nat.mod_eq_of_lt (by omega)]

theorem backends_nexthopInit (k : UInt64) :
    (nexthopInit.backends (Fin.ofNat 64 k.toUInt32.toNat)).toUInt64 = k &&& 3 := by
  apply UInt64.toNat_inj.mp
  have hmask : ∀ n : Nat, n &&& 3 = n % 4 := fun n => Nat.and_two_pow_sub_one_eq_mod n 2
  have hidx : (Fin.ofNat 64 k.toUInt32.toNat).val = k.toNat % 64 := by
    show k.toUInt32.toNat % 64 = _
    rw [UInt64.toNat_toUInt32]
    omega
  show (UInt32.ofNat (Fin.ofNat 64 k.toUInt32.toNat).val % 4).toUInt64.toNat = _
  rw [hidx, UInt32.toNat_toUInt64, UInt32.toNat_mod, UInt32.toNat_ofNat', UInt64.toNat_and]
  show k.toNat % 64 % 2 ^ 32 % 4 = k.toNat &&& 3
  rw [hmask]
  omega

/-- An element that no signal changes the answers of. -/
theorem sent_hosted {σ : Type} {change : σ → Flit → Flit} {update : σ → ClSignal → σ} {st : σ}
    {g : Flit → Flit} {I : σ → Prop} (hinit : I st) (hupdate : ∀ st req, I st → I (update st req))
    (hchange : ∀ st, I st → change st = g) (inCap outCap : Nat → Int)
    (as : List (KernelAction Flit)) :
    let t := exec (kstep (hosted change update)) (kinit st inCap outCap) as
    t.sent 1 = (t.taken 1).map g := by
  obtain ⟨served, -, -, hsent⟩ := acts_hosted.inv update (fun _ req => req) (fun _ => rfl)
    (fun _ => rfl) (Q := fun st _ taken sent _ => I st ∧ sent 1 = taken.map g) ⟨hinit, rfl⟩
    (fun st _ taken sent _ f ⟨hst, hsent⟩ => ⟨hst, by
      show sent 1 ++ [change st f] = (taken ++ [f]).map g
      rw [hchange st hst, hsent, List.map_append]
      rfl⟩)
    (fun st _ _ _ _ req ⟨hst, hsent⟩ => ⟨hupdate st req hst, hsent⟩) inCap outCap as
  exact hsent

/-- **Tables that are never filled.** In every run, whatever the signals: `HashTableCache` sends the
flits as they are, `GmemTableRead` with 0 in lane 2, `RandomAccessGmemTest` with the address in lane
2; and `LB_NexthopTable` chooses between four backends, however many it has been given. -/
theorem fixed_tables (memory : CacheState) (inCap outCap : Nat → Int)
    (as : List (KernelAction Flit)) :
    (let t := exec (kstep hashTableCache) (kinit (cacheInit memory) inCap outCap) as
     t.sent 1 = t.taken 1) ∧
    (let t := exec (kstep gmemTableRead) (kinit gmemTableReadInit inCap outCap) as
     t.sent 1 = (t.taken 1).map (·.set 2 0)) ∧
    (let t := exec (kstep randomAccessGmemTest) (kinit randomAccessGmemTestInit inCap outCap) as
     t.sent 1 = (t.taken 1).map fun f => f.set 2 (f.get 0 &&& 1023)) ∧
    (let t := exec (kstep lbNexthopTable) (kinit nexthopInit inCap outCap) as
     t.sent 1 = (t.taken 1).map fun f => f.set 2 (f.get 0 &&& 3)) := by
  refine ⟨?_, ?_, ?_, ?_⟩
  · refine (sent_hosted (I := fun st => st.valid = fun _ => false) rfl (fun _ _ h => h) ?_ inCap
      outCap as).trans (List.map_id _)
    intro st hst
    funext f
    simp [CacheState.change, hst]
  · apply sent_hosted (I := fun mem => mem = gmemTableReadInit) rfl fun _ _ h => h
    rintro mem rfl
    rfl
  · apply sent_hosted (I := fun mem => mem = randomAccessGmemTestInit) rfl fun _ _ h => h
    rintro mem rfl
    funext f
    exact congrArg (f.set 2) (toNat_maskedAddr_init f)
  · apply sent_hosted (I := fun st => st.backends = nexthopInit.backends) rfl
    · intro st req hst
      unfold NexthopState.update
      split <;> exact hst
    · intro st hst
      funext f
      unfold NexthopState.change
      rw [hst, backends_nexthopInit]

end OpenClickNP
