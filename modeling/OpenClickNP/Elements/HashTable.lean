import OpenClickNP.Backend.Transduction

/-!
# `HashTable.clnp`

A table of rules. A signal puts a rule at the index that the host has chosen; a flit is looked up
at the index that its key hashes to (`hit_eq_true_iff`). After any run the valid entries of the
table are the rules that the signals have installed and neither overwritten nor deleted since
(`installed_exec`).
-/

namespace OpenClickNP

open Run

/-! ## The element -/

/-- `TABLE_SIZE`. -/
abbrev TABLE_SIZE : Nat := 1 <<< 14

/-- `INDEX_MASK`. -/
def INDEX_MASK : UInt32 := ((1 : UInt32) <<< (14 : UInt32)) - 1

structure Entry where
  key0 : UInt64
  key1 : UInt64
  action : UInt64
  valid : UInt8
deriving DecidableEq

/-- The `.state` block. -/
structure HashTableState where
  table : Fin TABLE_SIZE → Entry

/-- The `.init` block: whatever the memory holds, no entry is valid. -/
def hashTableInit (memory : Fin TABLE_SIZE → Entry) : HashTableState where
  table := fun i => { memory i with valid := 0 }

theorem masked_lt (w : UInt32) : (w &&& INDEX_MASK).toNat < TABLE_SIZE := by
  rw [UInt32.toNat_and]
  exact Nat.lt_of_le_of_lt Nat.and_le_right (by decide)

/-- `w & INDEX_MASK`. -/
def tableIndex (w : UInt32) : Fin TABLE_SIZE := ⟨(w &&& INDEX_MASK).toNat, masked_lt w⟩

/-- Where a key is looked up. -/
def hashIndex (k0 k1 : UInt64) : Fin TABLE_SIZE :=
  let h : UInt64 := k0 ^^^ (k1 + 0x9E3779B97F4A7C15 + (k0 <<< (6 : UInt64)) + (k0 >>> (2 : UInt64)))
  tableIndex h.toUInt32

/-- The entry at the index of the key is valid, and has the key. -/
def HashTableState.hit (st : HashTableState) (k0 k1 : UInt64) : Bool :=
  let entry := st.table (hashIndex k0 k1)
  entry.valid != 0 && entry.key0 == k0 && entry.key1 == k1

/-- The flit for a key. -/
def resultFlit (st : HashTableState) (k0 k1 : UInt64) : Flit :=
  let out :=
    if st.hit k0 k1 then (({} : Flit).set 0 (st.table (hashIndex k0 k1)).action).set 1 1
    else (({} : Flit).set 0 0).set 1 0
  (((out.set 2 k0).set 3 k1).setSop true).setEop true

/-- The `.handler` block. -/
def hashTableHandler (v : View HashTableState Flit) : BodyResult HashTableState Flit :=
  let f := v.inputData 1
  { state := v.state
    ops :=
      if testPort v.inputPort 1 then
        [.clearInputReady (PORT_BIT 1), .setOutputPort 1 (resultFlit v.state (f.get 0) (f.get 1))]
      else []
    ret := some (PORT_BIT 1) }

/-- What a signal does to the table: command 1 inserts a rule, command 2 deletes one. -/
def HashTableState.update (st : HashTableState) (event : ClSignal) : HashTableState :=
  let idx := tableIndex event.sparam
  if event.cmd = 1 then
    { table := Function.update st.table idx
        { key0 := event.lparam 0, key1 := event.lparam 1, action := event.lparam 2, valid := 1 } }
  else if event.cmd = 2 then
    { table := Function.update st.table idx { st.table idx with valid := 0 } }
  else st

/-- The `.signal` block. -/
def hashTableSignal (v : View HashTableState Flit) : BodyResult HashTableState Flit :=
  let entry := v.state.table (tableIndex v.event.sparam)
  { state := v.state.update v.event
    ops := []
    ret := none
    outevent :=
      if v.event.cmd = 1 ∨ v.event.cmd = 2 then
        { v.event with lparam := Function.update v.event.lparam 0 1 }
      else
        { v.event with
          lparam := Function.update (Function.update (Function.update (Function.update
            v.event.lparam 0 entry.key0) 1 entry.key1) 2 entry.action) 3 entry.valid.toUInt64 } }

def hashTable : KernelFn HashTableState Flit where
  inPorts := [1]
  outPorts := [1]
  nodup_outPorts := nodup_one
  hasSignal := true
  handler := hashTableHandler
  signal := hashTableSignal

/-! ## Lookups -/

/-- The flit for the key of a flit. -/
def HashTableState.answer (st : HashTableState) (f : Flit) : Flit :=
  resultFlit st (f.get 0) (f.get 1)

def hashTableMachine : Transducer HashTableState (Option Flit) Flit where
  next st _ := st
  out st x := (x.map st.answer).toList

/-- A signal that only reads the table. -/
def KeepsTable (event : ClSignal) : Prop := event.cmd ≠ 1 ∧ event.cmd ≠ 2

theorem transduces_hashTable : Transduces hashTable id KeepsTable hashTableMachine where
  inPorts := rfl
  outPorts := rfl
  returns _ := rfl
  state _ := rfl
  taken _ := takenIn_offered rfl
  sets _ := setsOf_offered _ rfl
  signalState v h := by
    show v.state.update v.event = v.state
    simp [HashTableState.update, h.1, h.2]
  signalOps _ := rfl
  signalRet _ := rfl

theorem lazy_hashTable : Lazy hashTableMachine := fun _ => ⟨rfl, rfl⟩

/-- A run of lookups answers each flit from the table. -/
theorem output_hashTable (st : HashTableState) (fs : List Flit) :
    hashTableMachine.output st (fs.map some) = fs.map st.answer := by
  induction fs with
  | nil => rfl
  | cons f fs ih =>
    rw [List.map_cons, List.map_cons, Transducer.output_cons]
    exact congrArg (st.answer f :: ·) ih

/-- Lane 1 of the answer is the hit flag. -/
theorem get_one_resultFlit (st : HashTableState) (k0 k1 : UInt64) :
    (resultFlit st k0 k1).get 1 = if st.hit k0 k1 then 1 else 0 := by
  unfold resultFlit Flit.setSop Flit.setEop
  simp only []
  rw [Flit.get_setFlag, Flit.get_setFlag, Flit.get_set_of_ne _ (by decide),
    Flit.get_set_of_ne _ (by decide)]
  split <;> exact Flit.get_set_self _ (by decide) (by decide) _

/-! ## Rules -/

structure Rule where
  key0 : UInt64
  key1 : UInt64
  action : UInt64
deriving DecidableEq

/-- What an operation does to the rules that are installed. -/
def ruleUpdate (rules : Fin TABLE_SIZE → Option Rule) (event : ClSignal) :
    Fin TABLE_SIZE → Option Rule :=
  let idx := tableIndex event.sparam
  if event.cmd = 1 then
    Function.update rules idx
      (some { key0 := event.lparam 0, key1 := event.lparam 1, action := event.lparam 2 })
  else if event.cmd = 2 then Function.update rules idx none
  else rules

/-- The rules that a history has installed, each at its masked index, and neither overwritten nor
deleted. -/
def installed (history : List ClSignal) : Fin TABLE_SIZE → Option Rule :=
  history.foldl ruleUpdate fun _ => none

/-- The rule in an entry. -/
def Entry.rule (entry : Entry) : Option Rule :=
  if entry.valid != 0 then
    some { key0 := entry.key0, key1 := entry.key1, action := entry.action }
  else none

/-- The rules in the table. -/
def HashTableState.rules (st : HashTableState) : Fin TABLE_SIZE → Option Rule :=
  fun i => (st.table i).rule

theorem rules_update (st : HashTableState) (event : ClSignal) :
    (st.update event).rules = ruleUpdate st.rules event := by
  funext i
  unfold HashTableState.rules HashTableState.update ruleUpdate
  simp only []
  by_cases h1 : event.cmd = 1
  · rw [if_pos h1, if_pos h1]
    by_cases hi : i = tableIndex event.sparam
    · subst hi
      simp [Entry.rule]
    · simp [Function.update_of_ne hi]
  · rw [if_neg h1, if_neg h1]
    by_cases h2 : event.cmd = 2
    · rw [if_pos h2, if_pos h2]
      by_cases hi : i = tableIndex event.sparam
      · subst hi
        simp [Entry.rule]
      · simp [Function.update_of_ne hi]
    · rw [if_neg h2, if_neg h2]

theorem rules_foldl (st : HashTableState) (history : List ClSignal) :
    (history.foldl HashTableState.update st).rules = history.foldl ruleUpdate st.rules := by
  induction history generalizing st with
  | nil => rfl
  | cons event history ih => rw [List.foldl_cons, List.foldl_cons, ih, rules_update]

theorem rules_init (memory : Fin TABLE_SIZE → Entry) :
    (hashTableInit memory).rules = fun _ => none := rfl

theorem replays_hashTable : Replays hashTable HashTableState.update where
  handler _ := rfl
  signal _ := rfl

/-- **The table holds the rules of the history.** -/
theorem installed_exec (memory : Fin TABLE_SIZE → Entry) (inCap outCap : Nat → Int)
    (as : List (KernelAction Flit))
    (hserved : pending (exec (kstep hashTable) (kinit (hashTableInit memory) inCap outCap) as)
      = []) :
    (exec (kstep hashTable) (kinit (hashTableInit memory) inCap outCap) as).locals.state.rules
      = installed (posted as) := by
  obtain ⟨served, hall, hstate⟩ :=
    replays_hashTable.exec (kinit (hashTableInit memory) inCap outCap) as
  rw [hserved, List.append_nil] at hall
  rw [hstate, hall]
  exact (rules_foldl _ _).trans (congrArg (List.foldl ruleUpdate · _) (rules_init memory))

/-- A key is found at its own index, or not at all. -/
theorem hit_eq_true_iff (st : HashTableState) (k0 k1 : UInt64) : st.hit k0 k1 = true ↔
    ∃ rule, st.rules (hashIndex k0 k1) = some rule ∧ rule.key0 = k0 ∧ rule.key1 = k1 := by
  unfold HashTableState.hit HashTableState.rules Entry.rule
  simp only [Bool.and_eq_true, beq_iff_eq]
  constructor
  · rintro ⟨⟨hvalid, h0⟩, h1⟩
    exact ⟨_, if_pos hvalid, h0, h1⟩
  · rintro ⟨rule, hrule, h0, h1⟩
    split at hrule
    · rename_i hvalid
      cases hrule
      exact ⟨⟨hvalid, h0⟩, h1⟩
    · cases hrule

end OpenClickNP
