import OpenClickNP.Backend.SignalledCalls
import OpenClickNP.Elements.AclTcam

/-!
# `SRAM_TCAM.clnp` beside `RegTCAM.clnp`

Both elements look lane 0 up in a table of rules and answer with the rule of the lowest index that
covers it: one scans all of its 32 rules, the other breaks off at the first of its 256. On a miss
`RegTCAM` answers 0, and `SRAM_TCAM` leaves lane 2 as it came in, so that lookups can be chained.
With the same rules they send the same flit unless there is none for it and lane 2 is not 0
(`tcams_answer`).
-/

namespace OpenClickNP

open Run

/-! ## Rules -/

structure TcamRule where
  key : UInt64
  mask : UInt64
  val : UInt64

def TcamRule.Covers (r : TcamRule) (k : UInt64) : Prop := k &&& r.mask = r.key &&& r.mask

/-- The rule that a signal brings. -/
def ruleOf (event : ClSignal) : TcamRule :=
  { key := event.lparam 0, mask := event.lparam 1, val := event.lparam 2 }

/-- A signal with command 1 puts its rule at its index. -/
def installRule (rules : Nat → Option TcamRule) (event : ClSignal) : Nat → Option TcamRule :=
  if event.cmd = 1 then Function.update rules event.sparam.toNat (some (ruleOf event)) else rules

/-- The rules that signals have installed. -/
def installedRules (events : List ClSignal) : Nat → Option TcamRule :=
  events.foldl installRule fun _ => none

/-- The value of the rule with the lowest index that covers the key, if any covers it. -/
def FirstValue (rules : Nat → Option TcamRule) (k : UInt64) : Option UInt64 → Prop
  | some v => ∃ i r, rules i = some r ∧ r.Covers k ∧ r.val = v ∧
      ∀ j < i, ∀ r', rules j = some r' → ¬ r'.Covers k
  | none => ∀ i r, rules i = some r → ¬ r.Covers k

theorem FirstValue.unique {rules : Nat → Option TcamRule} {k : UInt64} {o o' : Option UInt64}
    (h : FirstValue rules k o) (h' : FirstValue rules k o') : o = o' := by
  cases o with
  | none =>
    cases o' with
    | none => rfl
    | some v =>
      obtain ⟨i, r, hr, hcovers, -⟩ := h'
      exact absurd hcovers (h i r hr)
  | some v =>
    obtain ⟨i, r, hr, hcovers, hval, hfirst⟩ := h
    cases o' with
    | none => exact absurd hcovers (h' i r hr)
    | some v' =>
      obtain ⟨i', r', hr', hcovers', hval', hfirst'⟩ := h'
      rcases Nat.lt_trichotomy i i' with hlt | heq | hgt
      · exact absurd hcovers (hfirst' i hlt r hr)
      · rw [heq, hr'] at hr
        rw [← hval, ← hval', Option.some.inj hr]
      · exact absurd hcovers' (hfirst i' hgt r' hr')

/-! ## Tables -/

/-- `key`, `mask`, `val` and `valid`, with `n` entries: for `n = 256` the `.state` block of
`SRAM_TCAM`. -/
structure TcamTable (n : Nat) where
  key : Fin n → UInt64
  mask : Fin n → UInt64
  val : Fin n → UInt64
  valid : Fin n → Bool

namespace TcamTable

variable {n : Nat}

/-- `_state.valid[i] && (k & _state.mask[i]) == (_state.key[i] & _state.mask[i])`. -/
def hit (t : TcamTable n) (k : UInt64) (i : Fin n) : Bool :=
  t.valid i && (k &&& t.mask i) == (t.key i &&& t.mask i)

/-- The assignments of the `.signal` block. -/
def install (t : TcamTable n) (i : Fin n) (event : ClSignal) : TcamTable n where
  key := Function.update t.key i (event.lparam 0)
  mask := Function.update t.mask i (event.lparam 1)
  val := Function.update t.val i (event.lparam 2)
  valid := Function.update t.valid i true

/-- The `.signal` block. -/
def update (t : TcamTable n) (hn : 0 < n) (event : ClSignal) : TcamTable n :=
  let i : Fin n := ⟨event.sparam.toNat % n, Nat.mod_lt _ hn⟩
  if event.cmd = 1 then t.install i event else t

/-- The `.init` block: whatever the memory holds, no entry is valid. -/
def init (memory : TcamTable n) : TcamTable n := { memory with valid := fun _ => false }

/-- The value at which a loop over the entries breaks off. -/
def lookup (t : TcamTable n) (k : UInt64) : Option UInt64 :=
  ((List.finRange n).find? (t.hit k)).map t.val

/-- The valid entries. -/
def rules (t : TcamTable n) (i : Nat) : Option TcamRule :=
  if h : i < n then
    if t.valid ⟨i, h⟩ then some ⟨t.key ⟨i, h⟩, t.mask ⟨i, h⟩, t.val ⟨i, h⟩⟩ else none
  else none

theorem rules_eq_some {t : TcamTable n} {i : Nat} {r : TcamRule} (h : t.rules i = some r) :
    ∃ hi : i < n, t.valid ⟨i, hi⟩ = true ∧
      r = ⟨t.key ⟨i, hi⟩, t.mask ⟨i, hi⟩, t.val ⟨i, hi⟩⟩ := by
  unfold rules at h
  split at h
  · rename_i hi
    split at h
    · rename_i hvalid
      exact ⟨hi, hvalid, (Option.some.inj h).symm⟩
    · cases h
  · cases h

theorem hit_iff {t : TcamTable n} {k : UInt64} {i : Fin n} :
    t.hit k i = true ↔ ∃ r, t.rules i.val = some r ∧ r.Covers k ∧ r.val = t.val i := by
  rw [hit, Bool.and_eq_true, beq_iff_eq]
  constructor
  · rintro ⟨hvalid, hsame⟩
    exact ⟨_, (dif_pos i.isLt).trans (if_pos hvalid), hsame, rfl⟩
  · rintro ⟨r, hr, hcovers, -⟩
    obtain ⟨_, hvalid, rfl⟩ := rules_eq_some hr
    exact ⟨hvalid, hcovers⟩

/-- **The loop finds the rule of the lowest index.** -/
theorem firstValue_lookup (t : TcamTable n) (k : UInt64) :
    FirstValue t.rules k (t.lookup k) := by
  -- an entry that the loop passes over does not cover the key
  have hmiss : ∀ {i r}, t.rules i = some r → ∀ hi : i < n, t.hit k ⟨i, hi⟩ = false →
      ¬ r.Covers k := by
    intro i r hr hi hno hcovers
    obtain ⟨_, -, rfl⟩ := rules_eq_some hr
    have hhit : t.hit k ⟨i, hi⟩ = true := hit_iff.mpr ⟨_, hr, hcovers, rfl⟩
    rw [hno] at hhit
    cases hhit
  unfold lookup
  rw [← Fin.find?_eq_find?_finRange]
  cases hfind : Fin.find? (t.hit k) with
  | none =>
    intro i r hr
    obtain ⟨hi, -⟩ := rules_eq_some hr
    exact hmiss hr hi (Fin.find?_eq_none_iff.mp hfind ⟨i, hi⟩)
  | some i =>
    obtain ⟨hi, hlow⟩ := Fin.find?_eq_some_iff.mp hfind
    obtain ⟨r, hr, hcovers, hval⟩ := hit_iff.mp hi
    refine ⟨i.val, r, hr, hcovers, hval, fun j hj r' hr' => ?_⟩
    obtain ⟨hjn, -⟩ := rules_eq_some hr'
    exact hmiss hr' hjn (hlow ⟨j, hjn⟩ hj)

theorem rules_init (memory : TcamTable n) : memory.init.rules = fun _ => none := by
  funext i
  unfold rules
  split <;> rfl

theorem rules_install (t : TcamTable n) (i : Fin n) (event : ClSignal) :
    (t.install i event).rules = Function.update t.rules i.val (some (ruleOf event)) := by
  funext j
  by_cases hj : j = i.val
  · subst hj
    rw [Function.update_self]
    unfold rules install
    simp only [dif_pos i.isLt, Fin.eta, Function.update_self]
    rfl
  · rw [Function.update_of_ne hj]
    unfold rules install
    by_cases hlt : j < n
    · have hne : (⟨j, hlt⟩ : Fin n) ≠ i := fun heq => hj (congrArg Fin.val heq)
      simp only [dif_pos hlt, Function.update_of_ne hne]
    · rw [dif_neg hlt, dif_neg hlt]

/-- A signal whose index is in range. -/
theorem rules_update (t : TcamTable n) (hn : 0 < n) {event : ClSignal}
    (hidx : event.cmd = 1 → event.sparam.toNat < n) :
    (t.update hn event).rules = installRule t.rules event := by
  unfold update installRule
  simp only []
  by_cases hcmd : event.cmd = 1
  · rw [if_pos hcmd, if_pos hcmd, rules_install]
    -- below the number of entries the index does not wrap around
    show Function.update t.rules (event.sparam.toNat % n) _ = _
    rw [Nat.mod_eq_of_lt (hidx hcmd)]
  · rw [if_neg hcmd, if_neg hcmd]

end TcamTable

/-! ## The elements -/

theorem entries_pos : 0 < 256 := by decide

/-- The flit behind the loop of `SRAM_TCAM`. -/
def sramTcamResult (st : TcamTable 256) (f : Flit) : Flit :=
  match (List.finRange 256).find? (st.hit (f.get 0)) with
  | some i => f.set 2 (st.val i)
  | none => f

/-- The `.handler` block of `SRAM_TCAM`. -/
def sramTcamHandler (v : View (TcamTable 256) Flit) : BodyResult (TcamTable 256) Flit where
  state := v.state
  ops :=
    if testPort v.inputPort 1 then
      [.clearInputReady (PORT_BIT 1), .setOutputPort 1 (sramTcamResult v.state (v.inputData 1))]
    else []
  ret := some (PORT_BIT 1)

/-- The `.signal` block of `SRAM_TCAM`. -/
def sramTcamSignal (v : View (TcamTable 256) Flit) : BodyResult (TcamTable 256) Flit where
  state := v.state.update entries_pos v.event
  ops := []
  ret := none
  outevent := v.event

/-- `SRAM_TCAM`. -/
def sramTcam : KernelFn (TcamTable 256) Flit where
  inPorts := [1]
  outPorts := [1]
  nodup_outPorts := nodup_one
  hasSignal := true
  handler := sramTcamHandler
  signal := sramTcamSignal

/-- The table of `RegTCAM`. -/
def TcamState.table (st : TcamState) : TcamTable 32 :=
  { key := st.key, mask := st.mask, val := st.val, valid := st.valid }

/-- The `.init` block of `RegTCAM`. -/
def regTcamInit (memory : TcamState) : TcamState := { memory with valid := fun _ => false }

/-- What a signal does to the state of `RegTCAM`. -/
def regTcamUpdate (st : TcamState) (event : ClSignal) : TcamState :=
  (regTcamSignal
    { state := st, inputPort := 0, inputData := fun _ => {}, outputData := fun _ => {},
      outputFailed := 0, outputSuccess := 0, lastRport := 0, event := event }).state

theorem replays_regTcam : Replays regTcam regTcamUpdate where
  handler _ := rfl
  signal _ := rfl

theorem replays_sramTcam : Replays sramTcam fun st event => st.update entries_pos event where
  handler _ := rfl
  signal _ := rfl

theorem table_regTcamUpdate (st : TcamState) (event : ClSignal) :
    (regTcamUpdate st event).table = st.table.update (Nat.succ_pos 31) event := by
  unfold regTcamUpdate regTcamSignal TcamTable.update
  simp only []
  split <;> rfl

/-- The scan over all rules ends with the value of the first. -/
theorem tcamResult_eq (st : TcamState) (f : Flit) :
    tcamResult st f = f.set 2 ((st.table.lookup (f.get 0)).getD 0) := by
  have hlookup : (tcamLookup st (f.get 0)).1 = (st.table.lookup (f.get 0)).getD 0 := by
    have hhit : tcamMatch st (f.get 0) = st.table.hit (f.get 0) := rfl
    unfold tcamLookup TcamTable.lookup
    rw [lookup_eq_find, hhit]
    cases (List.finRange 32).find? (st.table.hit (f.get 0)) <;> rfl
  rw [tcamResult, hlookup]

theorem sramTcamResult_eq (st : TcamTable 256) (f : Flit) :
    sramTcamResult st f = (st.lookup (f.get 0)).elim f (f.set 2) := by
  unfold sramTcamResult TcamTable.lookup
  cases (List.finRange 256).find? (st.hit (f.get 0)) <;> rfl

/-! ## The rules that are served -/

/-- The indices of the install signals are below 32. -/
def InRange (events : List ClSignal) : Prop :=
  ∀ event ∈ events, event.cmd = 1 → event.sparam.toNat < 32

instance decidableInRange (events : List ClSignal) : Decidable (InRange events) :=
  inferInstanceAs (Decidable (∀ event ∈ events, _))

/-- Signals in range leave the rules that they install. Induction on the signals. -/
theorem installed_foldl {σ : Type} {apply : σ → ClSignal → σ} {r : σ → Nat → Option TcamRule}
    (happly : ∀ st event, (event.cmd = 1 → event.sparam.toNat < 32) →
      r (apply st event) = installRule (r st) event)
    {events : List ClSignal} (hrange : InRange events) (st : σ) :
    r (events.foldl apply st) = events.foldl installRule (r st) := by
  induction events generalizing st with
  | nil => rfl
  | cons event events ih =>
    rw [List.foldl_cons, List.foldl_cons, ih fun e he => hrange e (List.mem_cons_of_mem _ he),
      happly st event (hrange event List.mem_cons_self)]

section
variable {inCap outCap : Nat → Int} {as : List (KernelAction Flit)}

theorem rules_regTcam (memory : TcamState) (hrange : InRange (posted as))
    (hserved : pending (exec (kstep regTcam) (kinit (regTcamInit memory) inCap outCap) as) = []) :
    (exec (kstep regTcam) (kinit (regTcamInit memory) inCap outCap) as).locals.state.table.rules
      = installedRules (posted as) := by
  obtain ⟨served, hall, hstate⟩ :=
    served_of_replays replays_regTcam (regTcamInit memory) inCap outCap as
  rw [hserved, List.append_nil] at hall
  rw [hstate, hall, installed_foldl (r := fun st : TcamState => st.table.rules) ?_ hrange]
  · show (posted as).foldl installRule memory.table.init.rules = _
    rw [TcamTable.rules_init]
    rfl
  · intro st event hidx
    rw [table_regTcamUpdate, TcamTable.rules_update _ _ hidx]

theorem rules_sramTcam (memory : TcamTable 256) (hrange : InRange (posted as))
    (hserved : pending (exec (kstep sramTcam) (kinit memory.init inCap outCap) as) = []) :
    (exec (kstep sramTcam) (kinit memory.init inCap outCap) as).locals.state.rules
      = installedRules (posted as) := by
  obtain ⟨served, hall, hstate⟩ := served_of_replays replays_sramTcam memory.init inCap outCap as
  rw [hserved, List.append_nil] at hall
  rw [hstate, hall, installed_foldl (r := fun st : TcamTable 256 => st.rules) ?_ hrange]
  · rw [TcamTable.rules_init]
    rfl
  · intro st event hidx
    exact TcamTable.rules_update _ _ fun hcmd => (hidx hcmd).trans (by decide)

end

/-! ## The answers -/

/-- What the two elements send for the flit `f`: on a hit the flit with the value in lane 2, on a
miss one of them the flit with 0 in lane 2, the other one the flit itself. -/
structure TcamAnswers (rules : Nat → Option TcamRule) (f : Flit) (reg sram : List Flit) : Prop where
  value : ∃ value, FirstValue rules (f.get 0) value ∧ reg = [f.set 2 (value.getD 0)] ∧
    sram = [value.elim f (f.set 2)]
  agree : reg = sram ↔ f.get 2 = 0 ∨ ∃ v, FirstValue rules (f.get 0) (some v)

theorem tcamAnswers {rules : Nat → Option TcamRule} {f : Flit} {value : Option UInt64}
    (h : FirstValue rules (f.get 0) value) :
    TcamAnswers rules f [f.set 2 (value.getD 0)] [value.elim f (f.set 2)] := by
  refine ⟨⟨value, h, rfl, rfl⟩, ?_⟩
  cases value with
  | some v => exact iff_of_true rfl (Or.inr ⟨v, h⟩)
  | none =>
    -- on a miss `RegTCAM` writes a 0, and `SRAM_TCAM` leaves the lane as it is
    show [f.set 2 0] = [f] ↔ _
    rw [List.cons.injEq, and_iff_left rfl]
    constructor
    · intro hsame
      have hzero : (f.set 2 0).get 2 = 0 := Flit.get_set_self f (by decide) (by decide) 0
      rw [hsame] at hzero
      exact Or.inl hzero
    · rintro (hzero | ⟨v, hv⟩)
      · have hset := Flit.set_get f 2
        rwa [hzero] at hset
      · cases h.unique hv

/-- **`RegTCAM` and `SRAM_TCAM` with the same rules.** Whatever else happens in the two runs: when
they have served the same signals, with indices below 32, and find the same flit, they answer it
from the rule of the lowest index that covers it, and alike, but for a miss on a flit with
something in lane 2. -/
theorem tcams_answer (memory : TcamState) (memory' : TcamTable 256)
    (inCap outCap inCap' outCap' : Nat → Int) {as bs : List (KernelAction Flit)}
    (hposted : posted as = posted bs) (hrange : InRange (posted as))
    (hserved : pending (exec (kstep regTcam) (kinit (regTcamInit memory) inCap outCap) as) = [])
    (hserved' : pending (exec (kstep sramTcam) (kinit memory'.init inCap' outCap') bs) = [])
    {v : View TcamState Flit} {w : View (TcamTable 256) Flit} {f : Flit}
    (hv : v.state
      = (exec (kstep regTcam) (kinit (regTcamInit memory) inCap outCap) as).locals.state)
    (hw : w.state
      = (exec (kstep sramTcam) (kinit memory'.init inCap' outCap') bs).locals.state)
    (hf : offered v = some f) (hf' : offered w = some f) :
    TcamAnswers (installedRules (posted as)) f (setsOf 1 (regTcam.handler v).ops)
      (setsOf 1 (sramTcam.handler w).ops) := by
  have hreg : setsOf 1 (regTcam.handler v).ops = ((offered v).map (tcamResult v.state)).toList :=
    setsOf_offered _ rfl
  have hsram : setsOf 1 (sramTcam.handler w).ops
      = ((offered w).map (sramTcamResult w.state)).toList := setsOf_offered _ rfl
  have hrules : v.state.table.rules = installedRules (posted as) := by
    rw [hv]
    exact rules_regTcam memory hrange hserved
  have hrules' : w.state.rules = installedRules (posted as) := by
    rw [hw, hposted]
    exact rules_sramTcam memory' (hposted ▸ hrange) hserved'
  have hvalue := v.state.table.firstValue_lookup (f.get 0)
  have hvalue' := w.state.firstValue_lookup (f.get 0)
  rw [hrules] at hvalue
  rw [hrules'] at hvalue'
  have hlookup : w.state.lookup (f.get 0) = v.state.table.lookup (f.get 0) := hvalue'.unique hvalue
  rw [hreg, hsram, hf, hf', Option.map_some, Option.map_some, tcamResult_eq, sramTcamResult_eq,
    hlookup]
  exact tcamAnswers hvalue

/-- A call that finds the flit `f`. -/
def lookupView {σ : Type} (st : σ) (f : Flit) : View σ Flit where
  state := st
  inputPort := PORT_BIT 1
  inputData := fun _ => f
  outputData := fun _ => {}
  outputFailed := 0
  outputSuccess := 0
  lastRport := PORT_BIT 1
  event := {}

/-- A rule for every key, at index 3. -/
def ruleThree : ClSignal := { cmd := 1, sparam := 3, lparam := fun i => if i = 2 then 9 else 0 }

/-- The signal is posted and served. -/
def serveRule : List (KernelAction Flit) := .post ruleThree :: List.replicate 4 .kernel

def noEntries (n : Nat) : TcamTable n where
  key := fun _ => 0
  mask := fun _ => 0
  val := fun _ => 0
  valid := fun _ => false

theorem tcams_answer_three :
    TcamAnswers (installedRules [ruleThree]) (({} : Flit).set 0 7)
      (setsOf 1 (regTcam.handler (lookupView (exec (kstep regTcam)
        (kinit (regTcamInit noRules) (fun _ => 1) fun _ => 1) serveRule).locals.state
          (({} : Flit).set 0 7))).ops)
      (setsOf 1 (sramTcam.handler (lookupView (exec (kstep sramTcam)
        (kinit (noEntries 256).init (fun _ => 1) fun _ => 1) serveRule).locals.state
          (({} : Flit).set 0 7))).ops) :=
  tcams_answer noRules (noEntries 256) (fun _ => 1) (fun _ => 1) (fun _ => 1) (fun _ => 1)
    (rfl : posted serveRule = posted serveRule) (by decide) rfl rfl rfl rfl rfl rfl

/-- Without any rule, a flit with something in lane 2 goes out in two forms. -/
theorem tcams_differ_on_miss :
    ¬ ∀ (memory : TcamState) (memory' : TcamTable 256) (inCap outCap inCap' outCap' : Nat → Int)
      (as bs : List (KernelAction Flit)), posted as = posted bs → InRange (posted as) →
      pending (exec (kstep regTcam) (kinit (regTcamInit memory) inCap outCap) as) = [] →
      pending (exec (kstep sramTcam) (kinit memory'.init inCap' outCap') bs) = [] →
      ∀ f : Flit,
        setsOf 1 (regTcam.handler (lookupView (exec (kstep regTcam)
            (kinit (regTcamInit memory) inCap outCap) as).locals.state f)).ops
          = setsOf 1 (sramTcam.handler (lookupView (exec (kstep sramTcam)
            (kinit memory'.init inCap' outCap') bs).locals.state f)).ops := by
  intro h
  have hsame := h noRules (noEntries 256) (fun _ => 1) (fun _ => 1) (fun _ => 1) (fun _ => 1) [] []
    rfl (by decide) rfl rfl (({} : Flit).set 2 5)
  exact absurd hsame (by decide)

end OpenClickNP
