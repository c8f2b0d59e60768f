import Mathlib.Data.Fintype.Fin
import Mathlib.Data.List.FinRange
import OpenClickNP.Backend.Network
import OpenClickNP.Elements.DropEnforcer

/-!
# `RegTCAM`, and the pipeline of `ACL_TCAM`

`RegTCAM` writes the value of the lowest matching rule to lane 2 of the flit it looks up, and
leaves the key in lane 0. `DropEnforcer` decides by lane 0. So what the pipeline forwards is
decided by the key of the flit and not by the rules (`aclTcam_filters_iff`).
-/

namespace OpenClickNP

open Run

/-! ## The lookup -/

/-- The `.state` block: `ENTRIES = 32` rules. -/
structure TcamState where
  key : Fin 32 → UInt64
  mask : Fin 32 → UInt64
  val : Fin 32 → UInt64
  valid : Fin 32 → Bool

/-- `m` of the handler's loop: the rule is valid and matches. -/
def tcamMatch (st : TcamState) (k : UInt64) (i : Fin 32) : Bool :=
  st.valid i && (k &&& st.mask i) == (st.key i &&& st.mask i)

/-- The loop over the rules: `v` and `found` after it. -/
def tcamLookup (st : TcamState) (k : UInt64) : UInt64 × Bool :=
  (List.finRange 32).foldl (fun acc i =>
    if tcamMatch st k i && !acc.2 then (st.val i, true) else acc) (0, false)

/-- The flit with its lookup result. -/
def tcamResult (st : TcamState) (f : Flit) : Flit := f.set 2 (tcamLookup st (f.get 0)).1

/-- The `.handler` block. -/
def regTcamHandler (v : View TcamState Flit) : BodyResult TcamState Flit where
  state := v.state
  ops :=
    if testPort v.inputPort 1 then
      [.clearInputReady (PORT_BIT 1), .setOutputPort 1 (tcamResult v.state (v.inputData 1))]
    else []
  ret := some (PORT_BIT 1)

/-- The `.signal` block: `cmd == 1` installs a rule. -/
def regTcamSignal (v : View TcamState Flit) : BodyResult TcamState Flit where
  state :=
    if v.event.cmd = 1 then
      let i : Fin 32 := Fin.ofNat 32 v.event.sparam.toNat
      { key := Function.update v.state.key i (v.event.lparam 0)
        mask := Function.update v.state.mask i (v.event.lparam 1)
        val := Function.update v.state.val i (v.event.lparam 2)
        valid := Function.update v.state.valid i true }
    else v.state
  ops := []
  ret := none
  outevent := v.event

def regTcam : KernelFn TcamState Flit where
  inPorts := [1]
  outPorts := [1]
  nodup_outPorts := nodup_one
  hasSignal := true
  handler := regTcamHandler
  signal := regTcamSignal

/-- The lowest-indexed valid rule that matches the key exists and its value is non-zero. -/
def Permits (st : TcamState) (k : UInt64) : Prop :=
  ∃ i, tcamMatch st k i = true ∧ (∀ j < i, tcamMatch st k j = false) ∧ st.val i ≠ 0

instance (st : TcamState) (k : UInt64) : Decidable (Permits st k) :=
  inferInstanceAs (Decidable (∃ _, _))

/-- Once a rule has been found the loop changes nothing. -/
theorem lookup_found (st : TcamState) (k : UInt64) (is : List (Fin 32)) (v : UInt64) :
    is.foldl (fun acc i => if tcamMatch st k i && !acc.2 then (st.val i, true) else acc) (v, true)
      = (v, true) := by
  induction is with
  | nil => rfl
  | cons i is ih =>
    rw [List.foldl_cons, if_neg (by simp)]
    exact ih

theorem lookup_eq_find (st : TcamState) (k : UInt64) (is : List (Fin 32)) :
    is.foldl (fun acc i => if tcamMatch st k i && !acc.2 then (st.val i, true) else acc) (0, false)
      = match is.find? (tcamMatch st k) with
        | some i => (st.val i, true)
        | none => (0, false) := by
  induction is with
  | nil => rfl
  | cons i is ih =>
    rw [List.foldl_cons]
    cases hi : tcamMatch st k i with
    | true =>
      rw [List.find?_cons_of_pos hi]
      exact lookup_found st k is (st.val i)
    | false =>
      rw [List.find?_cons_of_neg (by simp [hi])]
      simpa [hi] using ih

/-- **The lookup follows the rules.** Lane 2 of the result is non-zero exactly when the rules
permit the key. -/
theorem get_two_tcamResult (st : TcamState) (f : Flit) :
    (tcamResult st f).get 2 ≠ 0 ↔ Permits st (f.get 0) := by
  unfold tcamResult tcamLookup Permits
  rw [Flit.get_set_self f (by decide) (by decide), lookup_eq_find, ← Fin.find?_eq_find?_finRange]
  cases hfind : Fin.find? (tcamMatch st (f.get 0)) with
  | none =>
    refine iff_of_false (fun h => h rfl) ?_
    rintro ⟨i, hi, -⟩
    rw [Fin.find?_eq_none_iff.mp hfind i] at hi
    cases hi
  | some i =>
    obtain ⟨hi, hlow⟩ := Fin.find?_eq_some_iff.mp hfind
    constructor
    · intro hval
      exact ⟨i, hi, hlow, hval⟩
    · rintro ⟨j, hj, hlowj, hval⟩
      have hij := Fin.find?_eq_some_iff.mpr ⟨hj, hlowj⟩
      rw [hfind] at hij
      cases hij
      exact hval

/-- The key stays in lane 0. -/
theorem get_zero_tcamResult (st : TcamState) (f : Flit) :
    (tcamResult st f).get 0 = f.get 0 := by
  unfold tcamResult
  exact Flit.get_set_of_ne f (by decide) _

/-! ## The elements alone -/

theorem plain_tee {p : Nat} (hp : p = 1 ∨ p = 2) : Plain tee p := by
  have hmem : p ∈ tee.outPorts := by rcases hp with rfl | rfl <;> decide
  refine plain_of_ready hmem (by omega) (fun _ => rfl) (fun _ => ?_) (fun _ => ?_) fun _ => rfl
  · simp [PortOp.isPlain]
  · rcases hp with rfl | rfl <;> simp [setsOf]

/-- `Tee` sends what it takes to both ports. -/
structure Teeing (s : KernelState Unit Flit) : Prop where
  hasSignal : s.locals.hasSignal = false
  sent : ∀ p, p = 1 ∨ p = 2 → s.sent p = s.taken 1

theorem teeing_step {s t : KernelState Unit Flit} {a : KernelAction Flit} (h : Teeing s)
    (hs : kstep tee s a = some t) : Teeing t := by
  refine ⟨hasSignal_step rfl h.hasSignal hs, fun p hp => ?_⟩
  refine inv_call_step (P := fun _ taken sent => sent p = taken 1)
    (fun v taken sent hsent => ?_) h.hasSignal hs (h.sent p hp)
  show sent p ++ setsOf p (teeHandler v).ops = taken 1 ++ takenIn 1 v (teeHandler v)
  rw [hsent, setsOf_of_ready (p := 1) p rfl, takenIn_of_ready (by decide) rfl]
  rcases hp with rfl | rfl <;> split <;> simp [setsOf]

theorem plain_regTcam : Plain regTcam 1 :=
  plain_of_ready (List.mem_singleton_self 1) (by decide) (fun _ => rfl)
    (fun _ => List.forall_mem_singleton.mpr rfl) (fun _ => Nat.le_refl 1) fun _ => rfl

/-- `RegTCAM` with the rules `rules` sends the result of each flit it takes. -/
structure LookingUp (rules : TcamState) (s : KernelState TcamState Flit) : Prop where
  hasSignal : s.locals.hasSignal = false
  requests : s.requests = []
  state : s.locals.state = rules
  sent : s.sent 1 = (s.taken 1).map (tcamResult rules)

theorem lookingUp_step {rules : TcamState} {s t : KernelState TcamState Flit}
    {a : KernelAction Flit} (h : LookingUp rules s) (ha : ∀ req, a ≠ .post req)
    (hs : kstep regTcam s a = some t) : LookingUp rules t := by
  obtain ⟨hsig, hreq⟩ := noSignal_step h.hasSignal h.requests ha hs
  have hops : ∀ v : View TcamState Flit, v.state = rules → (regTcam.handler v).ops
      = if testPort v.inputPort 1 then
          [.clearInputReady (PORT_BIT 1), .setOutputPort 1 (tcamResult rules (v.inputData 1))]
        else [] := by
    intro v hv
    rw [← hv]
    rfl
  obtain ⟨hstate, hsent⟩ := mapped_step (fun _ => rfl) hops h.hasSignal hs ⟨h.state, h.sent⟩
  exact ⟨hsig, hreq, hstate, hsent⟩

/-! ## The topology -/

/-- `tap`, `acl` and `enf`. -/
inductive AclStage where
  | tap
  | acl
  | enf
deriving DecidableEq

namespace AclStage

/-- The connections of the topology between the stages. -/
def next : AclStage → Nat → Option (AclStage × Nat)
  | .tap, 1 => some (.enf, 1)
  | .tap, 2 => some (.acl, 1)
  | .acl, 1 => some (.enf, 2)
  | _, _ => none

/-- The stream from `nic_in`. -/
def input : (AclStage × Nat) ⊕ (AclStage × Nat) := .inl (.tap, 1)

/-- The stream to `tor_out`. -/
def output : (AclStage × Nat) ⊕ (AclStage × Nat) := .inr (.enf, 1)

def State : AclStage → Type
  | .tap => Unit
  | .acl => TcamState
  | .enf => Unit

def fn : ∀ i, KernelFn (State i) Flit
  | .tap => tee
  | .acl => regTcam
  | .enf => dropEnforcer

/-- The states with the rules installed. -/
def init (rules : TcamState) : ∀ i, State i
  | .tap => ()
  | .acl => rules
  | .enf => ()

theorem next_eq_some {i : AclStage} {p : Nat} {r : AclStage × Nat} (h : next i p = some r) :
    (i = .tap ∧ p = 1 ∧ r = (.enf, 1)) ∨ (i = .tap ∧ p = 2 ∧ r = (.acl, 1)) ∨
      (i = .acl ∧ p = 1 ∧ r = (.enf, 2)) := by
  unfold next at h
  split at h
  · exact Or.inl ⟨rfl, rfl, (Option.some.inj h).symm⟩
  · exact Or.inr (Or.inl ⟨rfl, rfl, (Option.some.inj h).symm⟩)
  · exact Or.inr (Or.inr ⟨rfl, rfl, (Option.some.inj h).symm⟩)
  · cases h

theorem next_inj (i : AclStage) (p : Nat) (j : AclStage) (q : Nat) (r : AclStage × Nat)
    (hp : next i p = some r) (hq : next j q = some r) : i = j ∧ p = q := by
  rcases next_eq_some hp with ⟨rfl, rfl, rfl⟩ | ⟨rfl, rfl, rfl⟩ | ⟨rfl, rfl, rfl⟩ <;>
    rcases next_eq_some hq with ⟨rfl, rfl, hr⟩ | ⟨rfl, rfl, hr⟩ | ⟨rfl, rfl, hr⟩ <;>
      first | exact ⟨rfl, rfl⟩ | cases hr

theorem next_ne_self (i : AclStage) (p q : Nat) : next i p ≠ some (i, q) := by
  unfold next
  split <;> simp

theorem ends : Ends (pointToPoint next) input output :=
  ends_pointToPoint (ownStreams_pointToPoint next_inj next_ne_self) fun k r h => by
    rcases next_eq_some h with ⟨-, -, hr⟩ | ⟨-, -, hr⟩ | ⟨-, -, hr⟩ <;> cases hr

end AclStage

abbrev AclNet :=
  NetState AclStage ((AclStage × Nat) ⊕ (AclStage × Nat)) AclStage AclStage.State Flit

abbrev AclAction := NetAction AclStage ((AclStage × Nat) ⊕ (AclStage × Nat)) AclStage Flit

def aclStep : AclNet → AclAction → Option AclNet := nstep (pointToPoint AclStage.next) AclStage.fn

def aclStart (rules : TcamState) (cap : (AclStage × Nat) ⊕ (AclStage × Nat) → Int) : AclNet :=
  ninit (AclStage.init rules) cap

/-- What a stage sees. -/
abbrev seenBy (s : AclNet) (i : AclStage) : KernelState (AclStage.State i) Flit :=
  kernelOf (pointToPoint AclStage.next) s i

/-- The rules stay as they are, and every write finds room. -/
abbrev AclFlowing : AclNet → AclAction → Prop :=
  Flowing (pointToPoint AclStage.next) AclStage.input AclStage.output

section
variable {rules : TcamState} {cap : (AclStage × Nat) ⊕ (AclStage × Nat) → Int} {t : AclNet}

theorem tap_sends (hrun : Reaches aclStep AclFlowing (aclStart rules cap) t) {p : Nat}
    (hp : p = 1 ∨ p = 2) : emitted p (seenBy t .tap) <+: t.written AclStage.input := by
  have hstage := stage_run AclStage.ends (fun _ _ h => h) hrun .tap
  have hteeing : Teeing (seenBy t .tap) :=
    hstage.inv (P := Teeing) ⟨rfl, fun _ _ => rfl⟩ fun s a u hs _ hstep => teeing_step hs hstep
  have hwritten := emitted_begins_sent (plain_tee hp) (fun _ _ h => h.1 p) hstage
  rw [hteeing.sent p hp] at hwritten
  exact hwritten.trans (taken_begins_arrived_of_reaches hstage 1)

/-- The results that reach `enf` are those of a first part of the input. -/
theorem results_at_enf (hrun : Reaches aclStep AclFlowing (aclStart rules cap) t) :
    (seenBy t .enf).arrived 2 <+: (t.written AclStage.input).map (tcamResult rules) := by
  have hstage := stage_run AclStage.ends (fun _ _ h => h) hrun .acl
  have hlooking : LookingUp rules (seenBy t .acl) :=
    hstage.inv (P := LookingUp rules) ⟨rfl, rfl, rfl, rfl⟩
      fun s a u hs hok hstep => lookingUp_step hs hok.2 hstep
  have hwritten := emitted_begins_sent plain_regTcam (fun _ _ h => h.1 1) hstage
  rw [hlooking.sent] at hwritten
  have htaken : (seenBy t .acl).taken 1 <+: t.written AclStage.input :=
    (taken_begins_arrived_of_reaches hstage 1).trans (tap_sends hrun (Or.inr rfl))
  exact hwritten.trans (htaken.map _)

/-- What `enf` finds on a port is next after what it has taken. -/
theorem found_next (hrun : Reaches aclStep AclFlowing (aclStart rules cap) t) {p : Nat}
    (hp : testPort (seenBy t .enf).locals.inputPort p = true) :
    ((seenBy t .enf).arrived p)[((seenBy t .enf).taken p).length]?
      = some ((seenBy t .enf).locals.inputData p) := by
  have hinputs : Inputs (seenBy t .enf) :=
    (stage_run AclStage.ends (fun _ _ h => h) hrun .enf).inv (P := Inputs)
      (inputs_kinit () _ _) fun s a u hs _ hstep => inputs_step hs hstep
  rw [hinputs p, latched, if_pos hp]
  simp

end

/-! ## What the pipeline decides by -/

/-- The next step of `DropEnforcer` is a call that takes a flit whose lookup result has reached
port 2. -/
def TakesKnown (ks : KernelState Unit Flit) : Prop :=
  ks.pc = .body ∧ testPort ks.locals.inputPort 1 = true ∧
    (ks.taken 1).length < (ks.arrived 2).length

instance decidableAtBody : ∀ pc : LoopPc, Decidable (pc = .body)
  | .body => isTrue rfl
  | .head => isFalse nofun
  | .readIn _ => isFalse nofun
  | .writeOut _ => isFalse nofun

instance decidableTakesKnown (ks : KernelState Unit Flit) : Decidable (TakesKnown ks) :=
  instDecidableAnd

/-- The call forwards the flit it takes exactly when the rules permit it. -/
def FiltersCall (rules : TcamState) (ks : KernelState Unit Flit) : Prop :=
  TakesKnown ks →
    (setsOf 1 (bodyResult dropEnforcer ks.locals).ops = [ks.locals.inputData 1] ↔
      Permits rules ((ks.locals.inputData 1).get 0))

instance decidableFiltersCall (rules : TcamState) (ks : KernelState Unit Flit) :
    Decidable (FiltersCall rules ks) :=
  inferInstanceAs (Decidable (_ → _))

/-- Every call of `DropEnforcer` filters by the rules. -/
def Filters (rules : TcamState) (s : AclNet) : AclAction → Prop
  | .thread .enf => FiltersCall rules (seenBy s .enf)
  | _ => True

instance (rules : TcamState) (s : AclNet) : ∀ a, Decidable (Filters rules s a)
  | .thread .enf => decidableFiltersCall rules (seenBy s .enf)
  | .thread .tap => isTrue trivial
  | .thread .acl => isTrue trivial
  | .inject _ _ => isTrue trivial
  | .observe _ => isTrue trivial
  | .post _ _ => isTrue trivial

/-- The flit whose lookup result the call finds on port 2, if it finds one. -/
def lookedUp (s : AclNet) : Option Flit :=
  if testPort (seenBy s .enf).locals.inputPort 2 then
    (s.written AclStage.input)[((seenBy s .enf).taken 2).length]?
  else none

/-- The rules permit the flit taken exactly when the flit looked up, if there is one, has a
non-zero key. -/
def KeyDecidesCall (rules : TcamState) (ks : KernelState Unit Flit) (looked : Option Flit) :
    Prop :=
  TakesKnown ks →
    ((∀ f ∈ looked, f.get 0 ≠ 0) ↔ Permits rules ((ks.locals.inputData 1).get 0))

instance decidableKeyDecidesCall (rules : TcamState) (ks : KernelState Unit Flit)
    (looked : Option Flit) : Decidable (KeyDecidesCall rules ks looked) :=
  inferInstanceAs (Decidable (_ → _))

/-- The condition on a step. -/
def KeyDecides (rules : TcamState) (s : AclNet) : AclAction → Prop
  | .thread .enf => KeyDecidesCall rules (seenBy s .enf) (lookedUp s)
  | _ => True

instance (rules : TcamState) (s : AclNet) : ∀ a, Decidable (KeyDecides rules s a)
  | .thread .enf => decidableKeyDecidesCall rules (seenBy s .enf) (lookedUp s)
  | .thread .tap => isTrue trivial
  | .thread .acl => isTrue trivial
  | .inject _ _ => isTrue trivial
  | .observe _ => isTrue trivial
  | .post _ _ => isTrue trivial

section
variable {rules : TcamState} {cap : (AclStage × Nat) ⊕ (AclStage × Nat) → Int} {t : AclNet}

/-- The result found is that of the flit looked up, with the flit's key in lane 0. -/
theorem verdict_key (hrun : Reaches aclStep AclFlowing (aclStart rules cap) t) :
    (∀ f ∈ lookedUp t, f.get 0 ≠ 0) ↔
      (testPort (seenBy t .enf).locals.inputPort 2 = true →
        ((seenBy t .enf).locals.inputData 2).get 0 ≠ 0) := by
  unfold lookedUp
  cases h2 : testPort (seenBy t .enf).locals.inputPort 2 with
  | false => simp
  | true =>
    have hresult := found_next hrun h2
    obtain ⟨later, hlater⟩ := results_at_enf hrun
    obtain ⟨hlt, -⟩ := List.getElem?_eq_some_iff.mp hresult
    have hmap : ((t.written AclStage.input).map (tcamResult rules))[
        ((seenBy t .enf).taken 2).length]? = some ((seenBy t .enf).locals.inputData 2) := by
      rw [← hlater, List.getElem?_append_left hlt, hresult]
    rw [List.getElem?_map, Option.map_eq_some_iff] at hmap
    obtain ⟨f, hf, hverdict⟩ := hmap
    rw [← hverdict, get_zero_tcamResult, if_pos rfl, hf]
    simp

theorem filters_iff_keyDecides (hrun : Reaches aclStep AclFlowing (aclStart rules cap) t)
    (a : AclAction) : Filters rules t a ↔ KeyDecides rules t a := by
  cases a with
  | thread i =>
    cases i with
    | enf =>
      have hsig : (seenBy t .enf).locals.hasSignal = false :=
        (stage_run AclStage.ends (fun _ _ h => h) hrun .enf).inv
          (P := fun s => s.locals.hasSignal = false) rfl
          fun s a u hs _ hstep => hasSignal_step rfl hs hstep
      exact imp_congr_right fun hknown =>
        iff_congr ((forwards_iff hsig hknown.2.1).trans (verdict_key hrun).symm) Iff.rfl
    | tap => exact Iff.rfl
    | acl => exact Iff.rfl
  | inject k f => exact Iff.rfl
  | observe k => exact Iff.rfl
  | post c req => exact Iff.rfl

end

/-- **What `ACL_TCAM` filters by.** For all rules, all stream capacities and every run of the
pipeline on which the writes find room: every flit whose lookup result has reached
`DropEnforcer` before it is taken is forwarded exactly when the rules permit it, if and only if
for each of these flits the rules permit it exactly when the flit looked up at the call has a
non-zero key. -/
theorem aclTcam_filters_iff (rules : TcamState)
    (cap : (AclStage × Nat) ⊕ (AclStage × Nat) → Int) (as : List AclAction)
    (hrun : Meets aclStep AclFlowing (aclStart rules cap) as) :
    Meets aclStep (Filters rules) (aclStart rules cap) as ↔
      Meets aclStep (KeyDecides rules) (aclStart rules cap) as :=
  hrun.congr fun _ a hreach => filters_iff_keyDecides hreach a

/-- No rules. -/
def noRules : TcamState where
  key := fun _ => 0
  mask := fun _ => 0
  val := fun _ => 0
  valid := fun _ => false

/-- One flit, taken by `DropEnforcer` when its lookup result is there. -/
def lookedUpRun (f : Flit) : List AclAction :=
  .inject AclStage.input f :: List.replicate 7 (.thread .tap) ++
    List.replicate 6 (.thread .acl) ++ List.replicate 5 (.thread .enf)

theorem aclTcam_filters_zero_key :
    Meets aclStep (Filters noRules) (aclStart noRules fun _ => 2) (lookedUpRun {}) :=
  (aclTcam_filters_iff noRules (fun _ => 2) (lookedUpRun {}) (by decide)).mpr (by decide)

/-- Without any rule a flit with a non-zero key goes through. -/
theorem aclTcam_forwards_unmatched :
    ¬ ∀ (rules : TcamState) (cap : (AclStage × Nat) ⊕ (AclStage × Nat) → Int)
      (as : List AclAction), Meets aclStep AclFlowing (aclStart rules cap) as →
      Meets aclStep (Filters rules) (aclStart rules cap) as := by
  intro h
  have hfilters := h noRules (fun _ => 2) (lookedUpRun ⟨Vector.replicate 64 255⟩) (by decide)
  exact absurd hfilters (by decide)

end OpenClickNP
