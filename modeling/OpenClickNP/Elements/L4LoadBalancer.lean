import OpenClickNP.Backend.SignalledCalls

/-!
# `L4LoadBalancer.clnp`

A flit is sent to the backend in the slot that its lane 0 selects, modulo the number of backends.
An install signal raises that number to cover the slot it writes to. So a slot below that nobody
has installed can be selected, and it holds the address 0 (`l4LoadBalancer_installed_iff`).
-/

namespace OpenClickNP

open Run

/-! ## The element -/

/-- The `.state` block. -/
structure L4LoadBalancerState where
  backendIp : Fin 256 → UInt64
  nbackends : UInt32

/-- The address that the element starts with. -/
def defaultBackend : UInt64 := 0x0a000001

/-- The `.init` block, after the value-initialisation of the state. -/
def l4LoadBalancerInit : L4LoadBalancerState where
  backendIp := fun i => if i = 0 then defaultBackend else 0
  nbackends := 1

/-- `static_cast<uint32_t>(f.get(0)) % _state.nbackends`. -/
def L4LoadBalancerState.slot (st : L4LoadBalancerState) (f : Flit) : UInt32 :=
  (f.get 0).toUInt32 % st.nbackends

/-- `_state.backend_ip[h]`; `outside` is what memory holds beyond the array. -/
def L4LoadBalancerState.backend (st : L4LoadBalancerState) (outside : Nat → UInt64) (h : UInt32) :
    UInt64 :=
  if hlt : h.toNat < 256 then st.backendIp ⟨h.toNat, hlt⟩ else outside h.toNat

/-- The `.handler` block. -/
def l4LoadBalancerHandler (outside : Nat → UInt64) (v : View L4LoadBalancerState Flit) :
    BodyResult L4LoadBalancerState Flit where
  state := v.state
  ops :=
    if testPort v.inputPort 1 then
      [.clearInputReady (PORT_BIT 1),
        .setOutputPort 1 ((v.inputData 1).set 2
          (v.state.backend outside (v.state.slot (v.inputData 1))))]
    else []
  ret := some (PORT_BIT 1)

theorem slot_lt (event : ClSignal) : (event.sparam % 256).toNat < 256 := by
  rw [UInt32.toNat_mod]
  exact Nat.mod_lt _ (by decide)

/-- `event.sparam % _state.SIZE`. -/
def eventSlot (event : ClSignal) : Fin 256 := ⟨(event.sparam % 256).toNat, slot_lt event⟩

/-- What a signal does to the backends. -/
def L4LoadBalancerState.update (st : L4LoadBalancerState) (event : ClSignal) :
    L4LoadBalancerState :=
  if event.cmd = 1 then
    let i := event.sparam % 256
    { backendIp := Function.update st.backendIp (eventSlot event) (event.lparam 0)
      nbackends := if i + 1 > st.nbackends then i + 1 else st.nbackends }
  else st

/-- The `.signal` block. -/
def l4LoadBalancerSignal (v : View L4LoadBalancerState Flit) :
    BodyResult L4LoadBalancerState Flit where
  state := v.state.update v.event
  ops := []
  ret := none
  outevent := v.event

def l4LoadBalancer (outside : Nat → UInt64) : KernelFn L4LoadBalancerState Flit where
  inPorts := [1]
  outPorts := [1]
  nodup_outPorts := nodup_one
  hasSignal := true
  handler := l4LoadBalancerHandler outside
  signal := l4LoadBalancerSignal

def l4LoadBalancerMachine (outside : Nat → UInt64) :
    Transducer L4LoadBalancerState (Option Flit) Flit where
  next st _ := st
  out st x := (x.map fun f => f.set 2 (st.backend outside (st.slot f))).toList

theorem transduces_l4LoadBalancer (outside : Nat → UInt64) :
    Transduces (l4LoadBalancer outside) id (fun _ => False) (l4LoadBalancerMachine outside) where
  inPorts := rfl
  outPorts := rfl
  returns _ := rfl
  state _ := rfl
  taken _ := takenIn_offered rfl
  sets _ := setsOf_offered _ rfl
  signalState _ h := h.elim
  signalOps _ := rfl
  signalRet _ := rfl

theorem replays_l4LoadBalancer (outside : Nat → UInt64) :
    Replays (l4LoadBalancer outside) L4LoadBalancerState.update where
  handler _ := rfl
  signal _ := rfl

/-! ## What the signals install -/

/-- The install signals of a history. -/
def installsOf (history : List ClSignal) : List ClSignal :=
  history.filter fun event => event.cmd = 1

/-- The addresses that can be there: the default one, and those that signals have stored. -/
def knownAddresses (history : List ClSignal) : List UInt64 :=
  defaultBackend :: (installsOf history).map fun event => event.lparam 0

/-- Between slot 0 and a slot that has been installed every slot has been installed, or 0 has been
installed as an address. -/
def NoGap (history : List ClSignal) : Prop :=
  ∀ event ∈ installsOf history, ∀ i : Fin 256, 0 < i → i < eventSlot event →
    (∃ e ∈ installsOf history, eventSlot e = i) ∨ ∃ e ∈ installsOf history, e.lparam 0 = 0

/-- The state behind a history. -/
def balancerBehind (history : List ClSignal) : L4LoadBalancerState :=
  history.foldl L4LoadBalancerState.update l4LoadBalancerInit

theorem balancerBehind_append (history : List ClSignal) (event : ClSignal) :
    balancerBehind (history ++ [event]) = (balancerBehind history).update event := by
  rw [balancerBehind, List.foldl_append]
  rfl

theorem installsOf_append (history : List ClSignal) (event : ClSignal) :
    installsOf (history ++ [event])
      = if event.cmd = 1 then installsOf history ++ [event] else installsOf history := by
  rw [installsOf, List.filter_append, List.filter_singleton]
  by_cases h : event.cmd = 1 <;> simp [h, installsOf]

/-- A slot that has been installed holds an address that a signal has stored, and one that has not
what it held at first. Induction on the history, from the back. -/
theorem backendIp_behind (history : List ClSignal) (i : Fin 256) :
    (∃ e ∈ installsOf history, eventSlot e = i ∧
        (balancerBehind history).backendIp i = e.lparam 0) ∨
      (∀ e ∈ installsOf history, eventSlot e ≠ i) ∧
        (balancerBehind history).backendIp i = l4LoadBalancerInit.backendIp i := by
  induction history using List.reverseRecOn with
  | nil => exact Or.inr ⟨fun e he => absurd he List.not_mem_nil, rfl⟩
  | append_singleton history event ih =>
    rw [balancerBehind_append, installsOf_append]
    unfold L4LoadBalancerState.update
    by_cases hcmd : event.cmd = 1
    · rw [if_pos hcmd, if_pos hcmd]
      simp only []
      by_cases hslot : eventSlot event = i
      · refine Or.inl ⟨event, by simp, hslot, ?_⟩
        rw [← hslot, Function.update_self]
      · rw [Function.update_of_ne (Ne.symm hslot)]
        rcases ih with ⟨e, he, hsame, haddr⟩ | ⟨hnone, haddr⟩
        · exact Or.inl ⟨e, List.mem_append_left _ he, hsame, haddr⟩
        · refine Or.inr ⟨fun e he => ?_, haddr⟩
          rcases List.mem_append.mp he with he | he
          · exact hnone e he
          · rw [List.mem_singleton.mp he]
            exact hslot
    · rw [if_neg hcmd, if_neg hcmd]
      exact ih

/-- The number of backends covers slot 0 and every slot that has been installed, and no more. -/
theorem lt_nbackends_iff (history : List ClSignal) (i : Nat) :
    i < (balancerBehind history).nbackends.toNat ↔
      i = 0 ∨ ∃ e ∈ installsOf history, i ≤ (eventSlot e).val := by
  induction history using List.reverseRecOn with
  | nil =>
    show i < 1 ↔ _
    simp [installsOf]
  | append_singleton history event ih =>
    rw [balancerBehind_append, installsOf_append]
    unfold L4LoadBalancerState.update
    by_cases hcmd : event.cmd = 1
    · rw [if_pos hcmd, if_pos hcmd]
      have hlt := slot_lt event
      have hslot : (eventSlot event).val = (event.sparam % 256).toNat := rfl
      have hsucc : (event.sparam % 256 + 1).toNat = (event.sparam % 256).toNat + 1 := by
        have hone : (1 : UInt32).toNat = 1 := rfl
        rw [UInt32.toNat_add, hone]
        exact Nat.mod_eq_of_lt (by omega)
      have hmem : (∃ e ∈ installsOf history ++ [event], i ≤ (eventSlot e).val) ↔
          (∃ e ∈ installsOf history, i ≤ (eventSlot e).val) ∨ i ≤ (eventSlot event).val := by
        constructor
        · rintro ⟨e, he, hle⟩
          rcases List.mem_append.mp he with he | he
          · exact Or.inl ⟨e, he, hle⟩
          · rw [List.mem_singleton.mp he] at hle
            exact Or.inr hle
        · rintro (⟨e, he, hle⟩ | hle)
          · exact ⟨e, List.mem_append_left _ he, hle⟩
          · exact ⟨event, by simp, hle⟩
      rw [hmem, ← or_assoc, ← ih]
      simp only [gt_iff_lt, UInt32.lt_iff_toNat_lt, hsucc]
      split <;> omega
    · rw [if_neg hcmd, if_neg hcmd]
      exact ih

theorem nbackends_bounds (history : List ClSignal) :
    0 < (balancerBehind history).nbackends.toNat ∧
      (balancerBehind history).nbackends.toNat ≤ 256 := by
  refine ⟨(lt_nbackends_iff history 0).mpr (Or.inl rfl), ?_⟩
  by_contra hgt
  rcases (lt_nbackends_iff history 256).mp (Nat.not_le.mp hgt) with h | ⟨e, -, hle⟩
  · cases h
  · have hlt := (eventSlot e).isLt
    omega

/-- **No division by zero, and no index beyond the array.** -/
theorem slot_behind_lt (history : List ClSignal) (f : Flit) :
    ((balancerBehind history).slot f).toNat < (balancerBehind history).nbackends.toNat ∧
      ((balancerBehind history).slot f).toNat < 256 := by
  obtain ⟨hpos, hle⟩ := nbackends_bounds history
  have hlt : ((balancerBehind history).slot f).toNat
      < (balancerBehind history).nbackends.toNat := by
    rw [L4LoadBalancerState.slot, UInt32.toNat_mod]
    exact Nat.mod_lt _ hpos
  exact ⟨hlt, by omega⟩

/-- Every slot can be selected. -/
theorem exists_flit_for (history : List ClSignal) {i : Nat}
    (hi : i < (balancerBehind history).nbackends.toNat) :
    ∃ f : Flit, ((balancerBehind history).slot f).toNat = i := by
  have hle := (nbackends_bounds history).2
  refine ⟨({} : Flit).set 0 (UInt64.ofNat i), ?_⟩
  have hlane : (({} : Flit).set 0 (UInt64.ofNat i)).get 0 = UInt64.ofNat i :=
    Flit.get_set_self _ (by decide) (by decide) _
  have hword : (UInt64.ofNat i).toUInt32.toNat = i := by
    rw [UInt64.toNat_toUInt32, UInt64.toNat_ofNat']
    omega
  rw [L4LoadBalancerState.slot, hlane, UInt32.toNat_mod, hword, Nat.mod_eq_of_lt hi]

theorem backend_of_lt (outside : Nat → UInt64) (st : L4LoadBalancerState) {h : UInt32}
    (hlt : h.toNat < 256) : st.backend outside h = st.backendIp ⟨h.toNat, hlt⟩ := dif_pos hlt

theorem backendIp_init {i : Fin 256} (hi : i ≠ 0) : l4LoadBalancerInit.backendIp i = 0 := if_neg hi

/-- A slot above 0 holds a known address only if it has been installed, or 0 has. -/
theorem installed_of_known {history : List ClSignal} {i : Fin 256} (hi : i ≠ 0)
    (h : (balancerBehind history).backendIp i ∈ knownAddresses history) :
    (∃ e ∈ installsOf history, eventSlot e = i) ∨ ∃ e ∈ installsOf history, e.lparam 0 = 0 := by
  rcases backendIp_behind history i with ⟨e, he, hsame, -⟩ | ⟨-, hinit⟩
  · exact Or.inl ⟨e, he, hsame⟩
  · -- nobody has installed the slot, so the address is 0
    rw [hinit, backendIp_init hi, knownAddresses] at h
    rcases List.mem_cons.mp h with h0 | hmem
    · exact absurd h0 (by decide)
    · obtain ⟨e, he, haddr⟩ := List.mem_map.mp hmem
      exact Or.inr ⟨e, he, haddr⟩

theorem known_of_install {history : List ClSignal} {e : ClSignal} (he : e ∈ installsOf history) :
    e.lparam 0 ∈ knownAddresses history := List.mem_cons_of_mem _ (List.mem_map_of_mem he)

/-- Without a gap every slot that can be selected holds a known address. -/
theorem known_of_noGap {history : List ClSignal} (hgap : NoGap history) {i : Fin 256}
    (hi : i.val < (balancerBehind history).nbackends.toNat) :
    (balancerBehind history).backendIp i ∈ knownAddresses history := by
  rcases backendIp_behind history i with ⟨e, he, -, haddr⟩ | ⟨hnone, hinit⟩
  · rw [haddr]
    exact known_of_install he
  · rw [hinit]
    by_cases hzero : i = 0
    · rw [hzero]
      exact List.mem_cons_self
    · -- a slot that nobody has installed lies below one that somebody has
      rcases (lt_nbackends_iff history i.val).mp hi with h0 | ⟨e, he, hle⟩
      · exact absurd (Fin.ext h0) hzero
      · have hbelow : i < eventSlot e :=
          Nat.lt_of_le_of_ne hle fun heq => hnone e he (Fin.ext heq.symm)
        rcases hgap e he i (Fin.pos_iff_ne_zero.mpr hzero) hbelow with
          ⟨e', he', hsame⟩ | ⟨e', he', haddr⟩
        · exact absurd hsame (hnone e' he')
        · rw [backendIp_init hzero, ← haddr]
          exact known_of_install he'

/-- **The addresses that the flits get are known ones exactly when there is no gap.** -/
theorem addresses_known_iff (outside : Nat → UInt64) (history : List ClSignal) :
    (∀ f, (balancerBehind history).backend outside ((balancerBehind history).slot f)
        ∈ knownAddresses history) ↔ NoGap history := by
  constructor
  · intro hknown event hevent i hpos hi
    have hcovered : i.val < (balancerBehind history).nbackends.toNat :=
      (lt_nbackends_iff history i.val).mpr (Or.inr ⟨event, hevent, Nat.le_of_lt hi⟩)
    obtain ⟨f, hf⟩ := exists_flit_for history hcovered
    have hlt : ((balancerBehind history).slot f).toNat < 256 := (slot_behind_lt history f).2
    have haddr := hknown f
    rw [backend_of_lt outside _ hlt, show (⟨_, hlt⟩ : Fin 256) = i from Fin.ext hf] at haddr
    exact installed_of_known (Fin.pos_iff_ne_zero.mp hpos) haddr
  · intro hgap f
    obtain ⟨hlt, h256⟩ := slot_behind_lt history f
    rw [backend_of_lt outside _ h256]
    exact known_of_noGap hgap hlt

/-! ## Runs -/

/-- A call that finds a flit divides by a number that is not 0, reads the array below its end, and
sends the flit on with an address that is the default one or was stored by a signal served before:
`posts` are the signals posted so far. -/
structure SendsToKnown (outside : Nat → UInt64) (posts : List ClSignal)
    (s : KernelState L4LoadBalancerState Flit) : Prop where
  divisor : s.locals.state.nbackends ≠ 0
  index : (s.locals.state.slot (s.locals.inputData 1)).toNat < 256
  address : ∃ served addr, served ++ pending s = posts ∧ addr ∈ knownAddresses served ∧
    setsOf 1 ((l4LoadBalancer outside).handler (viewOf s.locals)).ops
      = [(s.locals.inputData 1).set 2 addr]

theorem setsOf_l4LoadBalancer (outside : Nat → UInt64)
    {s : KernelState L4LoadBalancerState Flit} (h : testPort s.locals.inputPort 1 = true) :
    setsOf 1 ((l4LoadBalancer outside).handler (viewOf s.locals)).ops
      = [(s.locals.inputData 1).set 2
          (s.locals.state.backend outside (s.locals.state.slot (s.locals.inputData 1)))] := by
  show setsOf 1 (if testPort s.locals.inputPort 1 then _ else _) = _
  rw [if_pos h]
  rfl

/-- **When `L4LoadBalancer` sends to known backends only.** For every sequence of signals: in all
runs that post them, or a first part of them, whatever flits come in between, every call divides by
a number that is not 0, stays in the array, and sends its flit to the default address or to one that
a signal served before has stored, if and only if no first part of the signals leaves a gap below a
slot that it installs, unless it stores the address 0. -/
theorem l4LoadBalancer_installed_iff (outside : Nat → UInt64) (history : List ClSignal) :
    (∀ (inCap outCap : Nat → Int) (as : List (KernelAction Flit)), posted as <+: history →
      let s := exec (kstep (l4LoadBalancer outside)) (kinit l4LoadBalancerInit inCap outCap) as
      s.pc = .body → s.locals.hasSignal = false → testPort s.locals.inputPort 1 = true →
        SendsToKnown outside (posted as) s) ↔
      ∀ served, served <+: history → NoGap served := by
  constructor
  · intro h served hserved
    rw [← addresses_known_iff outside]
    intro f
    -- the signals are served, and the flit comes in
    obtain ⟨as, hposted, hfront, hstate⟩ := (transduces_l4LoadBalancer outside).reaches_call
      (replays_l4LoadBalancer outside) rfl l4LoadBalancerInit (fun _ => 2) (fun _ => 2) served f
    have hsends := h (fun _ => 2) (fun _ => 2) as (hposted.symm ▸ hserved) hfront.body
      hfront.noSignal hfront.ready
    obtain ⟨first, addr, hall, hknown, hsets⟩ := hsends.address
    have hnone : pending (exec (kstep (l4LoadBalancer outside))
        (kinit l4LoadBalancerInit (fun _ => 2) fun _ => 2) as) = [] := by
      rw [pending, hfront.noSignal, hfront.noRequest]
      rfl
    rw [hnone, List.append_nil, hposted] at hall
    rw [setsOf_l4LoadBalancer outside hfront.ready, hfront.found, hstate] at hsets
    have hlane := congrArg (fun g : Flit => g.get 2) (List.singleton_inj.mp hsets)
    simp only [Flit.get_set_self _ (by decide : (0 : Int) ≤ 2) (by decide : (2 : Int) < 4)]
      at hlane
    rw [← hlane, hall] at hknown
    exact hknown
  · intro h inCap outCap as hposted s _ _ hready
    obtain ⟨served, hall, hstate⟩ :=
      served_of_replays (replays_l4LoadBalancer outside) l4LoadBalancerInit inCap outCap as
    have hgap := h served (List.IsPrefix.trans ⟨_, hall⟩ hposted)
    have hbehind : s.locals.state = balancerBehind served := hstate
    have hpos := (nbackends_bounds served).1
    refine ⟨?_, ?_, ⟨served, _, hall, ?_, setsOf_l4LoadBalancer outside hready⟩⟩
    · intro hzero
      rw [← hbehind, hzero] at hpos
      exact absurd hpos (by decide)
    · rw [hbehind]
      exact (slot_behind_lt served _).2
    · rw [hbehind]
      exact (addresses_known_iff outside served).mpr hgap _

/-- The signal that stores an address in slot 2. -/
def thirdBackend : ClSignal where
  cmd := 1
  sparam := 2
  lparam := fun _ => 0x0a000003

/-- The first backend is installed in slot 2, and a flit selects slot 1. -/
theorem l4LoadBalancer_sends_to_gap : ¬ ∀ (outside : Nat → UInt64) (history : List ClSignal)
    (inCap outCap : Nat → Int) (as : List (KernelAction Flit)), posted as <+: history →
      let s := exec (kstep (l4LoadBalancer outside)) (kinit l4LoadBalancerInit inCap outCap) as
      s.pc = .body → s.locals.hasSignal = false → testPort s.locals.inputPort 1 = true →
        SendsToKnown outside (posted as) s := by
  intro h
  -- four operations serve the signal, three more lead to the call
  obtain ⟨-, -, served, addr, hall, hknown, hsets⟩ := h (fun _ => 0) [thirdBackend] (fun _ => 2)
    (fun _ => 2) (.post thirdBackend :: List.replicate 4 .kernel
      ++ .produce 1 (({} : Flit).set 0 1) :: List.replicate 3 .kernel) (by decide) rfl rfl rfl
  have hserved : served = [thirdBackend] := (List.append_nil served).symm.trans hall
  have hlane : ((({} : Flit).set 0 1).set 2 0).get 2 = addr := by
    have hflit : (({} : Flit).set 0 1).set 2 0 = (({} : Flit).set 0 1).set 2 addr :=
      List.singleton_inj.mp hsets
    rw [hflit]
    exact Flit.get_set_self _ (by decide) (by decide) addr
  rw [Flit.get_set_self _ (by decide) (by decide)] at hlane
  rw [hserved, ← hlane] at hknown
  exact absurd hknown (by decide)

end OpenClickNP
