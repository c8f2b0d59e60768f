import OpenClickNP.Lib.Run

/-!
# `openclicknp_status.v`: the status block on AXI-Lite

The ready outputs are registers. On the read side `arready` stays up until the response is taken,
so an address that the master shows in the meantime is taken and never answered
(`readsAnswered_iff`). On the write side the response is raised where both valids happen to be up
and no response waits, not where the second of the two handshakes is made
(`writesAnswered_iff`).
-/

namespace OpenClickNP

open Run

/-- The inputs of `openclicknp_status` in a cycle, the clock aside. -/
structure StatusIn where
  rstn : Bool := true
  torRxPkt : Bool := false
  torTxPkt : Bool := false
  nicRxPkt : Bool := false
  nicTxPkt : Bool := false
  awaddr : BitVec 12 := 0
  awvalid : Bool := false
  wdata : UInt32 := 0
  wstrb : BitVec 4 := 0
  wvalid : Bool := false
  bready : Bool := false
  araddr : BitVec 12 := 0
  arvalid : Bool := false
  rready : Bool := false

/-! ## The module -/

structure StatusCounters where
  cycles : UInt64 := 0
  torRx : UInt32 := 0
  torTx : UInt32 := 0
  nicRx : UInt32 := 0
  nicTx : UInt32 := 0

/-- The registers of the read path. -/
structure StatusRead where
  arready : Bool := false
  rdata : UInt32 := 0
  rresp : BitVec 2 := 0
  rvalid : Bool := false

/-- The registers of the write path. -/
structure StatusWrite where
  awready : Bool := false
  wready : Bool := false
  bresp : BitVec 2 := 0
  bvalid : Bool := false

structure StatusRegs where
  counters : StatusCounters := {}
  read : StatusRead := {}
  write : StatusWrite := {}

/-- The first `always` block. -/
def nextCounters (c : StatusCounters) (i : StatusIn) : StatusCounters :=
  if !i.rstn then {}
  else
    { cycles := c.cycles + 1
      torRx := if i.torRxPkt then c.torRx + 1 else c.torRx
      torTx := if i.torTxPkt then c.torTx + 1 else c.torTx
      nicRx := if i.nicRxPkt then c.nicRx + 1 else c.nicRx
      nicTx := if i.nicTxPkt then c.nicTx + 1 else c.nicTx }

/-- The register that an address selects. -/
def statusReg (c : StatusCounters) (araddr : BitVec 12) : UInt32 :=
  match araddr.setWidth 8 with
  | 0x00#8 => c.cycles.toUInt32
  | 0x04#8 => (c.cycles >>> 32).toUInt32
  | 0x08#8 => c.torRx
  | 0x0C#8 => c.torTx
  | 0x10#8 => c.nicRx
  | 0x14#8 => c.nicTx
  | _ => 0

/-- The read path. -/
def nextRead (c : StatusCounters) (r : StatusRead) (i : StatusIn) : StatusRead :=
  if !i.rstn then {}
  else if i.arvalid && !r.arready then
    { r with arready := true, rdata := statusReg c i.araddr, rvalid := true }
  else if r.rvalid && i.rready then { r with rvalid := false, arready := false }
  else r

/-- The condition under which the write path raises `bvalid`. -/
def raises (w : StatusWrite) (i : StatusIn) : Bool := i.awvalid && i.wvalid && !w.bvalid

/-- The write path. -/
def nextWrite (w : StatusWrite) (i : StatusIn) : StatusWrite :=
  if !i.rstn then {}
  else
    { w with
      awready := i.awvalid && !w.awready
      wready := i.wvalid && !w.wready
      bvalid :=
        if raises w i then true else if w.bvalid && i.bready then false else w.bvalid }

/-- The registers after the clock edge. -/
def nextStatus (r : StatusRegs) (i : StatusIn) : StatusRegs where
  counters := nextCounters r.counters i
  read := nextRead r.counters r.read i
  write := nextWrite r.write i

/-- The reset is synchronous, and leaves nothing of the registers. -/
theorem nextStatus_reset (r : StatusRegs) {i : StatusIn} (h : i.rstn = false) :
    nextStatus r i = {} := by
  simp [nextStatus, nextCounters, nextRead, nextWrite, h]

/-! ## What is seen of a run -/

/-- A run so far: the registers, what they and the inputs were in the cycle before, and the
handshakes made. -/
structure StatusRun where
  regs : StatusRegs := {}
  before : StatusRegs := {}
  last : StatusIn := {}
  /-- For each address accepted, the register it selects as it was in the cycle before the
  handshake: there the address is looked at. -/
  accepted : List UInt32 := []
  /-- The data of the responses taken. -/
  answers : List UInt32 := []
  addresses : Nat := 0
  beats : Nat := 0
  responses : Nat := 0

namespace StatusRun

/-- The run that starts with a reset of the registers `r`. -/
def reset (r : StatusRegs) : StatusRun where
  regs := nextStatus r { rstn := false }

theorem regs_reset (r : StatusRegs) : (reset r).regs = {} := nextStatus_reset r rfl

/-- A cycle with the inputs `i`. -/
def cycle (s : StatusRun) (i : StatusIn) : StatusRun where
  regs := nextStatus s.regs i
  before := s.regs
  last := i
  accepted :=
    if i.arvalid && s.regs.read.arready then
      s.accepted ++ [statusReg s.before.counters i.araddr]
    else s.accepted
  answers :=
    if s.regs.read.rvalid && i.rready then s.answers ++ [s.regs.read.rdata] else s.answers
  addresses := s.addresses + (i.awvalid && s.regs.write.awready).toNat
  beats := s.beats + (i.wvalid && s.regs.write.wready).toNat
  responses := s.responses + (s.regs.write.bvalid && i.bready).toNat

/-- Every input is possible. -/
def step (s : StatusRun) (i : StatusIn) : Option StatusRun := some (s.cycle i)

end StatusRun

open StatusRun (step reset)

/-! ## Reads -/

/-- What a master promises on the read channels: an address stays until it is taken. -/
def HoldsAddress (s : StatusRun) (i : StatusIn) : Prop :=
  i.rstn = true ∧
    (s.last.arvalid = true → s.before.read.arready = false →
      i.arvalid = true ∧ i.araddr = s.last.araddr)

instance (s : StatusRun) (i : StatusIn) : Decidable (HoldsAddress s i) :=
  inferInstanceAs (Decidable (_ ∧ (_ → _ → _ ∧ _)))

/-- No more than one read waits for its response, which is then there to be taken, and the
responses taken belong to the addresses accepted, in their order. -/
def ReadsAnswered (s : StatusRun) : Prop :=
  (s.accepted.length = s.answers.length ∨ s.accepted.length = s.answers.length + 1) ∧
    s.answers <+: s.accepted ∧
    (s.answers.length < s.accepted.length → s.regs.read.rvalid = true)

/-- No address is shown while a read that was accepted waits for its response. -/
def ReadAlone (s : StatusRun) (i : StatusIn) : Prop :=
  i.arvalid = true → s.accepted.length = s.answers.length

instance (s : StatusRun) (i : StatusIn) : Decidable (ReadAlone s i) :=
  inferInstanceAs (Decidable (_ → _))

/-- How far the read path is with a read. -/
inductive ReadPhase (s : StatusRun) : Prop
  | idle (harready : s.regs.read.arready = false) (hrvalid : s.regs.read.rvalid = false)
    (hanswers : s.accepted = s.answers)
  | seen (harready : s.regs.read.arready = true) (hrvalid : s.regs.read.rvalid = true)
    (hanswers : s.accepted = s.answers) (harvalid : s.last.arvalid = true)
    (hbefore : s.before.read.arready = false)
    (hrdata : s.regs.read.rdata = statusReg s.before.counters s.last.araddr)
  | waiting (harready : s.regs.read.arready = true) (hrvalid : s.regs.read.rvalid = true)
    (hanswers : s.accepted = s.answers ++ [s.regs.read.rdata])

theorem readPhase_reset (r : StatusRegs) : ReadPhase (reset r) :=
  .idle (by rw [StatusRun.regs_reset]) (by rw [StatusRun.regs_reset]) rfl

theorem ReadPhase.answered {s : StatusRun} (h : ReadPhase s) : ReadsAnswered s := by
  cases h with
  | idle _ _ hanswers =>
    rw [ReadsAnswered, hanswers]
    exact ⟨Or.inl rfl, List.prefix_rfl, fun hlt => absurd hlt (Nat.lt_irrefl _)⟩
  | seen _ _ hanswers _ _ _ =>
    rw [ReadsAnswered, hanswers]
    exact ⟨Or.inl rfl, List.prefix_rfl, fun hlt => absurd hlt (Nat.lt_irrefl _)⟩
  | waiting _ hrvalid hanswers =>
    rw [ReadsAnswered, hanswers]
    exact ⟨Or.inr List.length_append, List.prefix_append _ _, fun _ => hrvalid⟩

section

variable {s : StatusRun} {i : StatusIn}

theorem nextRead_seen {c : StatusCounters} {r : StatusRead} (hrstn : i.rstn = true)
    (harvalid : i.arvalid = true) (harready : r.arready = false) :
    nextRead c r i = { r with arready := true, rdata := statusReg c i.araddr, rvalid := true } := by
  simp [nextRead, hrstn, harvalid, harready]

theorem nextRead_taken {c : StatusCounters} {r : StatusRead} (hrstn : i.rstn = true)
    (harready : r.arready = true) (hrvalid : r.rvalid = true) (hrready : i.rready = true) :
    nextRead c r i = { r with rvalid := false, arready := false } := by
  simp [nextRead, hrstn, harready, hrvalid, hrready]

theorem nextRead_waits {c : StatusCounters} {r : StatusRead} (hrstn : i.rstn = true)
    (harready : r.arready = true) (hrready : i.rready = false) : nextRead c r i = r := by
  simp [nextRead, hrstn, harready, hrready]

theorem nextRead_idle {c : StatusCounters} {r : StatusRead} (hrstn : i.rstn = true)
    (harvalid : i.arvalid = false) (hrvalid : r.rvalid = false) : nextRead c r i = r := by
  simp [nextRead, hrstn, harvalid, hrvalid]

/-- A cycle in which no second address is shown: one case for each phase, and in it whether the
response is taken. -/
theorem ReadPhase.cycle (h : ReadPhase s) (henv : HoldsAddress s i) (hok : ReadAlone s i) :
    ReadPhase (s.cycle i) := by
  obtain ⟨hrstn, hhold⟩ := henv
  cases h with
  | idle harready hrvalid hanswers =>
    cases harvalid : i.arvalid with
    | false =>
      have hread := nextRead_idle (c := s.regs.counters) hrstn harvalid hrvalid
      refine .idle ?_ ?_ ?_
      · simp only [StatusRun.cycle, nextStatus, hread, harready]
      · simp only [StatusRun.cycle, nextStatus, hread, hrvalid]
      · simp only [StatusRun.cycle, harready, hrvalid, Bool.and_false, Bool.false_and,
          Bool.false_eq_true, if_false, hanswers]
    | true =>
      have hread := nextRead_seen (c := s.regs.counters) hrstn harvalid harready
      refine .seen ?_ ?_ ?_ harvalid harready ?_
      · simp only [StatusRun.cycle, nextStatus, hread]
      · simp only [StatusRun.cycle, nextStatus, hread]
      · simp only [StatusRun.cycle, harready, hrvalid, Bool.and_false, Bool.false_and,
          Bool.false_eq_true, if_false, hanswers]
      · simp only [StatusRun.cycle, nextStatus, hread]
  | seen harready hrvalid hanswers hlast hbefore hrdata =>
    -- the address is still there, and is taken
    obtain ⟨harvalid, haddr⟩ := hhold hlast hbefore
    rw [← haddr] at hrdata
    cases hrready : i.rready with
    | false =>
      have hread := nextRead_waits (c := s.regs.counters) hrstn harready hrready
      refine .waiting ?_ ?_ ?_
      · simp only [StatusRun.cycle, nextStatus, hread, harready]
      · simp only [StatusRun.cycle, nextStatus, hread, hrvalid]
      · simp only [StatusRun.cycle, nextStatus, hread, harvalid, harready, hrready, Bool.and_self,
          Bool.and_false, Bool.false_eq_true, if_true, if_false, hanswers, hrdata]
    | true =>
      have hread := nextRead_taken (c := s.regs.counters) hrstn harready hrvalid hrready
      refine .idle ?_ ?_ ?_
      · simp only [StatusRun.cycle, nextStatus, hread]
      · simp only [StatusRun.cycle, nextStatus, hread]
      · simp only [StatusRun.cycle, harvalid, harready, hrvalid, hrready, Bool.and_self, if_true,
          hanswers, hrdata]
  | waiting harready hrvalid hanswers =>
    have harvalid : i.arvalid = false := by
      refine Bool.eq_false_iff.mpr fun harvalid => ?_
      have hlen := hok harvalid
      rw [hanswers, List.length_append] at hlen
      exact absurd hlen (by simp)
    cases hrready : i.rready with
    | false =>
      have hread := nextRead_waits (c := s.regs.counters) hrstn harready hrready
      refine .waiting ?_ ?_ ?_
      · simp only [StatusRun.cycle, nextStatus, hread, harready]
      · simp only [StatusRun.cycle, nextStatus, hread, hrvalid]
      · simp only [StatusRun.cycle, nextStatus, hread, harvalid, hrready, Bool.and_false,
          Bool.false_and, Bool.false_eq_true, if_false, hanswers]
    | true =>
      have hread := nextRead_taken (c := s.regs.counters) hrstn harready hrvalid hrready
      refine .idle ?_ ?_ ?_
      · simp only [StatusRun.cycle, nextStatus, hread]
      · simp only [StatusRun.cycle, nextStatus, hread]
      · simp only [StatusRun.cycle, harvalid, hrvalid, hrready, Bool.and_self, Bool.false_and,
          Bool.false_eq_true, if_true, if_false, hanswers]

/-- A second address is taken at once, whether or not the response is taken with it. -/
theorem ReadPhase.overlap (h : ReadPhase s) (henv : HoldsAddress s i) (hok : ¬ ReadAlone s i) :
    ¬ ReadsAnswered (s.cycle i) := by
  obtain ⟨hrstn, -⟩ := henv
  obtain ⟨harvalid, hlen⟩ := Classical.not_imp.mp hok
  cases h with
  | idle _ _ hanswers => exact absurd (congrArg List.length hanswers) hlen
  | seen _ _ hanswers _ _ _ => exact absurd (congrArg List.length hanswers) hlen
  | waiting harready hrvalid hanswers =>
    have haccepted : (s.cycle i).accepted.length = s.answers.length + 2 := by
      simp only [StatusRun.cycle, harvalid, harready, Bool.and_self, if_true, hanswers,
        List.length_append, List.length_singleton]
    rintro ⟨hcount, -, hpending⟩
    cases hrready : i.rready with
    | false =>
      have hanswered : (s.cycle i).answers = s.answers := by
        simp only [StatusRun.cycle, hrready, Bool.and_false, Bool.false_eq_true, if_false]
      rw [haccepted, hanswered] at hcount
      omega
    | true =>
      -- the response is gone, and the second read still waits
      have hanswered : (s.cycle i).answers.length = s.answers.length + 1 := by
        simp only [StatusRun.cycle, hrvalid, hrready, Bool.and_self, if_true, List.length_append,
          List.length_singleton]
      have hgone : (s.cycle i).regs.read.rvalid = false := by
        simp only [StatusRun.cycle, nextStatus,
          nextRead_taken (c := s.regs.counters) hrstn harready hrvalid hrready]
      rw [hgone] at hpending
      exact Bool.false_ne_true (hpending (by omega))

end

/-- **When every read is answered.** In a run after reset whose master holds each address until it
is taken, every read is answered exactly when no address is shown while an accepted read waits. -/
theorem readsAnswered_iff (r : StatusRegs) (ins : List StatusIn)
    (henv : Meets step HoldsAddress (reset r) ins) :
    Along step ReadsAnswered (reset r) ins ↔ Meets step ReadAlone (reset r) ins := by
  refine along_iff_meets_while_of ReadPhase (fun _ => ReadPhase.answered) ?_ ?_ ins henv
    (readPhase_reset r)
  · intro s i t h henv ht hok
    obtain rfl := Option.some.inj ht
    exact h.cycle henv hok
  · intro s i t h henv ht hok
    obtain rfl := Option.some.inj ht
    exact h.overlap henv hok

/-- A read of the packets received on the ToR side, answered at once. -/
def oneRead : List StatusIn :=
  [{ araddr := 0x08, arvalid := true }, { araddr := 0x08, arvalid := true, rready := true }, {}]

theorem readsAnswered_oneRead : Along step ReadsAnswered (reset {}) oneRead :=
  (readsAnswered_iff {} oneRead (by decide)).mpr (by decide)

/-- Two addresses one behind the other, while the master is not yet ready for the first
response. -/
def twoReads : List StatusIn :=
  [{ araddr := 0x08, arvalid := true }, { araddr := 0x08, arvalid := true },
    { araddr := 0x0C, arvalid := true }]

/-- Both are taken, and the one response there is waits. -/
theorem read_lost :
    ¬ ∀ (r : StatusRegs) (ins : List StatusIn), Meets step HoldsAddress (reset r) ins →
      Along step ReadsAnswered (reset r) ins := by
  intro h
  have hcount := (h {} twoReads (by decide)).exec.1
  revert hcount
  decide

/-! ## Writes -/

/-- What a master promises on the write channels: an address and a datum stay until they are
taken. -/
def HoldsWrite (s : StatusRun) (i : StatusIn) : Prop :=
  i.rstn = true ∧
    (s.last.awvalid = true → s.before.write.awready = false →
      i.awvalid = true ∧ i.awaddr = s.last.awaddr) ∧
    (s.last.wvalid = true → s.before.write.wready = false →
      i.wvalid = true ∧ i.wdata = s.last.wdata ∧ i.wstrb = s.last.wstrb)

instance (s : StatusRun) (i : StatusIn) : Decidable (HoldsWrite s i) :=
  inferInstanceAs (Decidable (_ ∧ (_ → _ → _ ∧ _) ∧ (_ → _ → _ ∧ _ ∧ _)))

namespace StatusRun

/-- The writes accepted: both handshakes are made. -/
def writes (s : StatusRun) : Nat := min s.addresses s.beats

/-- The last cycle raised a response. -/
def raised (s : StatusRun) : Bool := raises s.before.write s.last

/-- The responses raised. -/
def raisedCount (s : StatusRun) : Nat := s.responses + s.regs.write.bvalid.toNat

/-- Nothing is going on on the write channels. -/
def WriteIdle (s : StatusRun) : Prop :=
  s.regs.write.awready = false ∧ s.regs.write.wready = false ∧ s.regs.write.bvalid = false

end StatusRun

/-- No response without a write, and where nothing is going on none is missing. -/
def WritesAnswered (s : StatusRun) : Prop :=
  s.responses ≤ s.writes ∧ (s.WriteIdle → s.writes = s.responses)

/-- The handshakes of the cycle complete a write. -/
def Completes (s : StatusRun) (i : StatusIn) : Prop :=
  s.writes < min (s.addresses + (i.awvalid && s.regs.write.awready).toNat)
    (s.beats + (i.wvalid && s.regs.write.wready).toNat)

/-- The handshake that completes a write has, in one of the two cycles in which its valid is up,
the other valid up as well and `bvalid` low. -/
def WriteMeets (s : StatusRun) (i : StatusIn) : Prop :=
  Completes s i → s.raised = true ∨ raises s.regs.write i = true

instance (s : StatusRun) (i : StatusIn) : Decidable (WriteMeets s i) :=
  inferInstanceAs (Decidable (_ < _ → _ ∨ _))

/-- What the registers say of the cycle before. -/
structure WriteRegs (s : StatusRun) : Prop where
  awready : s.regs.write.awready = (s.last.awvalid && !s.before.write.awready)
  wready : s.regs.write.wready = (s.last.wvalid && !s.before.write.wready)
  bvalid : s.raised = true → s.regs.write.bvalid = true

theorem writeRegs_reset (r : StatusRegs) : WriteRegs (reset r) where
  awready := by rw [StatusRun.regs_reset]; rfl
  wready := by rw [StatusRun.regs_reset]; rfl
  bvalid := fun h => absurd h Bool.false_ne_true

/-- What a cycle does on the write channels. A beat whose ready is up is there, so it is taken;
and a response is never raised in both cycles of a beat. -/
structure WriteStep (s t : StatusRun) : Prop where
  addresses : t.addresses = s.addresses + s.regs.write.awready.toNat
  beats : t.beats = s.beats + s.regs.write.wready.toNat
  count : t.raisedCount = s.raisedCount + t.raised.toNat
  raised : t.raised = true → s.raised = false ∧
    t.regs.write.awready = !s.regs.write.awready ∧ t.regs.write.wready = !s.regs.write.wready

section

variable {s t : StatusRun} {i : StatusIn}

theorem WriteRegs.awvalid (h : WriteRegs s) (henv : HoldsWrite s i)
    (hready : s.regs.write.awready = true) : i.awvalid = true := by
  rw [h.awready, Bool.and_eq_true, Bool.not_eq_true'] at hready
  exact (henv.2.1 hready.1 hready.2).1

theorem WriteRegs.wvalid (h : WriteRegs s) (henv : HoldsWrite s i)
    (hready : s.regs.write.wready = true) : i.wvalid = true := by
  rw [h.wready, Bool.and_eq_true, Bool.not_eq_true'] at hready
  exact (henv.2.2 hready.1 hready.2).1

theorem WriteRegs.completes_iff (h : WriteRegs s) (henv : HoldsWrite s i) :
    Completes s i ↔ s.writes < min (s.addresses + s.regs.write.awready.toNat)
      (s.beats + s.regs.write.wready.toNat) := by
  have haw : (i.awvalid && s.regs.write.awready) = s.regs.write.awready := by
    cases hready : s.regs.write.awready with
    | false => rw [Bool.and_false]
    | true => rw [h.awvalid henv hready, Bool.and_self]
  have hw : (i.wvalid && s.regs.write.wready) = s.regs.write.wready := by
    cases hready : s.regs.write.wready with
    | false => rw [Bool.and_false]
    | true => rw [h.wvalid henv hready, Bool.and_self]
  rw [Completes, haw, hw]

theorem WriteRegs.cycle (hrstn : i.rstn = true) : WriteRegs (s.cycle i) where
  awready := by simp [StatusRun.cycle, nextStatus, nextWrite, hrstn]
  wready := by simp [StatusRun.cycle, nextStatus, nextWrite, hrstn]
  bvalid h := by
    have hraises : raises s.regs.write i = true := h
    simp [StatusRun.cycle, nextStatus, nextWrite, hrstn, hraises]

theorem WriteRegs.writeStep (h : WriteRegs s) (henv : HoldsWrite s i) :
    WriteStep s (s.cycle i) where
  addresses := by
    cases hready : s.regs.write.awready with
    | false => simp [StatusRun.cycle, hready]
    | true => simp [StatusRun.cycle, hready, h.awvalid henv hready]
  beats := by
    cases hready : s.regs.write.wready with
    | false => simp [StatusRun.cycle, hready]
    | true => simp [StatusRun.cycle, hready, h.wvalid henv hready]
  count := by
    have hrstn := henv.1
    show s.responses + (s.regs.write.bvalid && i.bready).toNat
      + (nextWrite s.regs.write i).bvalid.toNat
        = s.responses + s.regs.write.bvalid.toNat + (raises s.regs.write i).toNat
    unfold nextWrite raises
    cases s.regs.write.bvalid <;> cases i.bready <;> cases i.awvalid <;> cases i.wvalid <;>
      simp [hrstn]
  raised hraised := by
    have hraises : raises s.regs.write i = true := hraised
    simp only [raises, Bool.and_eq_true, Bool.not_eq_true'] at hraises
    obtain ⟨⟨haw, hw⟩, hbvalid⟩ := hraises
    refine ⟨Bool.eq_false_iff.mpr fun hq => ?_, ?_, ?_⟩
    · rw [h.bvalid hq] at hbvalid
      cases hbvalid
    · simp [StatusRun.cycle, nextStatus, nextWrite, henv.1, haw]
    · simp [StatusRun.cycle, nextStatus, nextWrite, henv.1, hw]

end

/-! ### Responses against writes -/

namespace StatusRun

/-- The addresses that may have had a response raised: those accepted, and the one under way when
the last cycle raised one. -/
def metAddresses (s : StatusRun) : Nat :=
  s.addresses + (s.regs.write.awready && s.raised).toNat

def metBeats (s : StatusRun) : Nat := s.beats + (s.regs.write.wready && s.raised).toNat

end StatusRun

/-- No beat has had two responses. -/
structure NoneTwice (s : StatusRun) : Prop where
  regs : WriteRegs s
  addresses : s.raisedCount ≤ s.metAddresses
  beats : s.raisedCount ≤ s.metBeats

/-- Every write accepted has had its response raised. -/
structure NoneMissing (s : StatusRun) : Prop extends NoneTwice s where
  writes : s.writes ≤ s.raisedCount
  /-- What the last cycle raised is for a write that is complete with this one. -/
  underWay : s.raised = true →
    min (s.addresses + s.regs.write.awready.toNat) (s.beats + s.regs.write.wready.toNat)
      ≤ s.raisedCount

/-- A write has gone without a response. -/
structure OneMissing (s : StatusRun) : Prop where
  regs : WriteRegs s
  addresses : s.raisedCount < s.metAddresses
  beats : s.raisedCount < s.metBeats

section

variable {s t : StatusRun}

/-- A cycle that raises a response does so for one more beat of each channel. -/
theorem WriteStep.met (h : WriteStep s t) :
    s.metAddresses + t.raised.toNat ≤ t.metAddresses ∧
      s.metBeats + t.raised.toNat ≤ t.metBeats := by
  unfold StatusRun.metAddresses StatusRun.metBeats
  rw [h.addresses, h.beats]
  cases hraised : t.raised with
  | false =>
    have hle : ∀ b q : Bool, (b && q).toNat ≤ b.toNat := by decide
    have haw := hle s.regs.write.awready s.raised
    have hw := hle s.regs.write.wready s.raised
    simp only [Bool.and_false, Bool.toNat_false]
    omega
  | true =>
    obtain ⟨hs, haw, hw⟩ := h.raised hraised
    rw [hs, haw, hw]
    cases s.regs.write.awready <;> cases s.regs.write.wready <;> simp

theorem NoneTwice.step (hs : NoneTwice s) (h : WriteStep s t) (ht : WriteRegs t) :
    NoneTwice t := by
  have hmet := h.met
  have haddresses := hs.addresses
  have hbeats := hs.beats
  refine ⟨ht, ?_, ?_⟩
  · rw [h.count]
    omega
  · rw [h.count]
    omega

theorem OneMissing.step (hs : OneMissing s) (h : WriteStep s t) (ht : WriteRegs t) :
    OneMissing t := by
  have hmet := h.met
  have haddresses := hs.addresses
  have hbeats := hs.beats
  refine ⟨ht, ?_, ?_⟩
  · rw [h.count]
    omega
  · rw [h.count]
    omega

/-- A response waits or has been taken for each one raised, so none is taken before its write. -/
theorem NoneTwice.responses_le (h : NoneTwice s) : s.responses ≤ s.writes := by
  have haddresses := h.addresses
  have hbeats := h.beats
  have hraised := h.regs.bvalid
  unfold StatusRun.raisedCount StatusRun.metAddresses at haddresses
  unfold StatusRun.raisedCount StatusRun.metBeats at hbeats
  unfold StatusRun.writes
  cases hq : s.raised with
  | false =>
    rw [hq, Bool.and_false, Bool.toNat_false] at haddresses hbeats
    omega
  | true =>
    -- what the last cycle raised has not been taken yet
    rw [hraised hq, Bool.toNat_true] at haddresses hbeats
    have haw := Bool.toNat_le (s.regs.write.awready && s.raised)
    have hw := Bool.toNat_le (s.regs.write.wready && s.raised)
    omega

theorem StatusRun.WriteIdle.raisedCount (h : s.WriteIdle) : s.raisedCount = s.responses := by
  rw [StatusRun.raisedCount, h.2.2, Bool.toNat_false, Nat.add_zero]

theorem NoneMissing.answered (h : NoneMissing s) : WritesAnswered s := by
  refine ⟨h.responses_le, fun hidle => ?_⟩
  have hwrites := h.writes
  rw [hidle.raisedCount] at hwrites
  exact Nat.le_antisymm hwrites h.responses_le

theorem OneMissing.not_answered (h : OneMissing s) (hidle : s.WriteIdle) :
    ¬ WritesAnswered s := by
  intro hanswered
  have haddresses := h.addresses
  have hbeats := h.beats
  have heq := hanswered.2 hidle
  rw [hidle.raisedCount, StatusRun.metAddresses, hidle.1, Bool.false_and, Bool.toNat_false]
    at haddresses
  rw [hidle.raisedCount, StatusRun.metBeats, hidle.2.1, Bool.false_and, Bool.toNat_false]
    at hbeats
  unfold StatusRun.writes at heq
  omega

theorem noneMissing_reset (r : StatusRegs) : NoneMissing (reset r) := by
  have hcount : (reset r).raisedCount = 0 := by
    rw [StatusRun.raisedCount, StatusRun.regs_reset]
    rfl
  refine ⟨⟨writeRegs_reset r, ?_, ?_⟩, ?_, fun h => absurd h Bool.false_ne_true⟩
  · rw [hcount]
    exact Nat.zero_le _
  · rw [hcount]
    exact Nat.zero_le _
  · exact Nat.zero_le _

variable {i : StatusIn}

/-- A write that is completed with its response keeps all answered. -/
theorem NoneMissing.cycle (hs : NoneMissing s) (henv : HoldsWrite s i) (hok : WriteMeets s i) :
    NoneMissing (s.cycle i) := by
  have h := hs.regs.writeStep henv
  have hregs := WriteRegs.cycle (s := s) henv.1
  have hcompletes := hs.regs.completes_iff henv
  have hwrites := hs.writes
  have hunder := hs.underWay
  have haw := Bool.toNat_le s.regs.write.awready
  have hw := Bool.toNat_le s.regs.write.wready
  refine ⟨hs.toNoneTwice.step h hregs, ?_, fun hraised => ?_⟩
  · rw [h.count, StatusRun.writes, h.addresses, h.beats]
    by_cases hc : Completes s i
    · rcases hok hc with hq | hnow
      · have hle := hunder hq
        omega
      · have hnow' : (s.cycle i).raised = true := hnow
        rw [hnow', Bool.toNat_true]
        unfold StatusRun.writes at hwrites
        omega
    · rw [hcompletes] at hc
      omega
  · -- each channel is in one of the two cycles of its beat
    obtain ⟨-, haw', hw'⟩ := h.raised hraised
    rw [h.count, hraised, h.addresses, h.beats, haw', hw', Bool.toNat_true]
    unfold StatusRun.writes at hwrites
    cases s.regs.write.awready <;> cases s.regs.write.wready <;> simp <;> omega

/-- A write that is completed without its response never gets it. -/
theorem NoneTwice.cycle_of_not_meets (hs : NoneTwice s) (henv : HoldsWrite s i)
    (hok : ¬ WriteMeets s i) : OneMissing (s.cycle i) := by
  have h := hs.regs.writeStep henv
  obtain ⟨hc, hnone⟩ := Classical.not_imp.mp hok
  obtain ⟨hq, hnow⟩ := not_or.mp hnone
  have hq := Bool.eq_false_iff.mpr hq
  have hnow' : (s.cycle i).raised = false := Bool.eq_false_iff.mpr hnow
  have haddresses := hs.addresses
  have hbeats := hs.beats
  rw [hs.regs.completes_iff henv] at hc
  rw [StatusRun.metAddresses, hq, Bool.and_false, Bool.toNat_false] at haddresses
  rw [StatusRun.metBeats, hq, Bool.and_false, Bool.toNat_false] at hbeats
  refine ⟨WriteRegs.cycle henv.1, ?_, ?_⟩
  · rw [h.count, StatusRun.metAddresses, hnow', Bool.and_false, Bool.toNat_false, h.addresses]
    unfold StatusRun.writes at hc
    omega
  · rw [h.count, StatusRun.metBeats, hnow', Bool.and_false, Bool.toNat_false, h.beats]
    unfold StatusRun.writes at hc
    omega

end

/-- **When every write is answered.** In a run after reset whose master holds each address and each
datum until it is taken: if every write is completed with the other valid up and `bvalid` low, then
every write is answered, in every state; and if the run comes to rest, only then. -/
theorem writesAnswered_iff (r : StatusRegs) (ins : List StatusIn)
    (henv : Meets step HoldsWrite (reset r) ins) :
    (Meets step WriteMeets (reset r) ins → Along step WritesAnswered (reset r) ins) ∧
      ((exec step (reset r) ins).WriteIdle → Along step WritesAnswered (reset r) ins →
        Meets step WriteMeets (reset r) ins) := by
  constructor
  · intro hmeets
    refine hmeets.along NoneMissing (fun _ h => h.answered) (fun s i t hs henv hok ht => ?_) henv
      (noneMissing_reset r)
    obtain rfl := Option.some.inj ht
    exact hs.cycle henv hok
  · intro hidle halong
    refine Classical.byContradiction fun hmeets => ?_
    refine OneMissing.not_answered (exec_of_not_meets NoneMissing ?_ ?_ ?_ henv
      (noneMissing_reset r) hmeets) hidle halong.exec
    · intro s i t hs henv ht hok
      obtain rfl := Option.some.inj ht
      exact hs.cycle henv hok
    · intro s i t hs henv ht hok
      obtain rfl := Option.some.inj ht
      exact hs.toNoneTwice.cycle_of_not_meets henv hok
    · intro s i t hs henv ht
      obtain rfl := Option.some.inj ht
      exact hs.step (hs.regs.writeStep henv) (WriteRegs.cycle henv.1)

/-- In any case no response is taken before its write is complete. -/
theorem responses_le_writes (r : StatusRegs) (ins : List StatusIn)
    (henv : Meets step HoldsWrite (reset r) ins) :
    Along step (fun s => s.responses ≤ s.writes) (reset r) ins := by
  refine henv.along NoneTwice (fun _ h => h.responses_le) (fun s i t hs henv _ ht => ?_) henv
    (noneMissing_reset r).toNoneTwice
  obtain rfl := Option.some.inj ht
  exact hs.step (hs.regs.writeStep henv) (WriteRegs.cycle henv.1)

/-- A write of which address and datum come together, answered at once. -/
def oneWrite : List StatusIn :=
  [{ awvalid := true, wvalid := true }, { awvalid := true, wvalid := true, bready := true }, {}]

theorem writesAnswered_oneWrite : Along step WritesAnswered (reset {}) oneWrite :=
  (writesAnswered_iff {} oneWrite (by decide)).1 (by decide)

/-- A write whose datum comes after its address has been taken. -/
def skewedWrite : List StatusIn :=
  [{ awvalid := true }, { awvalid := true }, { wvalid := true }, { wvalid := true }, {}]

/-- It is never answered. -/
theorem write_lost :
    ¬ ∀ (r : StatusRegs) (ins : List StatusIn), Meets step HoldsWrite (reset r) ins →
      Along step WritesAnswered (reset r) ins := by
  intro h
  have hidle := (h {} skewedWrite (by decide)).exec.2
  revert hidle
  unfold StatusRun.WriteIdle
  decide

end OpenClickNP
