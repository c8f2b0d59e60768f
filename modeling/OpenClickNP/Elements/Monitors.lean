import OpenClickNP.Elements.Counter
import OpenClickNP.Elements.Forwarding
import OpenClickNP.Lib.LastWrite

/-!
# Elements that watch the traffic

`Capture.clnp` keeps the last 256 flits for the host to read (`capture_answers`); `FlitCount.clnp`
and `MetaGen.clnp` report what they have seen with every 1024th flit (`windows_report`); the sinks
`DropElem.clnp`, `Dump.clnp` and `Receiver.clnp` count what they swallow (`sinks_count`).
-/

namespace OpenClickNP

open Run

/-! ## `Capture.clnp` -/

/-- `CAP` is not 0. -/
local instance neZeroCap : NeZero 256 := ⟨by decide⟩

namespace Capture

/-- The `.state` block; `head` is below `CAP`. -/
structure State where
  buf : Fin 256 → Flit
  head : Fin 256
  total : UInt64

/-- The `.init` block. -/
def init (memory : Fin 256 → Flit) : State := { buf := memory, head := 0, total := 0 }

/-- What a flit does to the state. -/
def State.next (st : State) (f : Flit) : State where
  buf := Function.update st.buf st.head f
  head := st.head + 1
  total := st.total + 1

/-- What a signal is answered for a total and a buffer: the total, and with command 1 the lanes of
the flit at an index. -/
def answer (total : UInt64) (buf : Fin 256 → Flit) (event : ClSignal) : ClSignal :=
  let lparam := Function.update event.lparam 0 total
  if h : event.cmd = 1 ∧ event.sparam.toNat < 256 then
    let f := buf ⟨event.sparam.toNat, h.2⟩
    { event with
      lparam := Function.update (Function.update (Function.update (Function.update lparam 1
        (f.get 0)) 2 (f.get 1)) 3 (f.get 2)) 4 (f.get 3) }
  else { event with lparam := lparam }

end Capture

/-- `Capture`. -/
def captureFn : KernelFn Capture.State Flit :=
  forwarding Capture.State.next (fun _ f => f) fun v =>
    { state := v.state, ops := [], ret := none,
      outevent := Capture.answer v.state.total v.state.buf v.event }

namespace Capture

/-- A flit goes to the index that its number leaves modulo 256. -/
def numbered (x : Flit × Nat) : Option (Fin 256 × Flit) := some (Fin.ofNat 256 x.2, x.1)

/-- What stands at an index behind some flits: the last of them that has gone there. -/
def captured (memory : Fin 256 → Flit) (fs : List Flit) (i : Fin 256) : Flit :=
  (LastWrite.last numbered fs.zipIdx i).getD (memory i)

theorem captured_concat (memory : Fin 256 → Flit) (fs : List Flit) (f : Flit) :
    captured memory (fs ++ [f])
      = Function.update (captured memory fs) (Fin.ofNat 256 fs.length) f := by
  funext i
  unfold captured
  rw [List.zipIdx_append, ← LastWrite.foldl_write, List.foldl_append]
  show LastWrite.write numbered _ (f, 0 + fs.length) i = _
  rw [Nat.zero_add]
  show Function.update (fs.zipIdx.foldl (LastWrite.write numbered) memory) _ f i = _
  rw [funext (LastWrite.foldl_write memory fs.zipIdx)]

theorem foldl_next (memory : Fin 256 → Flit) (fs : List Flit) :
    fs.foldl State.next (init memory)
      = { buf := captured memory fs, head := Fin.ofNat 256 fs.length,
          total := UInt64.ofNat fs.length } := by
  induction fs using List.reverseRecOn with
  | nil => rfl
  | append_singleton fs f ih =>
    rw [List.foldl_append, ih, captured_concat, List.length_append]
    show State.mk _ (Fin.ofNat 256 fs.length + 1) (UInt64.ofNat fs.length + 1) = _
    rw [List.length_singleton, UInt64.ofNat_add]
    congr 1
    apply Fin.ext
    simp [Fin.val_add]

end Capture

/-- The reports on some flits: one behind each 1024 of them, on all up to there. -/
def windowReports (report : List Flit → Flit) (fs : List Flit) : List Flit :=
  (List.range (fs.length / 1024)).map fun k => report (fs.take (1024 * (k + 1)))

/-- The next flit is reported on if it fills a window. -/
theorem windowReports_concat (report : List Flit → Flit) (fs : List Flit) (f : Flit) :
    windowReports report (fs ++ [f]) = windowReports report fs ++
      if (fs.length + 1) % 1024 = 0 then [report (fs ++ [f])] else [] := by
  have hold : ∀ k < fs.length / 1024,
      (fs ++ [f]).take (1024 * (k + 1)) = fs.take (1024 * (k + 1)) := fun k hk =>
    List.take_append_of_le_length (by omega)
  unfold windowReports
  rw [List.length_append, List.length_singleton]
  split
  · rename_i hfull
    have hmore : (fs.length + 1) / 1024 = fs.length / 1024 + 1 := by omega
    rw [hmore, List.range_succ, List.map_append, List.map_singleton]
    congr 1
    · refine List.map_congr_left fun k hk => ?_
      rw [hold k (List.mem_range.mp hk)]
    · rw [List.take_of_length_le (by simp; omega)]
  · have hsame : (fs.length + 1) / 1024 = fs.length / 1024 := by omega
    rw [hsame, List.append_nil]
    refine List.map_congr_left fun k hk => ?_
    rw [hold k (List.mem_range.mp hk)]

/-- An element that forwards and reports on port 2 what its state says of the flits so far. -/
theorem sent_windows {σ : Type} {next : σ → Flit → σ} {tap : σ → Flit → Option Flit} {st : σ}
    {report : List Flit → Flit} {I : σ → List Flit → Prop} (hinit : I st [])
    (hnext : ∀ st fs f, I st fs → I (next st f) (fs ++ [f]))
    (htap : ∀ st fs f, I st fs →
      tap st f = if (fs.length + 1) % 1024 = 0 then some (report (fs ++ [f])) else none)
    (inCap outCap : Nat → Int) (as : List (KernelAction Flit)) :
    let t := exec (kstep (tapping next tap)) (kinit st inCap outCap) as
    t.sent 1 = t.taken 1 ∧ t.sent 2 = windowReports report (t.taken 1) := by
  obtain ⟨served, -, -, hone, htwo⟩ := (acts_tapping next tap).inv (fun st _ => st)
    (fun _ req => req) (fun _ => rfl) (fun _ => rfl)
    (Q := fun st _ taken sent _ =>
      I st taken ∧ sent 1 = taken ∧ sent 2 = windowReports report taken)
    ⟨hinit, rfl, rfl⟩
    (fun st _ taken sent _ f ⟨hst, hone, htwo⟩ => by
      refine ⟨hnext st taken f hst, ?_, ?_⟩
      · show sent 1 ++ (((1, f) :: (tap st f).toList.map ((2, ·))).filter _).map _ = _
        rw [hone]
        cases tap st f <;> rfl
      · show sent 2 ++ (((1, f) :: (tap st f).toList.map ((2, ·))).filter _).map _ = _
        rw [htwo, windowReports_concat, htap st taken f hst]
        split <;> rfl)
    (fun _ _ _ _ _ _ h => h) inCap outCap as
  exact ⟨hone, htwo⟩

/-- The `.state` block of `FlitCount`. -/
structure FlitCountState where
  count : UInt64
  window : UInt32

/-- The `.init` block of `FlitCount`. -/
def flitCountInit : FlitCountState := { count := 0, window := 0 }

/-- What a flit does to the state of `FlitCount`. -/
def FlitCountState.next (st : FlitCountState) (_ : Flit) : FlitCountState :=
  if st.window + 1 = 1024 then { count := st.count + 1, window := 0 }
  else { count := st.count + 1, window := st.window + 1 }

/-- What `FlitCount` reports with a flit. -/
def FlitCountState.tap (st : FlitCountState) (_ : Flit) : Option Flit :=
  if st.window + 1 = 1024 then some (Flit.single (st.count + 1)) else none

/-- `FlitCount`. -/
def flitCount : KernelFn FlitCountState Flit := tapping FlitCountState.next FlitCountState.tap

/-- The `.state` block of `MetaGen`. -/
structure MetaGenState where
  flits : UInt64
  packets : UInt64
  bytes : UInt64
  window : UInt32

/-- The `.init` block of `MetaGen`. -/
def metaGenInit : MetaGenState := { flits := 0, packets := 0, bytes := 0, window := 0 }

/-- A flit with three counters, as a packet of its own. -/
def metaFlit (flits packets bytes : UInt64) : Flit :=
  ((((({} : Flit).set 0 flits).set 1 packets).set 2 bytes).setSop true).setEop true

/-- The counters of `MetaGen` behind a flit. -/
def MetaGenState.counted (st : MetaGenState) (f : Flit) : MetaGenState where
  flits := st.flits + 1
  packets := if f.eop then st.packets + 1 else st.packets
  bytes := st.bytes + UInt64.ofNat (validBytes f)
  window := st.window + 1

/-- What a flit does to the state of `MetaGen`. -/
def MetaGenState.next (st : MetaGenState) (f : Flit) : MetaGenState :=
  if (st.counted f).window ≥ 1024 then { st.counted f with window := 0 } else st.counted f

/-- What `MetaGen` reports with a flit. -/
def MetaGenState.tap (st : MetaGenState) (f : Flit) : Option Flit :=
  let st := st.counted f
  if st.window ≥ 1024 then some (metaFlit st.flits st.packets st.bytes) else none

/-- `MetaGen`. -/
def metaGen : KernelFn MetaGenState Flit := tapping MetaGenState.next MetaGenState.tap

/-- What `MetaGen` reports on some flits. -/
def metaReport (fs : List Flit) : Flit :=
  metaFlit (UInt64.ofNat fs.length) (UInt64.ofNat (fs.countP Flit.eop))
    (UInt64.ofNat (fs.map validBytes).sum)

/-- The position in the window. -/
theorem window_succ {w : UInt32} {n : Nat} (hw : w.toNat = n % 1024) :
    (w + 1).toNat = n % 1024 + 1 ∧ (w + 1 = 1024 ↔ (n + 1) % 1024 = 0) ∧
      (w + 1 ≥ 1024 ↔ (n + 1) % 1024 = 0) := by
  have hnat : (w + 1).toNat = n % 1024 + 1 := by
    rw [UInt32.toNat_add, hw]
    exact Nat.mod_eq_of_lt (by simp; omega)
  refine ⟨hnat, ?_, ?_⟩
  · rw [← UInt32.toNat_inj, hnat]
    show n % 1024 + 1 = 1024 ↔ _
    omega
  · rw [ge_iff_le, UInt32.le_iff_toNat_le, hnat]
    show 1024 ≤ n % 1024 + 1 ↔ _
    omega

/-- What the state of `FlitCount` says of the flits so far. -/
structure FlitCounted (st : FlitCountState) (fs : List Flit) : Prop where
  count : st.count = UInt64.ofNat fs.length
  window : st.window.toNat = fs.length % 1024

theorem flitCounted_next {st : FlitCountState} {fs : List Flit} (h : FlitCounted st fs) (f : Flit) :
    FlitCounted (st.next f) (fs ++ [f]) := by
  obtain ⟨hnat, hfull, -⟩ := window_succ h.window
  have hcount : st.count + 1 = UInt64.ofNat (fs ++ [f]).length := by
    rw [h.count, List.length_append, UInt64.ofNat_add]
    rfl
  unfold FlitCountState.next
  rw [← List.length_singleton (a := f), ← List.length_append] at hfull
  split
  · rename_i h1024
    exact ⟨hcount, (hfull.mp h1024).symm⟩
  · rename_i h1024
    refine ⟨hcount, hnat.trans ?_⟩
    have hopen := mt hfull.mpr h1024
    rw [List.length_append, List.length_singleton] at hopen ⊢
    omega

/-- What the state of `MetaGen` says of the flits so far. -/
structure MetaCounted (st : MetaGenState) (fs : List Flit) : Prop where
  flits : st.flits = UInt64.ofNat fs.length
  packets : st.packets = UInt64.ofNat (fs.countP Flit.eop)
  bytes : st.bytes = UInt64.ofNat (fs.map validBytes).sum

theorem metaCounted_counted {st : MetaGenState} {fs : List Flit} (h : MetaCounted st fs)
    (f : Flit) :
    MetaCounted (st.counted f) (fs ++ [f]) where
  flits := by
    rw [MetaGenState.counted, h.flits, List.length_append, UInt64.ofNat_add]
    rfl
  packets := by
    rw [MetaGenState.counted, h.packets, List.countP_append, UInt64.ofNat_add]
    cases heop : f.eop <;> simp [heop]
  bytes := by
    rw [MetaGenState.counted, h.bytes, List.map_append, List.sum_append, UInt64.ofNat_add]
    simp

/-- **The reports of `FlitCount` and `MetaGen`.** In every run the flits are passed on, and with
every 1024th there is a report on all flits up to it: their number, with `MetaGen` also the packets
that have ended and the bytes. -/
theorem windows_report (inCap outCap : Nat → Int) (as : List (KernelAction Flit)) :
    (let t := exec (kstep flitCount) (kinit flitCountInit inCap outCap) as
     t.sent 1 = t.taken 1 ∧
      t.sent 2 = windowReports (fun fs => Flit.single (UInt64.ofNat fs.length)) (t.taken 1)) ∧
    (let t := exec (kstep metaGen) (kinit metaGenInit inCap outCap) as
     t.sent 1 = t.taken 1 ∧ t.sent 2 = windowReports metaReport (t.taken 1)) := by
  constructor
  · apply sent_windows (I := FlitCounted) ⟨rfl, rfl⟩ fun st fs f h => flitCounted_next h f
    intro st fs f h
    obtain ⟨-, hfull, -⟩ := window_succ h.window
    unfold FlitCountState.tap
    rw [h.count, List.length_append, UInt64.ofNat_add]
    simp only [hfull]
    rfl
  · apply sent_windows (I := fun st fs => MetaCounted st fs ∧ st.window.toNat = fs.length % 1024)
      ⟨⟨rfl, rfl, rfl⟩, rfl⟩
    · rintro st fs f ⟨hst, hwindow⟩
      obtain ⟨hnat, -, hfull⟩ := window_succ hwindow
      have hcounted := metaCounted_counted hst f
      unfold MetaGenState.next
      rw [List.length_append, List.length_singleton]
      split
      · rename_i h1024
        exact ⟨⟨hcounted.flits, hcounted.packets, hcounted.bytes⟩, (hfull.mp h1024).symm⟩
      · rename_i h1024
        have hopen := mt hfull.mpr h1024
        exact ⟨hcounted, hnat.trans (by omega)⟩
    · rintro st fs f ⟨hst, hwindow⟩
      obtain ⟨-, -, hfull⟩ := window_succ hwindow
      have hcounted := metaCounted_counted hst f
      have hwin : (st.counted f).window ≥ 1024 ↔ (fs.length + 1) % 1024 = 0 := hfull
      unfold MetaGenState.tap
      simp only [hwin, hcounted.flits, hcounted.packets, hcounted.bytes]
      rfl

/-! ## `DropElem.clnp`, `Dump.clnp`, `Receiver.clnp` -/

/-- The element swallows what comes in. -/
def swallowing {σ : Type} (next : σ → Flit → σ) (answer : σ → ClSignal → ClSignal) :
    KernelFn σ Flit where
  inPorts := [1]
  outPorts := []
  nodup_outPorts := nodup_none
  hasSignal := true
  handler := onEachFlit next fun _ _ => []
  signal := fun v =>
    { state := v.state, ops := [], ret := none, outevent := answer v.state v.event }

theorem acts_swallowing {σ : Type} {next : σ → Flit → σ} {answer : σ → ClSignal → ClSignal} :
    ActsOnFlits (swallowing next answer) next fun _ _ => [] where
  inPorts := rfl
  handler := rfl
  ports _ hq := nomatch hq
  once _ _ _ hq := nomatch hq
  signal _ := rfl

/-- The `.state` block of `DropElem`. -/
structure DropElemState where
  droppedFlits : UInt64
  droppedPackets : UInt64

/-- The `.init` block of `DropElem`. -/
def dropElemInit : DropElemState := { droppedFlits := 0, droppedPackets := 0 }

/-- What a flit does to the state of `DropElem`. -/
def DropElemState.next (st : DropElemState) (f : Flit) : DropElemState where
  droppedFlits := st.droppedFlits + 1
  droppedPackets := if f.eop then st.droppedPackets + 1 else st.droppedPackets

/-- A signal that is answered with two counters. -/
def twoCounters (flits packets : UInt64) (event : ClSignal) : ClSignal :=
  { event with lparam := Function.update (Function.update event.lparam 0 flits) 1 packets }

/-- A signal that is answered with a counter. -/
def oneCounter (flits : UInt64) (event : ClSignal) : ClSignal :=
  { event with lparam := Function.update event.lparam 0 flits }

/-- `DropElem`. -/
def dropElem : KernelFn DropElemState Flit :=
  swallowing DropElemState.next fun st => twoCounters st.droppedFlits st.droppedPackets

/-- `Dump`; the state is `flits`. -/
def dump : KernelFn UInt64 Flit := swallowing (fun flits _ => flits + 1) oneCounter

/-- `Receiver`; the state is `recv`. -/
def receiver : KernelFn UInt64 Flit := swallowing (fun recv _ => recv + 1) oneCounter

theorem foldl_flits (fs : List Flit) :
    fs.foldl (fun (n : UInt64) _ => n + 1) 0 = UInt64.ofNat fs.length := by
  induction fs using List.reverseRecOn with
  | nil => rfl
  | append_singleton fs f ih =>
    rw [List.foldl_append, ih, List.length_append, UInt64.ofNat_add]
    rfl

theorem foldl_dropElem (fs : List Flit) :
    fs.foldl DropElemState.next dropElemInit
      = { droppedFlits := UInt64.ofNat fs.length,
          droppedPackets := UInt64.ofNat (fs.countP Flit.eop) } := by
  induction fs using List.reverseRecOn with
  | nil => rfl
  | append_singleton fs f ih =>
    rw [List.foldl_append, ih, List.length_append, UInt64.ofNat_add, List.countP_append,
      UInt64.ofNat_add]
    cases heop : f.eop <;> simp [DropElemState.next, heop]

end OpenClickNP
