import OpenClickNP.Elements.FlitActs
import OpenClickNP.Elements.FlowTupleParser
import OpenClickNP.Lib.Blocks

/-!
# Elements that pass flits on

The elements of the library that read port 1 and put out one flit, a flit and perhaps another one
made of it, or a flit on a port of its own. Several are stubs and differ in their counters only.
-/

namespace OpenClickNP

namespace Flit

/-- `error()`. -/
def error (f : Flit) : Bool := f.flag 0x04

/-- `fcs_error()`. -/
def fcsError (f : Flit) : Bool := f.flag 0x08

/-- A flit of one packet of its own, with `v` in lane 0. -/
def single (v : UInt64) : Flit := ((({} : Flit).set 0 v).setSop true).setEop true

end Flit

/-! ## `Pass.clnp` -/

/-- The `.state` block. -/
structure PassState where
  flitsLo : UInt32
  flitsHi : UInt32
  packets : UInt32
  errors : UInt32
deriving DecidableEq

/-- The `.init` block. -/
def passInit : PassState := { flitsLo := 0, flitsHi := 0, packets := 0, errors := 0 }

/-- `f.error() || f.fcs_error()`. -/
def faulty (f : Flit) : Bool := f.error || f.fcsError

/-- The state behind a flit. -/
def PassState.next (st : PassState) (f : Flit) : PassState :=
  if faulty f then { st with errors := st.errors + 1 }
  else
    let lo := st.flitsLo + 1
    { st with
      flitsLo := lo
      flitsHi := if lo = 0 then st.flitsHi + 1 else st.flitsHi
      packets := if f.eop then st.packets + 1 else st.packets }

/-- What a flit makes it put out. -/
def PassState.out (_ : PassState) (f : Flit) : List (Nat × Flit) :=
  if faulty f then [] else [(1, f)]

/-- The `.signal` block. -/
def passSignal (v : View PassState Flit) : BodyResult PassState Flit where
  state := v.state
  ops := []
  ret := none
  outevent := { v.event with
    lparam := Function.update (Function.update (Function.update v.event.lparam 0
      ((v.state.flitsHi.toUInt64 <<< 32) ||| v.state.flitsLo.toUInt64)) 1
      v.state.packets.toUInt64) 2 v.state.errors.toUInt64 }

/-- `Pass`. -/
def pass : KernelFn PassState Flit where
  inPorts := [1]
  outPorts := [1]
  nodup_outPorts := nodup_one
  hasSignal := true
  handler := onEachFlit PassState.next PassState.out
  signal := passSignal

theorem acts_pass : ActsOnFlits pass PassState.next PassState.out where
  inPorts := rfl
  handler := rfl
  ports q hq := by
    rw [List.mem_singleton.mp hq]
    decide
  once st f q _ := by
    apply filter_length_le_one
    unfold PassState.out
    split
    · exact List.nodup_nil
    · exact List.nodup_singleton _
  signal _ := rfl

/-! ## One flit on -/

/-- The flit goes on as it is. -/
def wire : KernelFn Unit Flit := forwarding (fun st _ => st) (fun _ f => f) silent

/-- `PassThrough`. -/
def passThroughFn : KernelFn Unit Flit := wire

/-- `TestOnSoftware`. -/
def testOnSoftware : KernelFn Unit Flit := wire

/-- `NoEchoLatencyTest`. -/
def noEchoLatencyTest : KernelFn Unit Flit := wire

/-- `RSA_modexp`: a stub that passes flits on. -/
def rsaModexp : KernelFn Unit Flit := wire

/-- The flit goes on as it is, and is counted. -/
def countingWire : KernelFn UInt64 Flit := forwarding (fun n _ => n + 1) (fun _ f => f) (reports id)

/-- `SHA1_BlockGen`; the state is `blk_count`. -/
def sha1BlockGen : KernelFn UInt64 Flit := countingWire

/-- `PktLogger`; the state is `logged`. -/
def pktLogger : KernelFn UInt64 Flit := countingWire

/-- `TestDumper`; the state is `flits`. -/
def testDumper : KernelFn UInt64 Flit := countingWire

/-- `DelayTester`; the state is `latency`. -/
def delayTester : KernelFn UInt64 Flit := countingWire

/-- `AppendHMAC`; the state is `hmac`. -/
def appendHmac : KernelFn UInt64 Flit :=
  forwarding (fun st _ => st) (fun hmac f => f.set 3 hmac) silent

/-- Its `.init` block. -/
def appendHmacInit : UInt64 := 0xCAFEBABEDEADBEEF

/-- `NVGRE_Decap`. -/
def nvgreDecap : KernelFn Unit Flit :=
  forwarding (fun st _ => st) (fun _ f => if f.sop then f.set 2 0 else f) silent

/-- The `.signal` block of `NVGRE_Encap`. -/
def nvgreEncapSignal (v : View UInt32 Flit) : BodyResult UInt32 Flit where
  state := if v.event.cmd = 1 then (v.event.lparam 0).toUInt32 else v.state
  ops := []
  ret := none
  outevent := v.event

/-- `NVGRE_Encap`; the state is `vni`. -/
def nvgreEncap : KernelFn UInt32 Flit :=
  forwarding (fun st _ => st) (fun vni f => if f.sop then f.set 2 vni.toUInt64 else f)
    nvgreEncapSignal

/-- Its `.init` block. -/
def nvgreEncapInit : UInt32 := 0

/-- `NexthopAlloc`; the state is `allocs`. -/
def nexthopAlloc : KernelFn UInt64 Flit :=
  forwarding (fun allocs _ => allocs + 1) (fun allocs f => f.set 2 allocs) silent

/-- The bytes of `GET` and a space. -/
def getBytes : List UInt8 := [0x47, 0x45, 0x54, 0x20]

/-- `Regex`. -/
def regex : KernelFn Unit Flit :=
  forwarding (fun st _ => st) (fun _ f => if f.getData 4 = getBytes then f.set 3 1 else f) silent

/-! ## Two outputs -/

/-- `Fork`; the state is `forwarded` and `tap_dropped`, which nothing counts. -/
def fork : KernelFn (UInt64 × UInt64) Flit :=
  tapping (fun st _ => (st.1 + 1, st.2)) fun _ f => some f

/-- `s2p`. -/
def s2p : KernelFn Unit Flit := tapping (fun st _ => st) fun _ f => some f

/-- `AllocResultAdapter`. -/
def allocResultAdapter : KernelFn Unit Flit := tapping (fun st _ => st) fun _ f => some f

/-- `FlowTupleTest`. -/
def flowTupleTest : KernelFn Unit Flit :=
  tapping (fun st _ => st) fun _ f => some (Flit.single (f.get 0))

/-- One flit for each packet, with a lane of its first flit in lane 0. -/
def laneTap (lane : Int) : KernelFn Unit Flit :=
  tapping (fun st _ => st) fun _ f => if f.sop then some (Flit.single (f.get lane)) else none

/-- `NVGRE_Parser`. -/
def nvgreParser : KernelFn Unit Flit := laneTap 2

/-- `NVGRE_Match_Pre`. -/
def nvgreMatchPre : KernelFn Unit Flit := laneTap 2

/-- `TimeStamp_Parser`. -/
def timeStampParser : KernelFn Unit Flit := laneTap 0

/-- `buf[i]` behind `f.get_data(buf, 32)`, within the buffer. -/
def byteAt (f : Flit) (i : Nat) : UInt8 := (f.getData 32).getD i 0

/-- `PriorityParser`. -/
def priorityParser : KernelFn Unit Flit :=
  tapping (fun st _ => st) fun _ f =>
    if f.sop then some (Flit.single (byteAt f (14 + 1)).toUInt64) else none

/-- Two bytes of the buffer, shifted into their places. -/
def halfAt (buf : Nat → UInt8) (i : Nat) : UInt16 :=
  ((buf i).toUInt16 <<< 8) ||| (buf (i + 1)).toUInt16

/-- `VLAN_Parser`. -/
def vlanParser : KernelFn Unit Flit :=
  tapping (fun st _ => st) fun _ f =>
    if halfAt (byteAt f) 12 = 0x8100 then
      some (Flit.single (halfAt (byteAt f) 14 &&& 0x0FFF).toUInt64)
    else none

/-- `IP_Parser`. The destination address ends behind the buffer. -/
def ipParser (outside : Flit → Nat → UInt8) : KernelFn Unit Flit :=
  tapping (fun st _ => st) fun _ f =>
    let buf := bufAt outside f
    some (((({} : Flit).set 0
      (((ipAt buf (14 + 12)).toUInt64 <<< 32) ||| (ipAt buf (14 + 16)).toUInt64)).set 1
      (buf (14 + 9)).toUInt64).setSop true |>.setEop true)

/-- Source port and destination port; both are read behind the buffer. -/
def portsParser (outside : Flit → Nat → UInt8) : KernelFn Unit Flit :=
  tapping (fun st _ => st) fun _ f =>
    let buf := bufAt outside f
    some (Flit.single
      (((halfAt buf (14 + 20)).toUInt64 <<< 16) ||| (halfAt buf (14 + 22)).toUInt64))

/-- `TCP_Parser`. -/
def tcpParser (outside : Flit → Nat → UInt8) : KernelFn Unit Flit := portsParser outside

/-- `UDP_Parser`. -/
def udpParser (outside : Flit → Nat → UInt8) : KernelFn Unit Flit := portsParser outside

/-- `RoCE_Classifier`. The port is read behind the buffer. -/
def roceClassifier (outside : Flit → Nat → UInt8) : KernelFn Unit Flit :=
  tapping (fun st _ => st) fun _ f =>
    some (Flit.single (halfAt (bufAt outside f) (14 + 20 + 2)).toUInt64)

/-! ## A port of its own -/

/-- `FlitDemux`. -/
def flitDemux : KernelFn Unit Flit :=
  routing [1, 2] nodup_one_two (fun st _ => st) fun _ f =>
    if (f.get 0).toUInt32 &&& 1 = 0 then 1 else 2

theorem nodup_four : ([1, 2, 3, 4] : List Nat).Nodup := by decide

/-- `FlitDemuxByMeta`. -/
def flitDemuxByMeta : KernelFn Unit Flit :=
  routing [1, 2, 3, 4] nodup_four (fun st _ => st) fun _ f => (f.get 0 &&& 3).toUInt32.toNat + 1

/-- `HashDemux`. -/
def hashDemux : KernelFn Unit Flit :=
  routing [1, 2, 3, 4] nodup_four (fun st _ => st) fun _ f =>
    ((f.get 0).toUInt32 * 2654435761 % 4).toNat + 1

/-- `RegexDispatcher`. -/
def regexDispatcher : KernelFn Unit Flit :=
  routing [1, 2, 3, 4] nodup_four (fun st _ => st) fun _ f => ((f.get 0).toUInt32 % 4).toNat + 1

/-- `Demux2`; the state is `rr`. -/
def demux2 : KernelFn UInt8 Flit :=
  routing [1, 2] nodup_one_two (fun rr _ => if rr = 1 then 2 else 1) fun rr _ => rr.toNat

/-- Its `.init` block. -/
def demux2Init : UInt8 := 1

end OpenClickNP
