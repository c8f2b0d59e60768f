import Mathlib.Data.List.OfFn
import OpenClickNP.Runtime.Flit

/-!
# `SignalIO` and the register accesses of `dispatchSignal`

The kernel sees the signal block as `struct SignalIO`, the host as 32-bit registers at fixed
offsets of its byte image. The request offsets agree with the structure
(`pollImage_publish`); the response offsets were written for a structure in which `rsp_cmd`
and `rsp_sparam` stand before `rsp_lparam` and there is no gap, so the host collects bytes of
other fields (`collect_respondImage`).
-/

namespace OpenClickNP

open ByteMem

/-! ## The messages -/

structure SignalRequest where
  cmd : UInt16 := 0
  sparam : UInt32 := 0
  lparam : Fin 7 → UInt64 := fun _ => 0
deriving DecidableEq

structure SignalResponse where
  cmd : UInt16 := 0
  sparam : UInt32 := 0
  lparam : Fin 7 → UInt64 := fun _ => 0
deriving DecidableEq

/-- `struct SignalIO`. -/
structure SignalIO where
  status : UInt32 := 0
  cmd : UInt16 := 0
  sparam : UInt32 := 0
  lparam : Fin 7 → UInt64 := fun _ => 0
  rspLparam : Fin 7 → UInt64 := fun _ => 0
  rspCmd : UInt16 := 0
  rspSparam : UInt32 := 0
deriving DecidableEq

/-! ## The kernel's side -/

/-- `poll_signal(io, out)`: the result, the block and the event. -/
def pollSignal (io : SignalIO) (out : ClSignal) : Bool × SignalIO × ClSignal :=
  if io.status &&& 0x1 = 0 then (false, io, out)
  else
    (true, { io with status := 0 },
      { out with cmd := io.cmd, sparam := io.sparam, lparam := io.lparam })

/-- `respond_signal(io, s)`. -/
def respondSignal (io : SignalIO) (s : ClSignal) : SignalIO :=
  { io with rspCmd := s.cmd, rspSparam := s.sparam, rspLparam := s.lparam, status := 0x2 }

/-! ## The byte image -/

/-- The fields of `SignalIO` in order, by scalar size and number of elements. -/
def signalIOFields : List (Nat × Nat) :=
  [(4, 1), (2, 1), (4, 1), (8, 7), (8, 7), (2, 1), (4, 1)]

def STATUS : Nat := 0x00
def CMD : Nat := 0x04
def SPARAM : Nat := 0x08
def LPARAM : Nat := 0x10
def RSP_LPARAM : Nat := 0x48
def RSP_CMD : Nat := 0x80
def RSP_SPARAM : Nat := 0x84

theorem signalIO_layout :
    fieldOffsets 0 signalIOFields
      = [STATUS, CMD, SPARAM, LPARAM, RSP_LPARAM, RSP_CMD, RSP_SPARAM] := by
  decide

def load16 (m : Mem) (off : Nat) : UInt16 := UInt16.ofNat (load m off 2)
def load32 (m : Mem) (off : Nat) : UInt32 := UInt32.ofNat (load m off 4)
def load64 (m : Mem) (off : Nat) : UInt64 := UInt64.ofNat (load m off 8)

/-- The structure a byte image holds. -/
def fieldsOf (m : Mem) : SignalIO where
  status := load32 m STATUS
  cmd := load16 m CMD
  sparam := load32 m SPARAM
  lparam := fun i => load64 m (LPARAM + 8 * i)
  rspLparam := fun i => load64 m (RSP_LPARAM + 8 * i)
  rspCmd := load16 m RSP_CMD
  rspSparam := load32 m RSP_SPARAM

/-- `poll_signal` on the image: the one field it writes is `status`. -/
def pollImage (m : Mem) (out : ClSignal) : Bool × Mem × ClSignal :=
  let r := pollSignal (fieldsOf m) out
  (r.1, if r.1 then store m STATUS 4 0 else m, r.2.2)

/-- `respond_signal` on the image, field by field. -/
def respondImage (m : Mem) (s : ClSignal) : Mem :=
  let m := store m RSP_CMD 2 s.cmd.toNat
  let m := store m RSP_SPARAM 4 s.sparam.toNat
  let m := storeArray m RSP_LPARAM 8 ((List.ofFn s.lparam).map UInt64.toNat)
  store m STATUS 4 0x2

/-! ## The host's side -/

/-- `ip.write_register(off, v)`. -/
def writeRegister (m : Mem) (off : Nat) (v : UInt32) : Mem := store m off 4 v.toNat

/-- `ip.read_register(off)`. -/
def readRegister (m : Mem) (off : Nat) : UInt32 := load32 m off

/-- `static_cast<uint32_t>(v & 0xFFFFFFFFu)`. -/
def lowHalf (v : UInt64) : UInt32 := (v &&& 0xFFFFFFFF).toUInt32

/-- `static_cast<uint32_t>(v >> 32)`. -/
def highHalf (v : UInt64) : UInt32 := (v >>> 32).toUInt32

/-- `(static_cast<uint64_t>(hi) << 32) | lo`. -/
def joinHalves (hi lo : UInt32) : UInt64 := (hi.toUInt64 <<< 32) ||| lo.toUInt64

/-- The two register values of a 64-bit parameter, low half first. -/
def halves (v : UInt64) : List Nat := [(lowHalf v).toNat, (highHalf v).toNat]

/-- The writes of `dispatchSignal`, up to `write_register(0x00, 0x1)`. -/
def publish (m : Mem) (req : SignalRequest) : Mem :=
  let m := writeRegister m 0x04 req.cmd.toUInt32
  let m := writeRegister m 0x08 req.sparam
  let m := storeArray m 0x10 4 ((List.ofFn req.lparam).flatMap halves)
  writeRegister m 0x00 0x1

/-- The reads of `dispatchSignal` after the poll loop. -/
def collect (m : Mem) : SignalResponse where
  cmd := (readRegister m 0x44).toUInt16
  sparam := readRegister m 0x48
  lparam := fun i =>
    joinHalves (readRegister m (0x50 + i * 8 + 4)) (readRegister m (0x50 + i * 8))

/-! ## Halves of a 64-bit parameter -/

theorem toNat_lowHalf (v : UInt64) : (lowHalf v).toNat = v.toNat % 2 ^ 32 := by
  rw [lowHalf, UInt64.toNat_toUInt32, UInt64.toNat_and,
    show (0xFFFFFFFF : UInt64).toNat = 2 ^ 32 - 1 by decide, Nat.and_two_pow_sub_one_eq_mod]
  omega

theorem toNat_highHalf (v : UInt64) : (highHalf v).toNat = v.toNat / 2 ^ 32 := by
  have hlt := v.toNat_lt
  rw [highHalf, UInt64.toNat_toUInt32, UInt64.toNat_shiftRight,
    show (32 : UInt64).toNat % 64 = 32 by decide, Nat.shiftRight_eq_div_pow]
  omega

theorem toNat_joinHalves (hi lo : UInt32) :
    (joinHalves hi lo).toNat = 2 ^ 32 * hi.toNat + lo.toNat := by
  have hlt := hi.toNat_lt
  rw [joinHalves, UInt64.toNat_or, UInt64.toNat_shiftLeft, UInt32.toNat_toUInt64,
    UInt32.toNat_toUInt64, show (32 : UInt64).toNat % 64 = 32 by decide, Nat.shiftLeft_eq,
    Nat.mod_eq_of_lt (by omega), Nat.mul_comm _ (2 ^ 32),
    ← Nat.two_pow_add_eq_or_of_lt lo.toNat_lt]

theorem joinHalves_inj {hi lo hi' lo' : UInt32} :
    joinHalves hi lo = joinHalves hi' lo' ↔ hi = hi' ∧ lo = lo' := by
  have hlo := lo.toNat_lt
  have hlo' := lo'.toNat_lt
  rw [← UInt64.toNat_inj, toNat_joinHalves, toNat_joinHalves, ← UInt32.toNat_inj,
    ← UInt32.toNat_inj]
  omega

theorem joinHalves_split (v : UInt64) : joinHalves (highHalf v) (lowHalf v) = v := by
  apply UInt64.toNat_inj.mp
  rw [toNat_joinHalves, toNat_highHalf, toNat_lowHalf]
  omega

theorem lowHalf_joinHalves (hi lo : UInt32) : lowHalf (joinHalves hi lo) = lo := by
  have hlt := lo.toNat_lt
  apply UInt32.toNat_inj.mp
  rw [toNat_lowHalf, toNat_joinHalves]
  omega

/-! ## The request -/

/-- The host's half-width writes of the parameters are writes of whole parameters. -/
theorem storeArray_halves (m : Mem) (off : Nat) (vs : List UInt64) :
    storeArray m off 4 (vs.flatMap halves) = storeArray m off 8 (vs.map UInt64.toNat) := by
  induction vs generalizing m off with
  | nil => rfl
  | cons v vs ih =>
    have hlo : (lowHalf v).toNat = v.toNat % 256 ^ 4 := toNat_lowHalf v
    have hhi : (highHalf v).toNat = v.toNat / 256 ^ 4 := toNat_highHalf v
    rw [List.flatMap_cons, halves, List.cons_append, List.cons_append, List.nil_append, hlo, hhi,
      storeArray, storeArray, store_mod, store_store_add, ih]
    rfl

theorem load64_storeArray {m : Mem} {off : Nat} (vs : Fin 7 → UInt64) (i : Fin 7) :
    load64 (storeArray m off 8 ((List.ofFn vs).map UInt64.toNat)) (off + 8 * i) = vs i := by
  have hi : i.val < ((List.ofFn vs).map UInt64.toNat).length := by simp
  have hget : ((List.ofFn vs).map UInt64.toNat)[i.val] = (vs i).toNat := by
    rw [List.getElem_map, List.getElem_ofFn]
  unfold load64
  rw [load_storeArray hi, hget, show (256 : Nat) ^ 8 = 2 ^ 64 by norm_num,
    Nat.mod_eq_of_lt (vs i).toNat_lt, UInt64.ofNat_toNat]

/-- What the kernel finds in the image the host has published. -/
theorem fieldsOf_publish (m : Mem) (req : SignalRequest) :
    (fieldsOf (publish m req)).status = 0x1 ∧
      (fieldsOf (publish m req)).cmd = req.cmd ∧
      (fieldsOf (publish m req)).sparam = req.sparam ∧
      (fieldsOf (publish m req)).lparam = req.lparam := by
  have hlen : ((List.ofFn req.lparam).map UInt64.toNat).length = 7 := by simp
  refine ⟨?_, ?_, ?_, ?_⟩
  · simp only [fieldsOf, publish, writeRegister, load32, STATUS]
    rw [load_store]
    decide
  · simp only [fieldsOf, publish, writeRegister, load16, CMD, storeArray_halves]
    rw [load_store_of_disjoint (by omega), load_storeArray_of_disjoint (by omega),
      load_store_of_disjoint (by omega), load_store_of_le (by omega)]
    apply UInt16.toNat_inj.mp
    simp
  · simp only [fieldsOf, publish, writeRegister, load32, SPARAM, storeArray_halves]
    rw [load_store_of_disjoint (by omega), load_storeArray_of_disjoint (by omega), load_store]
    apply UInt32.toNat_inj.mp
    simp
  · funext i
    simp only [fieldsOf, publish, writeRegister, LPARAM, storeArray_halves]
    rw [load64, load_store_of_disjoint (by omega), ← load64, load64_storeArray]

/-- The event of a request: its fields, in the structure the kernel passes. -/
def eventOf (out : ClSignal) (req : SignalRequest) : ClSignal :=
  { out with cmd := req.cmd, sparam := req.sparam, lparam := req.lparam }

/-- **The request arrives.** `poll_signal` takes exactly what the host has published. -/
theorem pollImage_publish (m : Mem) (out : ClSignal) (req : SignalRequest) :
    pollImage (publish m req) out
      = (true, store (publish m req) STATUS 4 0, eventOf out req) := by
  obtain ⟨hstatus, hcmd, hsparam, hlparam⟩ := fieldsOf_publish m req
  have hpending : ¬ (fieldsOf (publish m req)).status &&& 0x1 = 0 := by
    rw [hstatus]; decide
  unfold pollImage pollSignal
  rw [if_neg hpending, hcmd, hsparam, hlparam]
  rfl

/-! ## The response -/

theorem joinHalves_readRegister (m : Mem) (off : Nat) :
    joinHalves (readRegister m (off + 4)) (readRegister m off) = load64 m off := by
  have hlo := load_lt m off 4
  have hhi := load_lt m (off + 4) 4
  apply UInt64.toNat_inj.mp
  unfold readRegister load32 load64
  rw [toNat_joinHalves, UInt32.toNat_ofNat', UInt32.toNat_ofNat', UInt64.toNat_ofNat',
    load_add m off 4 4]
  omega

/-- The fields after the response parameters, as the eight bytes from `rsp_cmd` on: the command,
the two bytes of padding, the parameter. -/
def packTail (cmd pad : UInt16) (sparam : UInt32) : UInt64 :=
  UInt64.ofNat (cmd.toNat + 2 ^ 16 * pad.toNat + 2 ^ 32 * sparam.toNat)

/-- Parameter `i` of the response as the host collects it: one place further on in the
structure than the kernel stored it. -/
def collectedLparam (s : ClSignal) (pad : UInt16) (i : Fin 7) : UInt64 :=
  if h : i.val < 6 then s.lparam ⟨i.val + 1, by omega⟩ else packTail s.cmd pad s.sparam

/-- The high half of the last request parameter lies where the host reads the command. -/
theorem load64_lparam_six (m : Mem) :
    ((load64 m (LPARAM + 8 * 6)) >>> 32).toUInt16 = (readRegister m 0x44).toUInt16 := by
  have hlo := load_lt m 0x40 4
  have hhi := load_lt m 0x44 4
  have hsplit : load m (LPARAM + 8 * 6) 8 = load m 0x40 4 + 256 ^ 4 * load m 0x44 4 :=
    load_add m 0x40 4 4
  apply UInt16.toNat_inj.mp
  unfold readRegister load32 load64
  rw [UInt64.toNat_toUInt16, UInt32.toNat_toUInt16, UInt64.toNat_shiftRight,
    show (32 : UInt64).toNat % 64 = 32 by decide, UInt64.toNat_ofNat', UInt32.toNat_ofNat',
    Nat.shiftRight_eq_div_pow, hsplit]
  omega

theorem load64_respondImage (m : Mem) (s : ClSignal) (i : Fin 7) :
    load64 (respondImage m s) (RSP_LPARAM + 8 * i) = s.lparam i := by
  unfold respondImage
  simp only []
  rw [load64, load_store_of_disjoint (by simp only [RSP_LPARAM, STATUS]; omega), ← load64,
    load64_storeArray]

/-- The eight bytes after the response parameters. -/
theorem load64_respondImage_tail (m : Mem) (s : ClSignal) :
    load64 (respondImage m s) RSP_CMD = packTail s.cmd (load16 m 0x82) s.sparam := by
  have hlen : ((List.ofFn s.lparam).map UInt64.toNat).length = 7 := by simp
  have hpad := load_lt m 0x82 2
  have hcmd : load (respondImage m s) 0x80 2 = s.cmd.toNat := by
    simp only [respondImage, STATUS, RSP_LPARAM, RSP_SPARAM, RSP_CMD]
    rw [load_store_of_disjoint (by omega), load_storeArray_of_disjoint (by omega),
      load_store_of_disjoint (by omega), load_store]
    exact Nat.mod_eq_of_lt s.cmd.toNat_lt
  have hgap : load (respondImage m s) 0x82 2 = load m 0x82 2 := by
    simp only [respondImage, STATUS, RSP_LPARAM, RSP_SPARAM, RSP_CMD]
    rw [load_store_of_disjoint (by omega), load_storeArray_of_disjoint (by omega),
      load_store_of_disjoint (by omega), load_store_of_disjoint (by omega)]
  have hsparam : load (respondImage m s) 0x84 4 = s.sparam.toNat := by
    simp only [respondImage, STATUS, RSP_LPARAM, RSP_SPARAM, RSP_CMD]
    rw [load_store_of_disjoint (by omega), load_storeArray_of_disjoint (by omega), load_store]
    exact Nat.mod_eq_of_lt s.sparam.toNat_lt
  have hsplit : load (respondImage m s) 0x80 8
      = s.cmd.toNat + 2 ^ 16 * load m 0x82 2 + 2 ^ 32 * s.sparam.toNat := by
    rw [load_add _ 0x80 4 4, load_add _ 0x80 2 2, hcmd, hgap, hsparam]
    norm_num
  unfold load64 packTail load16 RSP_CMD
  rw [hsplit, UInt16.toNat_ofNat', Nat.mod_eq_of_lt (a := load m 0x82 2) (by omega)]

/-- **What the host collects after a response**: the command from the request's last parameter,
the parameter from the first response parameter, and every response parameter one place on. -/
theorem collect_respondImage (m : Mem) (s : ClSignal) :
    collect (respondImage m s) =
      { cmd := ((fieldsOf m).lparam 6 >>> 32).toUInt16
        sparam := (s.lparam 0).toUInt32
        lparam := collectedLparam s (load16 m 0x82) } := by
  have hlen : ((List.ofFn s.lparam).map UInt64.toNat).length = 7 := by simp
  have hcmd : readRegister (respondImage m s) 0x44 = readRegister m 0x44 := by
    simp only [readRegister, load32, respondImage, STATUS, RSP_LPARAM, RSP_SPARAM, RSP_CMD]
    rw [load_store_of_disjoint (by omega), load_storeArray_of_disjoint (by omega),
      load_store_of_disjoint (by omega), load_store_of_disjoint (by omega)]
  have hsparam : readRegister (respondImage m s) 0x48 = (s.lparam 0).toUInt32 := by
    have h0 := load64_respondImage m s 0
    have hlow := load_lt (respondImage m s) 0x48 4
    have hsplit : load (respondImage m s) (RSP_LPARAM + 8 * (0 : Fin 7)) 8
        = load (respondImage m s) 0x48 4 + 256 ^ 4 * load (respondImage m s) 0x4c 4 :=
      load_add (respondImage m s) 0x48 4 4
    apply UInt32.toNat_inj.mp
    rw [← h0]
    unfold readRegister load32 load64
    rw [UInt64.toNat_toUInt32, UInt64.toNat_ofNat', UInt32.toNat_ofNat', hsplit]
    omega
  have hlparam : ∀ i : Fin 7,
      load64 (respondImage m s) (0x50 + i * 8) = collectedLparam s (load16 m 0x82) i := by
    intro i
    unfold collectedLparam
    split
    · rename_i h
      rw [← load64_respondImage m s ⟨i.val + 1, by omega⟩]
      congr 1
      simp only [RSP_LPARAM]
      omega
    · rename_i h
      rw [← load64_respondImage_tail]
      congr 1
      simp only [RSP_CMD]
      omega
  unfold collect
  rw [hcmd, hsparam]
  congr 1
  · rw [← load64_lparam_six]
    rfl
  · funext i
    rw [joinHalves_readRegister, hlparam]

/-! ## One exchange -/

/-- A call of `dispatchSignal` answered by the kernel: the event polled, the signal the body
leaves, and the response collected. -/
def exchange (m : Mem) (out : ClSignal) (body : ClSignal → ClSignal) (req : SignalRequest) :
    ClSignal × ClSignal × SignalResponse :=
  let (_, m, event) := pollImage (publish m req) out
  let outevent := body event
  (event, outevent, collect (respondImage m outevent))

/-- The event carries the request. -/
def Carries (event : ClSignal) (req : SignalRequest) : Prop :=
  event.cmd = req.cmd ∧ event.sparam = req.sparam ∧ event.lparam = req.lparam

/-- The response carries the signal. -/
def Delivers (rsp : SignalResponse) (s : ClSignal) : Prop :=
  rsp.cmd = s.cmd ∧ rsp.sparam = s.sparam ∧ rsp.lparam = s.lparam

/-- The padding between `rsp_cmd` and `rsp_sparam`, which no access writes. -/
def rspPadding (m : Mem) : UInt16 := load16 m 0x82

theorem exchange_eq (m : Mem) (out : ClSignal) (body : ClSignal → ClSignal)
    (req : SignalRequest) :
    exchange m out body req =
      (eventOf out req, body (eventOf out req),
        { cmd := (req.lparam 6 >>> 32).toUInt16
          sparam := ((body (eventOf out req)).lparam 0).toUInt32
          lparam := collectedLparam (body (eventOf out req)) (rspPadding m) }) := by
  have hlen : ((List.ofFn req.lparam).map UInt64.toNat).length = 7 := by simp
  have hlparam : load64 (store (publish m req) STATUS 4 0) (LPARAM + 8 * 6) = req.lparam 6 := by
    obtain ⟨-, -, -, h⟩ := fieldsOf_publish m req
    rw [← h, load64, load_store_of_disjoint (by simp [STATUS, LPARAM])]
    rfl
  have hpad : load16 (store (publish m req) STATUS 4 0) 0x82 = rspPadding m := by
    simp only [rspPadding, load16, publish, writeRegister, storeArray_halves, STATUS]
    rw [load_store_of_disjoint (by omega), load_store_of_disjoint (by omega),
      load_storeArray_of_disjoint (by omega), load_store_of_disjoint (by omega),
      load_store_of_disjoint (by omega)]
  unfold exchange
  rw [pollImage_publish]
  simp only [collect_respondImage, hpad]
  rw [show (fieldsOf (store (publish m req) STATUS 4 0)).lparam 6 = req.lparam 6 from
    hlparam]

/-- **When the exchange is exact.** For every image, request and signal body, the event carries
the request and the response carries the signal the body left if and only if that signal
happens to agree with the bytes the host collects: all its parameters are one and the same
value, made of its command, the padding and its parameter, and the command is the one in the
high half of the last request parameter. -/
theorem exchange_exact_iff (m : Mem) (out : ClSignal) (body : ClSignal → ClSignal)
    (req : SignalRequest) :
    (Carries (exchange m out body req).1 req ∧
        Delivers (exchange m out body req).2.2 (exchange m out body req).2.1) ↔
      (body (eventOf out req)).cmd = (req.lparam 6 >>> 32).toUInt16 ∧
        (body (eventOf out req)).sparam = ((body (eventOf out req)).lparam 0).toUInt32 ∧
        ∀ i, (body (eventOf out req)).lparam i
          = packTail (body (eventOf out req)).cmd (rspPadding m)
              (body (eventOf out req)).sparam := by
  rw [exchange_eq]
  generalize body (eventOf out req) = s
  have hchain : collectedLparam s (rspPadding m) = s.lparam ↔
      ∀ i, s.lparam i = packTail s.cmd (rspPadding m) s.sparam := by
    constructor
    · intro h
      have hstep : ∀ i : Fin 6, s.lparam i.castSucc = s.lparam i.succ := by
        intro i
        have hi := congrFun h i.castSucc
        rw [collectedLparam, dif_pos (by simp)] at hi
        exact hi.symm
      have hlast : s.lparam (Fin.last 6) = packTail s.cmd (rspPadding m) s.sparam := by
        have hi := congrFun h (Fin.last 6)
        rw [collectedLparam, dif_neg (by simp)] at hi
        exact hi.symm
      -- down from the last parameter
      intro i
      induction i using Fin.reverseInduction with
      | last => exact hlast
      | cast i ih => rw [hstep, ih]
    · intro h
      funext i
      unfold collectedLparam
      split
      · rw [h, h]
      · rw [h]
  constructor
  · rintro ⟨-, hcmd, hsparam, hlparam⟩
    exact ⟨hcmd.symm, hsparam.symm, hchain.mp hlparam⟩
  · rintro ⟨hcmd, hsparam, hlparam⟩
    exact ⟨⟨rfl, rfl, rfl⟩, hcmd.symm, hsparam.symm, hchain.mpr hlparam⟩

/-- A body that answers `5` in its first parameter: the host collects `0` there, and `5` as
the parameter `sparam`. -/
theorem exchange_not_exact :
    ¬ ∀ (m : Mem) (out : ClSignal) (body : ClSignal → ClSignal) (req : SignalRequest),
      Carries (exchange m out body req).1 req ∧
        Delivers (exchange m out body req).2.2 (exchange m out body req).2.1 := by
  intro h
  have hexact := (h (fun _ => 0) {}
    (fun event => { event with lparam := fun i => if i = 0 then 5 else 0 }) {}).2
  rw [exchange_eq] at hexact
  exact absurd hexact.2.1 (by decide)

end OpenClickNP
