import OpenClickNP.Backend.Transduction
import OpenClickNP.Elements.AesCtr

/-!
# Packets through two `AES_CTR` elements

The second of two elements with one key and one counter takes away what the first has added. But
each of them builds its flit anew, with the payload and the flags of the flit it reads and without
its pad bytes; so a packet comes back with all that its last payload leaves free
(`aesPair_restores_iff`).
-/

namespace OpenClickNP

open Run Aes Frames

/-! ## The element as a machine -/

def aesCtrMachine : Transducer AesCtrState (Option Flit) Flit where
  next st x := if x.isSome then { st with counter := advanceCounter st.counter } else st
  out st x := (x.map (aesCtrFlit st)).toList

/-- A signal that sets neither the key nor the counter. -/
def KeepsKey (event : ClSignal) : Prop := event.cmd ≠ 1 ∧ event.cmd ≠ 2

theorem transduces_aesCtr : Transduces aesCtr id KeepsKey aesCtrMachine where
  inPorts := rfl
  outPorts := rfl
  returns _ := rfl
  state v := by
    unfold offered aesCtrMachine
    cases hbit : testPort v.inputPort 1 <;> simp [aesCtr, aesCtrHandler, hbit]
  taken _ := takenIn_offered rfl
  sets _ := setsOf_offered _ rfl
  signalState v h := by
    show (aesCtrSignal v).state = v.state
    simp [aesCtrSignal, h.1, h.2]
  signalOps _ := rfl
  signalRet _ := rfl

theorem lazy_aesCtr : Lazy aesCtrMachine := fun _ => ⟨rfl, rfl⟩

/-- A flit with the payload and the flags of another one. -/
def rebuilt (f : Flit) : Flit :=
  ((({} : Flit).setData (f.getData 32) 32).setSop f.sop).setEop f.eop

theorem sop_aesCtrFlit (st : AesCtrState) (f : Flit) : (aesCtrFlit st f).sop = f.sop := by
  unfold aesCtrFlit Flit.sop Flit.setEop
  rw [Flit.flag_setFlag_of_disjoint _ (by decide), Flit.setSop,
    Flit.flag_setFlag_self _ (by decide)]

theorem eop_aesCtrFlit (st : AesCtrState) (f : Flit) : (aesCtrFlit st f).eop = f.eop := by
  unfold aesCtrFlit Flit.eop Flit.setEop
  exact Flit.flag_setFlag_self _ (by decide) _

theorem aesCtrFlit_twice (st : AesCtrState) (f : Flit) :
    aesCtrFlit st (aesCtrFlit st f) = rebuilt f := by
  rw [aesCtrFlit, getData_aesCtrFlit, aes128CtrXcrypt_twice, sop_aesCtrFlit, eop_aesCtrFlit]
  rfl

/-- Both elements count on alike, whatever they read. Induction on the flits. -/
theorem output_twice (st : AesCtrState) (fs : List Flit) :
    aesCtrMachine.output st ((aesCtrMachine.output st (fs.map some)).map some)
      = fs.map rebuilt := by
  induction fs generalizing st with
  | nil => rfl
  | cons f fs ih =>
    have hhead := aesCtrFlit_twice st f
    have hrest := ih { st with counter := advanceCounter st.counter }
    exact congrArg₂ List.cons hhead hrest

/-! ## What a rebuilt flit keeps -/

theorem eop_rebuilt (f : Flit) : (rebuilt f).eop = f.eop := by
  unfold rebuilt Flit.eop Flit.setEop
  exact Flit.flag_setFlag_self _ (by decide) _

theorem getData_rebuilt (f : Flit) : (rebuilt f).getData 32 = f.getData 32 := by
  unfold rebuilt Flit.setSop Flit.setEop
  rw [Flit.getData_setFlag, Flit.getData_setFlag, Flit.getData_setData _ (Flit.length_getData f)]

theorem padbytes_rebuilt (f : Flit) : (rebuilt f).padbytes = 0 := by
  unfold rebuilt Flit.setSop Flit.setEop
  rw [Flit.padbytes_setFlag, Flit.padbytes_setFlag, Flit.padbytes_setData]
  decide

theorem payloadBytes_rebuilt (fs : List Flit) :
    payloadBytes (fs.map rebuilt) = payloadBytes fs := by
  unfold payloadBytes
  rw [List.flatMap_map]
  simp only [getData_rebuilt]

/-! ## Packets -/

/-- Each packet of a sequence of flits, by `flitsToPacket`. -/
def reassemble (fs : List Flit) : List (List UInt8) := (cut Flit.eop fs).map flitsToPacket

/-- The packets come back filled up. -/
theorem reassemble_rebuilt (packets : List (List UInt8)) (hne : ∀ p ∈ packets, p ≠ []) :
    reassemble ((packets.flatMap packetToFlits).map rebuilt)
      = packets.map fun p => p ++ List.replicate (fill p.length) 0 := by
  have hframes : (packets.flatMap packetToFlits).map rebuilt
      = (packets.map fun p => (packetToFlits p).map rebuilt).flatten := by
    rw [List.map_flatMap, List.flatMap_def]
  have hframed : ∀ frame ∈ packets.map fun p => (packetToFlits p).map rebuilt,
      Framed Flit.eop frame := by
    intro frame hframe
    obtain ⟨p, hp, rfl⟩ := List.mem_map.mp hframe
    exact (packed_packetToFlits (hne p hp)).framed.map eop_rebuilt
  rw [reassemble, hframes, cut_flatten hframed, List.map_map]
  refine List.map_congr_left fun p hp => ?_
  show flitsToPacket ((packetToFlits p).map rebuilt) = _
  rw [flitsToPacket_of_padbytes, payloadBytes_rebuilt, payloadBytes_packetToFlits (hne p hp)]
  intro f hf
  obtain ⟨g, -, rfl⟩ := List.mem_map.mp hf
  exact padbytes_rebuilt g

theorem filled_eq_iff (packets : List (List UInt8)) :
    (packets.map fun p => p ++ List.replicate (fill p.length) 0) = packets
      ↔ ∀ p ∈ packets, 32 ∣ p.length := by
  have hone : ∀ p : List UInt8,
      p ++ List.replicate (fill p.length) 0 = p ↔ 32 ∣ p.length := by
    intro p
    rw [List.append_right_eq_self, List.replicate_eq_nil_iff, fill_eq_zero_iff]
  constructor
  · intro h p hp
    have hid : packets.map (fun p => p ++ List.replicate (fill p.length) 0) = packets.map id := by
      rw [h, List.map_id]
    exact (hone p).mp (List.map_inj_left.mp hid p hp)
  · intro h
    exact (List.map_congr_left fun p hp => (hone p).mpr (h p hp)).trans (List.map_id' packets)

/-- The element waits for its first flit, with the key and the counter that the signals have
set. -/
structure Keyed (key iv : Block) (s : KernelState AesCtrState Flit) : Prop where
  waiting : Waiting s
  state : s.locals.state = .keyed key iv

theorem keyed_kinit (key iv : Block) (inCap outCap : Nat → Int) :
    Keyed key iv (kinit (.keyed key iv) inCap outCap) where
  waiting := waiting_kinit _ inCap outCap
  state := rfl

variable {key iv : Block} {s₁ s₂ : KernelState AesCtrState Flit}

theorem pair_maps_iff (fs gs hs : List Flit) (h₁ : Keyed key iv s₁) (h₂ : Keyed key iv s₂) :
    Maps aesCtr KeepsKey s₁ fs gs ∧ Maps aesCtr KeepsKey s₂ gs hs
      ↔ gs = aesCtrMachine.output (.keyed key iv) (fs.map some) ∧ hs = fs.map rebuilt := by
  rw [transduces_aesCtr.maps_iff lazy_aesCtr h₁.waiting,
    transduces_aesCtr.maps_iff lazy_aesCtr h₂.waiting, h₁.state, h₂.state]
  refine and_congr_right fun h => ?_
  rw [h, output_twice]

/-- **When packets come back from two elements in series.** For all non-empty packets, and two
elements with the same key and counter: there are runs of both, and in all of them the packets
are restored if and only if all their lengths are multiples of 32. -/
theorem aesPair_restores_iff (packets : List (List UInt8)) (hne : ∀ p ∈ packets, p ≠ [])
    (h₁ : Keyed key iv s₁) (h₂ : Keyed key iv s₂) :
    (∃ gs hs, Maps aesCtr KeepsKey s₁ (packets.flatMap packetToFlits) gs ∧
        Maps aesCtr KeepsKey s₂ gs hs) ∧
      ∀ gs hs, Maps aesCtr KeepsKey s₁ (packets.flatMap packetToFlits) gs →
        Maps aesCtr KeepsKey s₂ gs hs →
        (reassemble hs = packets ↔ ∀ p ∈ packets, 32 ∣ p.length) := by
  refine ⟨⟨_, _, (pair_maps_iff _ _ _ h₁ h₂).mpr ⟨rfl, rfl⟩⟩, fun gs hs hfirst hsecond => ?_⟩
  obtain ⟨-, rfl⟩ := (pair_maps_iff _ _ _ h₁ h₂).mp ⟨hfirst, hsecond⟩
  rw [reassemble_rebuilt packets hne, filled_eq_iff]

/-- One packet of 64 bytes, and one of a single byte. -/
theorem aesPair_restores_two_packets :
    let packets : List (List UInt8) := [List.replicate 64 1, [1]]
    let block : Block := Vector.replicate 16 3
    let s : KernelState AesCtrState Flit := kinit (.keyed block block) (fun _ => 4) fun _ => 4
    (∃ gs hs, Maps aesCtr KeepsKey s (packets.flatMap packetToFlits) gs ∧
        Maps aesCtr KeepsKey s gs hs) ∧
      ∀ gs hs, Maps aesCtr KeepsKey s (packets.flatMap packetToFlits) gs →
        Maps aesCtr KeepsKey s gs hs →
        (reassemble hs = packets ↔ ∀ p ∈ packets, 32 ∣ p.length) :=
  aesPair_restores_iff _ (by decide) (keyed_kinit _ _ _ _) (keyed_kinit _ _ _ _)

/-- A packet of a single byte comes back with 32 bytes. -/
theorem aesPair_lengthens_packet :
    ¬ ∀ (packets : List (List UInt8)), (∀ p ∈ packets, p ≠ []) →
      ∀ (key iv : Block) (s₁ s₂ : KernelState AesCtrState Flit),
        Keyed key iv s₁ → Keyed key iv s₂ →
        ∀ gs hs, Maps aesCtr KeepsKey s₁ (packets.flatMap packetToFlits) gs →
          Maps aesCtr KeepsKey s₂ gs hs →
          reassemble hs = packets := by
  intro h
  let key : Block := Vector.replicate 16 0
  have hkeyed := keyed_kinit key key (fun _ => 4) fun _ => 4
  obtain ⟨hfirst, hsecond⟩ := (pair_maps_iff (packetToFlits [7]) _ _ hkeyed hkeyed).mpr
    ⟨rfl, rfl⟩
  have hrestored := h [[7]] (by decide) key key _ _ hkeyed hkeyed _ _
    (by rwa [List.flatMap_singleton]) hsecond
  have hfilled := reassemble_rebuilt [[7]] (by decide)
  rw [List.flatMap_singleton, hrestored] at hfilled
  exact absurd hfilled (by decide)

end OpenClickNP
